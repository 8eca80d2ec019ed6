-- SUMMARY: `App`: the server, the two managers and the runtime under one roof, from the registration of the camera to the return of `stop`.
import AtomRust.Net.Server
import AtomRust.Session.SessionManager
import AtomRust.Source.SourceManager

/-!
# The application

An `App` puts together the parts that `App::start` makes and that `App::stop` stops, each
with all its steps. They meet in two places. A connection that is busy with a request may
call the managers, one call at a time, and answers when the call has returned. And the
runtime takes no more tasks, and tells all of them to stop, at once for all parts.

What the handler makes of the answers, and what the sessions put on the queues of the
connections, is left open here; so is the task of the camera, and the publishers, which
give up their contexts when they are first polled.

`stop` of a manager takes `&mut self`, so `App::stop` first waits until nobody reads the
context that holds the managers. That is `quiet` in the managers.
-/

open Media (Video)

namespace App

/-- The next statement of `TaskManager::stop`. -/
inductive RuntimePc where
  /-- `drop(self.hold_tx.lock().await.take())`. -/
  | refuse
  /-- `self.stop_tx.send(())`. -/
  | signal
  /-- `self.hold_rx.lock().await.recv()`. -/
  | recv
  deriving DecidableEq

/-- The next statement of `App::start`, from the registration of the camera on, or of
`App::stop`. -/
inductive Pc where
  /-- `context.source_manager.register_and_start(..)`. -/
  | register
  /-- The call has not returned yet. -/
  | registering
  /-- `Server::start(..)`. -/
  | serve
  /-- `start` has returned, and `stop` is not called yet. -/
  | running
  /-- `stop.send(())` in `Task::stop`, on the task of the server. -/
  | stop
  /-- `self.hold.take()`. -/
  | takeHold
  /-- `hold.await`. -/
  | wait
  /-- `self.context.write().await.session_manager.stop()`. -/
  | beginSessions
  | sessions
  /-- `self.context.write().await.source_manager.stop()`. -/
  | beginSources
  | sources
  /-- `self.runtime.stop()`, from `App::stop` or, with `failed`, from `handle_err!` in
  `App::start`. -/
  | runtime (failed : Bool) (pc : RuntimePc)
  /-- That has returned, and the tasks are not asked for anything any more. -/
  | ended (failed : Bool)
  deriving DecidableEq

/-- A call that the handler of a connection makes. -/
inductive Call where
  /-- `SessionManager::setup`, which is call `j` there. -/
  | setup (j : Nat)
  /-- `play` or `teardown`, which is call `c` of session `j`. -/
  | session (j c : Nat)
  /-- `SourceManager::subscribe`, which makes delegate `c` of source `j`. -/
  | subscribe (j c : Nat)
  deriving DecidableEq

end App

open App (Call Pc RuntimePc)

structure App (μ κ ρ : Type) (V : Video) (σ δ ε : Type) where
  /-- The runtime still starts tasks. -/
  accepting : Bool
  /-- The stop broadcast of the runtime. -/
  stopAll : List Unit
  server : Server μ κ ρ
  sessions : SessionManager V
  sources : SourceManager σ δ ε
  /-- The last call that was made for the request that a connection is busy with. -/
  calls : AList fun _ : Nat => Call
  pc : Pc

namespace App
variable {μ κ ρ : Type} {V : Video} {σ δ ε : Type}

/-- `initialize_context`. -/
def start : App μ κ ρ V σ δ ε where
  accepting := true
  stopAll := []
  server := .absent
  sessions := .start true []
  sources := .start true []
  calls := ∅
  pc := .register

/-! ## Starting -/

/-- The camera is registered, and `register_and_start` called. -/
def register (a : App μ κ ρ V σ δ ε) (path : SourcePath) (streamInfo : σ) :
    Option (App μ κ ρ V σ δ ε) :=
  if a.pc = .register then
    (a.sources.step (.register path streamInfo)).map fun sources =>
      { a with sources, pc := .registering }
  else none

/-- `register_and_start` returns. -/
def registered (a : App μ κ ρ V σ δ ε) : Option (App μ κ ρ V σ δ ε) :=
  if a.pc = .registering then
    match a.sources.registers[0]?.map SourceManager.RegisterCall.pc with
    | some (.returned (.ok ())) => some { a with pc := .serve }
    | some (.returned (.error _)) => some { a with pc := .runtime true .refuse }
    | _ => none
  else none

/-- `Server::start`, which fails if it cannot listen. -/
def serve (a : App μ κ ρ V σ δ ε) (bound : Bool) : Option (App μ κ ρ V σ δ ε) :=
  if a.pc = .serve then
    if bound then some { a with server := .start a.accepting a.stopAll, pc := .running }
    else some { a with pc := .runtime true .refuse }
  else none

/-! ## Handlers -/

/-- The call has not returned. -/
def active (a : App μ κ ρ V σ δ ε) : Call → Bool
  | .setup j => a.sessions.setups[j]?.any fun u => u.result.isNone
  | .session j c =>
      a.sessions.setups[j]?.any fun u => u.session.calls[c]?.any Session.CallPc.active
  | .subscribe j c =>
      a.sources.registers[j]?.any fun u => u.source.delegates[c]?.any fun d => d.pc = .subscribe

/-- The handler of connection `i` has a request, and waits for no call. -/
def free (a : App μ κ ρ V σ δ ε) (i : Nat) : Bool :=
  a.server.serving i && (a.calls.lookup i).all fun call => !a.active call

def setup (a : App μ κ ρ V σ δ ε) (i sample : Nat) (target : Session.SessionSetupTarget)
    (muxer : V.RtpMuxer) : Option (App μ κ ρ V σ δ ε) :=
  if a.free i then
    (a.sessions.step (.setup sample target muxer)).map fun sessions =>
      { a with sessions, calls := a.calls.insert i (.setup a.sessions.setups.length) }
  else none

/-- The number that a new call of the session has there, if there is one to find. -/
def found (a : App μ κ ρ V σ δ ε) (id : SessionId) : Option Call :=
  (a.sessions.sessions.lookup id).bind fun j =>
    a.sessions.setups[j]?.map fun u => .session j u.session.calls.length

def find (a : App μ κ ρ V σ δ ε) (i : Nat) (id : SessionId) (request : Session.Request) :
    Option (App μ κ ρ V σ δ ε) :=
  if a.free i then
    (a.sessions.step (.find id request)).map fun sessions =>
      { a with sessions, calls := (a.found id).elim a.calls (a.calls.insert i) }
  else none

/-- The number that a new delegate of the source has there. -/
def subscribed (a : App μ κ ρ V σ δ ε) (path : SourcePath) : Option Call :=
  (a.sources.sources.lookup path).bind fun j =>
    a.sources.registers[j]?.map fun u => .subscribe j u.source.delegates.length

def subscribe (a : App μ κ ρ V σ δ ε) (i : Nat) (path : SourcePath) : Option (App μ κ ρ V σ δ ε) :=
  if a.free i then
    (a.sources.step (.subscribe path)).map fun sources =>
      { a with sources, calls := (a.subscribed path).elim a.calls (a.calls.insert i) }
  else none

/-- The handler of connection `i` returns. -/
def respond (a : App μ κ ρ V σ δ ε) (i : Nat) (response : ρ) : Option (App μ κ ρ V σ δ ε) :=
  if a.free i then
    (a.server.step a.accepting a.stopAll (.connections (.conn i (.respond response)))).map
      fun server => { a with server, calls := a.calls.erase i }
  else none

/-! ## Stopping -/

/-- Nobody holds a `TaskContext` any more. -/
def released (a : App μ κ ρ V σ δ ε) : Bool :=
  !a.server.worker.context &&
    (a.server.connections.all fun m =>
      !m.worker.context && m.spawns.all fun u => !u.task.context) &&
    !a.sessions.worker.context && (a.sessions.setups.all fun u => !u.session.task.context) &&
    !a.sources.worker.context && a.sources.registers.all fun u => !u.source.worker.context

def runtimeStep (a : App μ κ ρ V σ δ ε) (failed : Bool) : RuntimePc → Option (App μ κ ρ V σ δ ε)
  | .refuse =>
      (a.sessions.step .refuse).bind fun sessions => (a.sources.step .refuse).map fun sources =>
        { a with
          accepting := false, server := a.server.refuse, sessions, sources
          pc := .runtime failed .signal }
  | .signal =>
      (a.sessions.step .stopAll).bind fun sessions => (a.sources.step .stopAll).map fun sources =>
        { a with
          stopAll := a.stopAll ++ [()], server := a.server.signal, sessions, sources
          pc := .runtime failed .recv }
  | .recv => if a.released then some { a with pc := .ended failed } else none

/-- One step of `stop`, or of the runtime's. -/
def stopStep (a : App μ κ ρ V σ δ ε) : Pc → Option (App μ κ ρ V σ δ ε)
  | .running => some { a with pc := .stop }
  | .stop =>
      a.server.worker.sendStop.map fun worker =>
        { a with server := { a.server with worker }, pc := .takeHold }
  | .takeHold =>
      let pc := if a.server.worker.hold then Pc.wait else .beginSessions
      some { a with server := { a.server with worker := a.server.worker.takeHold }, pc }
  | .wait => if a.server.worker.released then some { a with pc := .beginSessions } else none
  | .beginSessions =>
      (a.sessions.step .beginStop).map fun sessions => { a with sessions, pc := .sessions }
  | .sessions =>
      match a.sessions.stopPc with
      | none => some { a with pc := .beginSources }
      | some _ => (a.sessions.step .stop).map fun sessions => { a with sessions }
  | .beginSources =>
      (a.sources.step .beginStop).map fun sources => { a with sources, pc := .sources }
  | .sources =>
      match a.sources.stopPc with
      | none => some { a with pc := .runtime false .refuse }
      | some _ => (a.sources.step .stop).map fun sources => { a with sources }
  | .runtime failed pc => a.runtimeStep failed pc
  | .register | .registering | .serve | .ended _ => none

def drainSession (a : App μ κ ρ V σ δ ε) (id : SessionId) : Option (App μ κ ρ V σ δ ε) :=
  if a.pc = .sessions then
    (a.sessions.step (.drain id)).map fun sessions => { a with sessions }
  else none

def drainSource (a : App μ κ ρ V σ δ ε) (path : SourcePath) : Option (App μ κ ρ V σ δ ε) :=
  if a.pc = .sources then
    (a.sources.step (.drain path)).map fun sources => { a with sources }
  else none

/-! ## The system -/

/-- The steps of the server that are not the answer of a handler. -/
def ofServer : Server.Action μ κ ρ → Bool
  | .connections (.conn _ (.respond _)) => false
  | _ => true

/-- What the sessions, the `setup` calls and the session manager's worker do by themselves. -/
def ofSessions : SessionManager.Action V → Bool
  | .register _ | .session .. | .recv | .remove | .waitForStop _ | .exit => true
  | .setup .. | .find .. | .beginStop | .stop | .drain _ | .refuse | .stopAll => false

/-- What the sources, the registration and the source manager's worker do by themselves. -/
def ofSources : SourceManager.Action σ δ ε → Bool
  | .advance .. | .source .. | .recv | .remove | .waitForStop _ | .exit => true
  | .register .. | .subscribe _ | .beginStop | .stop | .drain _ | .refuse | .stopAll => false

inductive Action (μ κ ρ : Type) (V : Video) (σ δ ε : Type) where
  | register (path : SourcePath) (streamInfo : σ)
  | registered
  | serve (bound : Bool)
  | server (b : Server.Action μ κ ρ)
  | sessions (b : SessionManager.Action V)
  | sources (b : SourceManager.Action σ δ ε)
  | setup (i sample : Nat) (target : Session.SessionSetupTarget) (muxer : V.RtpMuxer)
  | find (i : Nat) (id : SessionId) (request : Session.Request)
  | subscribe (i : Nat) (path : SourcePath)
  | respond (i : Nat) (response : ρ)
  | stop
  | drainSession (id : SessionId)
  | drainSource (path : SourcePath)

def step (a : App μ κ ρ V σ δ ε) : Action μ κ ρ V σ δ ε → Option (App μ κ ρ V σ δ ε)
  | .register path streamInfo => a.register path streamInfo
  | .registered => a.registered
  | .serve bound => a.serve bound
  | .server b =>
      if ofServer b then
        (a.server.step a.accepting a.stopAll b).map fun server => { a with server }
      else none
  | .sessions b =>
      if ofSessions b then (a.sessions.step b).map fun sessions => { a with sessions } else none
  | .sources b =>
      if ofSources b then (a.sources.step b).map fun sources => { a with sources } else none
  | .setup i sample target muxer => a.setup i sample target muxer
  | .find i id request => a.find i id request
  | .subscribe i path => a.subscribe i path
  | .respond i response => a.respond i response
  | .stop => a.stopStep a.pc
  | .drainSession id => a.drainSession id
  | .drainSource path => a.drainSource path

/-- The runs of the application. -/
def system (μ κ ρ : Type) (V : Video) (σ δ ε : Type) :
    Transition.System (App μ κ ρ V σ δ ε) (Action μ κ ρ V σ δ ε) where
  init a := a = start
  step := step

end App

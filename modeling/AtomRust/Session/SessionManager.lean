-- SUMMARY: `SessionManager`: its calls, the sessions they start, the map, and the worker that removes sessions that report their end.
import Mathlib.Data.List.AList
import Mathlib.Algebra.Group.Nat.Defs
import AtomRust.Session.Session

/-!
# The session manager

The state is what the callers of `SessionManager`, its worker and the sessions
share. Every `setup` call starts one session, so a number names both; what is
inside a session is a `Session`, and an action of the manager is one step of
one session, or of the manager's own worker, or of a call.

`play` and `teardown` calls that have found a session are calls of that session,
with all that is left of them. A request that finds nothing returns at once and
leaves an entry in `log`, a ghost that records, newest first, what happened to
the map.
-/

open Media (StreamState Video)
open Runtime (StopSource TaskState)

structure SessionId where
  value : String
  deriving DecidableEq

namespace SessionId

/-- `SessionId::SESSION_ID_LEN`. -/
def sessionIdLen : Nat := 8

/-- What the random number generator may sample. -/
def sampled (sample : Nat) : Bool :=
  10 ^ (sessionIdLen - 1) ≤ sample && sample < 10 ^ sessionIdLen

/-- `SessionId::generate`. -/
def generate (sample : Nat) : SessionId := ⟨toString sample⟩

end SessionId

namespace SessionManager

inductive RegisterSessionError where
  | alreadyRegistered
  deriving DecidableEq

/-- A `setup` call: the session it has started under `id`, and what it returned
once it has tried to register the session. -/
structure SetupCall (V : Video) where
  id : SessionId
  session : Session V
  result : Option (Except RegisterSessionError SessionId)

/-- The stop signal of the runtime reaches the session. -/
def SetupCall.signal {V : Video} (u : SetupCall V) : SetupCall V :=
  { u with session := { u.session with stopAll := u.session.stopAll ++ [()] } }

/-- The next statement of the manager's worker. -/
inductive WorkerPc where
  /-- The `select!` of `SessionManager::run`. -/
  | select
  /-- `sessions.write().await.remove(&session_id)`; session `i` sent the notice. -/
  | remove (id : SessionId) (i : Nat)
  /-- The loop is left. -/
  | left
  /-- The context is dropped, or there never was one. -/
  | ended
  deriving DecidableEq

/-- The next statement of a `SessionManager::stop` call. -/
inductive StopPc where
  /-- `stop.send(())` in `Task::stop`. -/
  | stop
  /-- `self.hold.take()` in `Task::stop`. -/
  | takeHold
  /-- `hold.await` in `Task::stop`. -/
  | wait
  /-- The head of the `for` loop. -/
  | drain
  /-- `session.lock().await.teardown()` is call `c` of session `i`. -/
  | teardown (i c : Nat)
  deriving DecidableEq

/-- An entry of the log. -/
inductive Record where
  /-- `setup` call `i` put its session into the map. -/
  | registered (id : SessionId) (i : Nat)
  /-- The worker removed `id` on the notice that session `i` sent. -/
  | removed (id : SessionId) (i : Nat)
  /-- `stop` took `id` out of the map. -/
  | drained (id : SessionId)
  /-- There was no session for the request: `play` returned `None`, or
  `teardown` returned `false`. -/
  | missed (id : SessionId) (request : Session.Request)
  deriving DecidableEq

end SessionManager

open SessionManager (RegisterSessionError SetupCall StopPc WorkerPc Record)

structure SessionManager (V : Video) where
  /-- The runtime still starts tasks. -/
  accepting : Bool
  /-- The stop broadcast of the runtime. -/
  stopAll : List Unit
  setups : List (SetupCall V)
  /-- The map, with a session's number for its `Arc`. -/
  sessions : AList fun _ : SessionId => Nat
  /-- The `SessionState::Stopped` messages in the session state channel, each
  with the session that sent it. -/
  notices : List (SessionId × Nat)
  worker : TaskState
  workerPc : WorkerPc
  /-- The `stop` call in progress. -/
  stopPc : Option StopPc
  log : List Record

namespace SessionManager
variable {V : Video}

/-- `SessionManager::start`. -/
def start (accepted : Bool) (stopAll : List Unit) : SessionManager V where
  accepting := accepted
  stopAll := stopAll
  setups := []
  sessions := ∅
  notices := []
  worker := if accepted then .new (Broadcast.subscribe stopAll) else .none
  workerPc := if accepted then .select else .ended
  stopPc := none
  log := []

def note (m : SessionManager V) (r : Record) : SessionManager V := { m with log := r :: m.log }

/-- Session `i`, which `u` is about, is now `session`. If it has just sent its
`Stopped` message, that is in the channel. A message that the manager's worker
never takes is lost in the implementation and stays in the channel here. -/
def putSession (m : SessionManager V) (i : Nat) (u : SetupCall V) (session : Session V) :
    SessionManager V :=
  { m with
    setups := m.setups.set i { u with session }
    notices :=
      if session.stopped && !u.session.stopped then m.notices ++ [(u.id, i)] else m.notices }

/-- Session `i` takes a step. -/
def onSession (m : SessionManager V) (i : Nat) (a : Session.Action V) : Option (SessionManager V) :=
  m.setups[i]?.bind fun u => (u.session.step a).map (m.putSession i u)

/-! ## The calls -/

/-- A `setup` call up to the start of its session. -/
def setup (m : SessionManager V) (sample : Nat) (target : Session.SessionSetupTarget)
    (muxer : V.RtpMuxer) : SessionManager V :=
  let u : SetupCall V :=
    { id := .generate sample
      session := .setupAndStart target muxer m.accepting m.stopAll
      result := none }
  { m with setups := m.setups ++ [u] }

/-- The rest of the call. With the error, the session is dropped. -/
def register (m : SessionManager V) (i : Nat) (u : SetupCall V) : Option (SessionManager V) :=
  match m.sessions.lookup u.id with
  | none =>
      let u' := { u with result := some (.ok u.id) }
      some ({ m with
        setups := m.setups.set i u'
        sessions := m.sessions.insert u.id i }.note (.registered u.id i))
  | some _ =>
      let u' := { u with result := some (.error .alreadyRegistered) }
      { m with setups := m.setups.set i u' }.onSession i .disown

/-- The lookup with which `play` and `teardown` begin. -/
def find (m : SessionManager V) (id : SessionId) (request : Session.Request) :
    Option (SessionManager V) :=
  match m.sessions.lookup id with
  | none => some (m.note (.missed id request))
  | some i => m.onSession i (.find request)

/-- No call is in progress. -/
def quiet (m : SessionManager V) : Bool :=
  m.setups.all fun u => u.result.isSome && !u.session.calls.any Session.CallPc.active

def stopStep (m : SessionManager V) : StopPc → Option (SessionManager V)
  | .stop => m.worker.sendStop.map fun worker => { m with worker, stopPc := some .takeHold }
  | .takeHold =>
      let next := if m.worker.hold then StopPc.wait else .drain
      some { m with worker := m.worker.takeHold, stopPc := some next }
  | .wait => if m.worker.released then some { m with stopPc := some .drain } else none
  | .drain => if m.sessions.entries.isEmpty then some { m with stopPc := none } else none
  | .teardown i c =>
      match m.setups[i]?.bind fun u => u.session.calls[c]? with
      | some (.returned _) => some { m with stopPc := some .drain }
      | _ => none

/-- One round of the `for` loop over `drain()`, which yields entries in any
order. The `Arc` that was in the map belongs to the round. -/
def drain (m : SessionManager V) (id : SessionId) : Option (SessionManager V) :=
  (m.sessions.lookup id).bind fun i =>
    m.setups[i]?.bind fun u =>
      (m.onSession i (.find .teardown)).bind fun m =>
        (m.onSession i .disown).map fun m =>
          { m with
            sessions := m.sessions.erase id
            stopPc := some (.teardown i u.session.calls.length) }.note (.drained id)

/-! ## The worker -/

/-- `session_state_rx.recv()`. The manager itself keeps a sender, so the channel
does not break. -/
def recv (m : SessionManager V) : Option (SessionManager V) :=
  match m.workerPc, m.notices with
  | .select, (id, i) :: notices => some { m with workerPc := .remove id i, notices }
  | _, _ => none

def remove (m : SessionManager V) : Option (SessionManager V) :=
  match m.workerPc with
  | .remove id i =>
      let m' := { m with
        workerPc := .select
        sessions := m.sessions.erase id }.note (.removed id i)
      match m.sessions.lookup id with
      | none => some m'
      | some j => m'.onSession j .disown
  | _ => none

def waitForStop (m : SessionManager V) (src : StopSource) : Option (SessionManager V) :=
  if m.workerPc = .select then
    (m.worker.waitForStop true m.stopAll src).map fun worker => { m with worker, workerPc := .left }
  else none

def exit (m : SessionManager V) : Option (SessionManager V) :=
  if m.workerPc = .left then some { m with worker := m.worker.dropContext, workerPc := .ended }
  else none

/-! ## The system -/

/-- The steps that a session takes by itself, its worker's, its calls' and those
of the source and the connection. -/
def ofSession : Session.Action V → Bool
  | .find _ | .disown | .stopAll => false
  | _ => true

inductive Action (V : Video) where
  /-- A new call of `setup`. -/
  | setup (sample : Nat) (target : Session.SessionSetupTarget) (muxer : V.RtpMuxer)
  /-- `setup` call `i` returns. -/
  | register (i : Nat)
  /-- A new call of `play` or `teardown`. -/
  | find (id : SessionId) (request : Session.Request)
  | session (i : Nat) (a : Session.Action V)
  | recv
  | remove
  | waitForStop (src : StopSource)
  | exit
  /-- A new call of `stop`. -/
  | beginStop
  | stop
  | drain (id : SessionId)
  /-- The runtime begins to stop, and starts no more tasks. -/
  | refuse
  /-- The runtime sends a stop signal to all tasks. -/
  | stopAll

/-- `stop` takes `&mut self`, so no other call is in progress when one is. -/
def step (m : SessionManager V) : Action V → Option (SessionManager V)
  | .setup sample target muxer =>
      if m.stopPc = none ∧ SessionId.sampled sample then some (m.setup sample target muxer) else none
  | .register i =>
      m.setups[i]?.bind fun u => if u.result.isNone then m.register i u else none
  | .find id request => if m.stopPc = none then m.find id request else none
  | .session i a => if ofSession a then m.onSession i a else none
  | .recv => m.recv
  | .remove => m.remove
  | .waitForStop src => m.waitForStop src
  | .exit => m.exit
  | .beginStop =>
      if m.stopPc = none ∧ m.quiet then some { m with stopPc := some .stop } else none
  | .stop => m.stopPc.bind m.stopStep
  | .drain id => if m.stopPc = some .drain then m.drain id else none
  | .refuse => some { m with accepting := false }
  | .stopAll =>
      some { m with stopAll := m.stopAll ++ [()], setups := m.setups.map SetupCall.signal }

/-- The runs of a session manager. -/
def system (V : Video) : Transition.System (SessionManager V) (Action V) where
  init m := ∃ accepted stopAll, m = start accepted stopAll
  step := step

end SessionManager

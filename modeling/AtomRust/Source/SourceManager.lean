-- SUMMARY: `SourceManager`: registration, the two lookups that requests make, the worker that removes sources that report their end, and `stop`.
import Mathlib.Data.List.AList
import AtomRust.Source.Source

/-!
# The source manager

Every `register_and_start` call starts one source, so a number names both; what is
inside a source is a `Source`. `stop` takes `&mut self`, so no other call is in
progress when it is.

`log` is a ghost that records, newest first, what happened to the map of sources.
-/

open Runtime (StopSource TaskState)

/-- `SdpError`, with `ε` for the errors of `video_rs`. -/
inductive SdpError (ε : Type) where
  | codecNotSupported
  | media (error : ε)
  | sdpNotReady

namespace SourceManager

inductive RegisterSourceError (ε : Type) where
  | alreadyRegistered
  | media (error : ε)
  | sdp (error : SdpError ε)

/-- The next statement of a `register_and_start` call. -/
inductive RegisterPc (δ ε : Type) where
  /-- `self.sources.write().await.entry(path)`. -/
  | entry
  /-- `sdp::create_from_info(&name, stream_info).await`. -/
  | createSdp
  /-- `self.source_descriptions_cache.write().await.insert(path, description)`. -/
  | cache (description : δ)
  /-- `self.describe(&path).await`. -/
  | describe
  | returned (result : Except (RegisterSourceError ε) Unit)

/-- A `register_and_start` call and the source that it has started. -/
structure RegisterCall (σ δ ε : Type) where
  source : Source σ
  pc : RegisterPc δ ε

def RegisterPc.active {δ ε : Type} : RegisterPc δ ε → Bool
  | .returned _ => false
  | .entry | .createSdp | .cache _ | .describe => true

/-- The next statement of the manager's worker. -/
inductive WorkerPc where
  /-- The `select!` of `SourceManager::run`. -/
  | select
  /-- `sources.write().await.remove(&source_id)`; source `i` sent the notice. -/
  | remove (path : SourcePath) (i : Nat)
  /-- The loop is left. -/
  | left
  /-- The context is dropped, or there never was one. -/
  | ended
  deriving DecidableEq

/-- The next statement of a `SourceManager::stop` call. -/
inductive StopPc where
  /-- `stop.send(())` in `Task::stop`, on the worker. -/
  | stop
  /-- `self.hold.take()`. -/
  | takeHold
  /-- `hold.await`. -/
  | wait
  /-- The head of the `for` loop. -/
  | drain
  /-- The same three in `Source::stop`, on source `i`. -/
  | stopSource (i : Nat)
  | sourceTakeHold (i : Nat)
  | sourceWait (i : Nat)
  /-- The end of a round, where the `Arc` is dropped. -/
  | stopped (i : Nat)
  deriving DecidableEq

/-- An entry of the log. -/
inductive Record where
  /-- `register_and_start` call `i` put its source into the map. -/
  | registered (path : SourcePath) (i : Nat)
  /-- The worker removed `path` on the notice that source `i` sent. -/
  | removed (path : SourcePath) (i : Nat)
  /-- `stop` took `path` out of the map. -/
  | drained (path : SourcePath)
  deriving DecidableEq

end SourceManager

open SourceManager (Record RegisterCall RegisterSourceError StopPc WorkerPc)

structure SourceManager (σ δ ε : Type) where
  /-- The runtime still starts tasks. -/
  accepting : Bool
  /-- The stop broadcast of the runtime. -/
  stopAll : List Unit
  registers : List (RegisterCall σ δ ε)
  /-- The map, with a source's number for its `Arc`. -/
  sources : AList fun _ : SourcePath => Nat
  sourceDescriptionsCache : AList fun _ : SourcePath => δ
  /-- The `SourceState::Stopped` messages in the source state channel, each with the
  source that sent it. -/
  notices : List (SourcePath × Nat)
  worker : TaskState
  workerPc : WorkerPc
  /-- The `stop` call in progress. -/
  stopPc : Option StopPc
  log : List Record

namespace SourceManager
variable {σ δ ε : Type}

/-- `SourceManager::start`. -/
def start (accepted : Bool) (stopAll : List Unit) : SourceManager σ δ ε where
  accepting := accepted
  stopAll := stopAll
  registers := []
  sources := ∅
  sourceDescriptionsCache := ∅
  notices := []
  worker := if accepted then .new (Broadcast.subscribe stopAll) else .none
  workerPc := if accepted then .select else .ended
  stopPc := none
  log := []

def note (m : SourceManager σ δ ε) (r : Record) : SourceManager σ δ ε :=
  { m with log := r :: m.log }

/-- Source `i`, which `u` is about, is now `s`. -/
def setSource (m : SourceManager σ δ ε) (i : Nat) (u : RegisterCall σ δ ε) (s : Source σ) :
    SourceManager σ δ ε :=
  { m with registers := m.registers.set i { u with source := s } }

/-- The `Arc` of source `i`, if any, that was in the map is dropped. -/
def disown (m : SourceManager σ δ ε) (i : Option Nat) : SourceManager σ δ ε :=
  match i, i.bind fun i => m.registers[i]? with
  | some i, some u => m.setSource i u { u.source with owned := false }
  | _, _ => m

/-! ## Requests -/

/-- An unknown path and a path whose description is not there are not told apart. -/
def describe (m : SourceManager σ δ ε) (path : SourcePath) : Option (Except (SdpError ε) δ) :=
  match m.sourceDescriptionsCache.lookup path with
  | some description => some (.ok description)
  | none => some (.error .sdpNotReady)

/-- The lookup with which `subscribe` begins. With `none` it returns `None`. -/
def subscribe (m : SourceManager σ δ ε) (path : SourcePath) : Option (SourceManager σ δ ε) :=
  (m.sources.lookup path).bind fun i =>
    m.registers[i]?.map fun u => m.setSource i u u.source.subscribe

/-! ## Registration -/

/-- A `register_and_start` call up to the end of `Source::start`, which does not fail. -/
def registerAndStart (m : SourceManager σ δ ε) (path : SourcePath) (streamInfo : σ) :
    SourceManager σ δ ε :=
  let source := .start (normalizePath path) streamInfo m.accepting m.stopAll
  { m with registers := m.registers ++ [{ source, pc := .entry }] }

/-- The entry is filled, or the call fails and drops its source. -/
def entry (m : SourceManager σ δ ε) (i : Nat) (u : RegisterCall σ δ ε) : SourceManager σ δ ε :=
  match m.sources.lookup u.source.path with
  | none =>
      { m with
        registers := m.registers.set i { u with pc := .createSdp }
        sources := m.sources.insert u.source.path i }.note (.registered u.source.path i)
  | some _ =>
      let source := { u.source with owned := false }
      { m with registers := m.registers.set i { source, pc := .returned (.error .alreadyRegistered) } }

/-- The next step of the call. `description` is what `create_from_info` returns. -/
def advance (m : SourceManager σ δ ε) (i : Nat) (u : RegisterCall σ δ ε)
    (description : Except (SdpError ε) δ) : Option (SourceManager σ δ ε) :=
  match u.pc with
  | .entry => some (m.entry i u)
  | .createSdp =>
      let pc := match description with
        | .ok description => .cache description
        | .error _ => .describe
      some { m with registers := m.registers.set i { u with pc } }
  | .cache description =>
      some { m with
        registers := m.registers.set i { u with pc := .describe }
        sourceDescriptionsCache := m.sourceDescriptionsCache.insert u.source.path description }
  | .describe =>
      -- The result is unwrapped, and an error in it only logged.
      (m.describe u.source.path).map fun _ =>
        { m with registers := m.registers.set i { u with pc := .returned (.ok ()) } }
  | .returned _ => none

/-! ## The sources -/

/-- Source `i` takes a step of its own. A notice that the manager's worker never takes
is lost in the implementation and stays in the channel here. -/
def onSource (m : SourceManager σ δ ε) (i : Nat) (u : RegisterCall σ δ ε) (a : Source.Action) :
    Option (SourceManager σ δ ε) :=
  (u.source.step m.stopAll a).map fun s =>
    { m.setSource i u s with
      notices :=
        if s.workerPc.notified && !u.source.workerPc.notified then
          m.notices ++ [(u.source.path, i)]
        else m.notices }

/-! ## The worker -/

/-- `source_state_rx.recv()`. The manager itself keeps a sender, so the channel does
not break. -/
def recv (m : SourceManager σ δ ε) : Option (SourceManager σ δ ε) :=
  match m.workerPc, m.notices with
  | .select, (path, i) :: notices => some { m with workerPc := .remove path i, notices }
  | _, _ => none

def remove (m : SourceManager σ δ ε) : Option (SourceManager σ δ ε) :=
  match m.workerPc with
  | .remove path i =>
      some ({ m.disown (m.sources.lookup path) with
        workerPc := .select
        sources := m.sources.erase path }.note (.removed path i))
  | _ => none

def waitForStop (m : SourceManager σ δ ε) (src : StopSource) : Option (SourceManager σ δ ε) :=
  if m.workerPc = .select then
    (m.worker.waitForStop true m.stopAll src).map fun worker => { m with worker, workerPc := .left }
  else none

def exit (m : SourceManager σ δ ε) : Option (SourceManager σ δ ε) :=
  if m.workerPc = .left then some { m with worker := m.worker.dropContext, workerPc := .ended }
  else none

/-! ## Stopping -/

/-- Neither `register_and_start` nor `subscribe` is in progress. -/
def quiet (m : SourceManager σ δ ε) : Bool :=
  m.registers.all fun u => !u.pc.active && !u.source.delegates.any fun d => d.pc = .subscribe

/-- One step of `stop`, the choice of the next source apart. -/
def stopStep (m : SourceManager σ δ ε) : StopPc → Option (SourceManager σ δ ε)
  | .stop => m.worker.sendStop.map fun worker => { m with worker, stopPc := some .takeHold }
  | .takeHold =>
      let next := if m.worker.hold then StopPc.wait else .drain
      some { m with worker := m.worker.takeHold, stopPc := some next }
  | .wait => if m.worker.released then some { m with stopPc := some .drain } else none
  | .drain => if m.sources.entries.isEmpty then some { m with stopPc := none } else none
  | .stopSource i =>
      m.registers[i]?.bind fun u =>
        u.source.worker.sendStop.map fun worker =>
          { m.setSource i u { u.source with worker } with stopPc := some (.sourceTakeHold i) }
  | .sourceTakeHold i =>
      m.registers[i]?.map fun u =>
        let next := if u.source.worker.hold then StopPc.sourceWait i else .stopped i
        let worker := u.source.worker.takeHold
        { m.setSource i u { u.source with worker } with stopPc := some next }
  | .sourceWait i =>
      m.registers[i]?.bind fun u =>
        if u.source.worker.released then some { m with stopPc := some (.stopped i) } else none
  | .stopped i => some { m.disown (some i) with stopPc := some .drain }

/-- The next round of the `for` loop over `drain()`, which yields entries in any
order. -/
def drain (m : SourceManager σ δ ε) (path : SourcePath) : Option (SourceManager σ δ ε) :=
  (m.sources.lookup path).map fun i =>
    { m with sources := m.sources.erase path, stopPc := some (.stopSource i) }.note (.drained path)

/-! ## The system -/

inductive Action (σ δ ε : Type) where
  /-- A new call of `register_and_start`. -/
  | register (path : SourcePath) (streamInfo : σ)
  /-- `register_and_start` call `i` goes on. -/
  | advance (i : Nat) (description : Except (SdpError ε) δ)
  /-- A new call of `subscribe`. -/
  | subscribe (path : SourcePath)
  | source (i : Nat) (a : Source.Action)
  | recv
  | remove
  | waitForStop (src : StopSource)
  | exit
  /-- A new call of `stop`. -/
  | beginStop
  | stop
  | drain (path : SourcePath)
  /-- The runtime begins to stop, and starts no more tasks. -/
  | refuse
  /-- The runtime sends a stop signal to all tasks. -/
  | stopAll

def step (m : SourceManager σ δ ε) : Action σ δ ε → Option (SourceManager σ δ ε)
  | .register path streamInfo =>
      if m.stopPc = none then some (m.registerAndStart path streamInfo) else none
  | .advance i description => m.registers[i]?.bind fun u => m.advance i u description
  | .subscribe path => if m.stopPc = none then some ((m.subscribe path).getD m) else none
  | .source i a => m.registers[i]?.bind fun u => m.onSource i u a
  | .recv => m.recv
  | .remove => m.remove
  | .waitForStop src => m.waitForStop src
  | .exit => m.exit
  | .beginStop => if m.stopPc = none ∧ m.quiet then some { m with stopPc := some .stop } else none
  | .stop => m.stopPc.bind m.stopStep
  | .drain path => if m.stopPc = some .drain then m.drain path else none
  | .refuse => some { m with accepting := false }
  | .stopAll => some { m with stopAll := m.stopAll ++ [()] }

/-- The runs of a source manager. -/
def system (σ δ ε : Type) :
    Transition.System (SourceManager σ δ ε) (Action σ δ ε) where
  init m := ∃ accepted stopAll, m = start accepted stopAll
  step := step

end SourceManager

-- SUMMARY: `Source`: its worker, the delegates that subscribe to it, and their queries for the media info.
import AtomRust.Base.Transition
import AtomRust.Runtime.Task

/-!
# Sources

The state is what a `Source`, its worker and its delegates share. A delegate is in
the list from the moment `SourceManager::subscribe` has found the source. The
packet and reset channels carry the stream and play no part in a query.
-/

open Runtime (StopSource TaskState)

abbrev SourcePath := String

def normalizePath (path : SourcePath) : SourcePath :=
  if path.toList.head? = some '/' then path else "/" ++ path

/-- `media::MediaInfo`. -/
structure MediaInfo (σ : Type) where
  streams : List σ
  deriving DecidableEq

def MediaInfo.fromStreamInfo {σ : Type} (streamInfo : σ) : MediaInfo σ := ⟨[streamInfo]⟩

namespace Source

def maxQueuedInfo : Nat := 16

/-- `SourceControlMessage`. -/
inductive ControlMessage where
  | streamInfo
  deriving DecidableEq

/-- The next statement of the worker. -/
inductive WorkerPc where
  /-- `spawn` returned `Task::none` and dropped the future. -/
  | refused
  /-- Not polled yet. -/
  | spawned
  /-- The `select!` of `Source::run`. -/
  | select
  /-- `state_tx.send(SourceState::Stopped(path))`. -/
  | left
  /-- The notice is sent. -/
  | ended
  /-- The future has finished, and all that it owned is dropped. -/
  | finished
  deriving DecidableEq

namespace WorkerPc

/-- The future exists. -/
def alive : WorkerPc → Bool
  | .spawned | .select | .left | .ended => true
  | .refused | .finished => false

/-- The worker is in its loop, or will be. -/
def running : WorkerPc → Bool
  | .spawned | .select => true
  | .refused | .left | .ended | .finished => false

/-- The `Stopped` message is sent. -/
def notified : WorkerPc → Bool
  | .ended | .finished => true
  | .refused | .spawned | .select | .left => false

end WorkerPc

/-- What is done with a `SourceDelegate`. -/
inductive DelegatePc where
  /-- `source.lock().await.delegate()` in `SourceManager::subscribe`. -/
  | subscribe
  /-- Nothing. -/
  | idle
  /-- `self.media_info_rx.recv().await` in `query_media_info`. -/
  | recv
  /-- Taken apart, or dropped. -/
  | dropped
  deriving DecidableEq

structure Delegate (σ : Type) where
  pc : DelegatePc
  /-- The position of `media_info_rx`. -/
  mediaInfoRx : Nat
  /-- What its `query_media_info` calls returned, newest first. -/
  answers : List (Option (MediaInfo σ))

/-- It owns a `control_tx`. -/
def Delegate.sender {σ : Type} (d : Delegate σ) : Bool := d.pc = .idle || d.pc = .recv

end Source

open Source (ControlMessage Delegate DelegatePc WorkerPc)

structure Source (σ : Type) where
  path : SourcePath
  streamInfo : σ
  control : List ControlMessage
  /-- The media info broadcast. -/
  mediaInfo : List (MediaInfo σ)
  worker : TaskState
  workerPc : WorkerPc
  /-- The manager or `register_and_start` owns the `Source`. -/
  owned : Bool
  delegates : List (Delegate σ)

namespace Source
variable {σ : Type}

/-- `Source::start`. -/
def start (path : SourcePath) (streamInfo : σ) (accepted : Bool) (stopAll : List Unit) :
    Source σ where
  path := normalizePath path
  streamInfo := streamInfo
  control := []
  mediaInfo := []
  worker := if accepted then .new (Broadcast.subscribe stopAll) else .none
  workerPc := if accepted then .spawned else .refused
  owned := true
  delegates := []

/-- The `Source` exists, and so do its `Task` and its ends of the channels. -/
def handle (s : Source σ) : Bool := s.owned || s.delegates.any fun d => d.pc = .subscribe

def setDelegate (s : Source σ) (c : Nat) (d : Delegate σ) : Source σ :=
  { s with delegates := s.delegates.set c d }

/-! ## The worker -/

def poll (s : Source σ) : Option (Source σ) :=
  if s.workerPc = .spawned then some { s with workerPc := .select } else none

/-- `control_rx.recv()`, and the branch that it takes. -/
def takeControl (s : Source σ) : Option (Source σ) :=
  match s.workerPc, s.control with
  | .select, .streamInfo :: control =>
      some { s with control, mediaInfo := s.mediaInfo ++ [.fromStreamInfo s.streamInfo] }
  | .select, [] =>
      if s.handle || s.delegates.any Delegate.sender then none else some { s with workerPc := .left }
  | _, _ => none

def waitForStop (s : Source σ) (stopAll : List Unit) (src : StopSource) : Option (Source σ) :=
  if s.workerPc = .select then
    (s.worker.waitForStop s.handle stopAll src).map fun worker => { s with worker, workerPc := .left }
  else none

def exit (s : Source σ) : Option (Source σ) :=
  if s.workerPc = .left then some { s with workerPc := .ended } else none

def finish (s : Source σ) : Option (Source σ) :=
  if s.workerPc = .ended then
    some { s with worker := s.worker.dropContext, workerPc := .finished }
  else none

/-! ## The delegates -/

/-- `SourceManager::subscribe` has found the source. -/
def subscribe (s : Source σ) : Source σ :=
  { s with delegates := s.delegates ++ [{ pc := .subscribe, mediaInfoRx := 0, answers := [] }] }

/-- `Source::delegate`. -/
def delegate (s : Source σ) (c : Nat) (d : Delegate σ) : Option (Source σ) :=
  if d.pc = .subscribe then
    some (s.setDelegate c { d with pc := .idle, mediaInfoRx := Broadcast.subscribe s.mediaInfo })
  else none

/-- A new call of `query_media_info`, up to its `await`. -/
def query (s : Source σ) (c : Nat) (d : Delegate σ) : Option (Source σ) :=
  if d.pc = .idle then
    if s.workerPc.alive then
      some ({ s with control := s.control ++ [ControlMessage.streamInfo] }.setDelegate c { d with pc := .recv })
    else some (s.setDelegate c { d with answers := none :: d.answers })
  else none

/-- `media_info_rx.recv()` completes. It yields an error when answers were missed, or
when there are none and no sender is left. -/
def recv (s : Source σ) (c : Nat) (d : Delegate σ) : Option (Source σ) :=
  if d.pc = .recv then
    match Broadcast.recv maxQueuedInfo s.mediaInfo d.mediaInfoRx with
    | some (.value mediaInfo, mediaInfoRx) =>
        let answers := some mediaInfo :: d.answers
        some (s.setDelegate c { pc := .idle, mediaInfoRx, answers })
    | some (.lagged _, mediaInfoRx) =>
        some (s.setDelegate c { pc := .idle, mediaInfoRx, answers := none :: d.answers })
    | none =>
        if s.handle || s.workerPc.alive then none
        else some (s.setDelegate c { d with pc := .idle, answers := none :: d.answers })
  else none

/-- `into_parts`, or the future that owns the delegate is dropped. -/
def drop (s : Source σ) (c : Nat) (d : Delegate σ) : Option (Source σ) :=
  if d.pc = .dropped then none else some (s.setDelegate c { d with pc := .dropped })

/-! ## The system -/

/-- The steps of the worker and of the delegates. -/
inductive Action where
  | poll
  | takeControl
  | waitForStop (src : StopSource)
  | exit
  | finish
  | delegate (c : Nat)
  | query (c : Nat)
  | recv (c : Nat)
  | drop (c : Nat)

def step (s : Source σ) (stopAll : List Unit) : Action → Option (Source σ)
  | .poll => s.poll
  | .takeControl => s.takeControl
  | .waitForStop src => s.waitForStop stopAll src
  | .exit => s.exit
  | .finish => s.finish
  | .delegate c => s.delegates[c]?.bind (s.delegate c)
  | .query c => s.delegates[c]?.bind (s.query c)
  | .recv c => s.delegates[c]?.bind (s.recv c)
  | .drop c => s.delegates[c]?.bind (s.drop c)

end Source

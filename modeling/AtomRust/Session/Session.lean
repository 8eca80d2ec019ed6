-- SUMMARY: One `Session`: its worker task, its channels, and any number of `play` and `teardown` calls on it.
import AtomRust.Base.Transition
import AtomRust.Base.Broadcast
import AtomRust.Runtime.Task
import AtomRust.Session.Worker

/-!
# Sessions

A `Session` is what the tasks around one session share: the worker that
`Session::run` describes, the callers that have found the session in the
session manager's map and lock it one after the other, and the channels between
them. One action lets one of them take its next step.

The fields from `askers` on are ghosts. A control message carries the call that
sent it, and `log` records, newest first, what happened to requests, stream
states and media. No step reads them.
-/

open Media (RtpBuf StreamState Video)
open Runtime (StopSource TaskState)

namespace Session

/-- `rtsp::NptTime`. Of a time, `is_range_supported` asks only whether it is
`<= 0.0`. -/
inductive NptTime where
  | now
  | time (atMostZero : Bool)
  deriving DecidableEq

/-- `rtsp::Range`. -/
structure Range where
  start : Option NptTime
  end_ : Option NptTime
  deriving DecidableEq

/-- `Session::is_range_supported`. -/
def isRangeSupported (range : Range) : Bool :=
  match range.start, range.end_ with
  | some .now, none => true
  | some (.time atMostZero), none => atMostZero
  | _, _ => false

inductive PlaySessionError where
  | rangeNotSupported
  | controlBroken
  deriving DecidableEq

/-- What a call does with the session it found. -/
inductive Request where
  | play (range : Option Range)
  | teardown
  deriving DecidableEq

/-- What a call returns: `Some` of the result of `Session::play`, or `true`. -/
inductive Outcome where
  | played (streamState : StreamState)
  | failed (error : PlaySessionError)
  | tornDown
  deriving DecidableEq

/-- The next statement of a `SessionManager::play` or `SessionManager::teardown`
call that has found the session. -/
inductive CallPc where
  /-- `session.lock()`. -/
  | lock (request : Request)
  /-- `self.stream_state_tx.subscribe()`. -/
  | subscribe
  /-- `self.control_tx.send(SessionControlMessage::StreamState)`. -/
  | request (streamStateRx : Nat)
  /-- `stream_state_rx.recv()`. -/
  | recv (streamStateRx : Nat)
  /-- `self.control_tx.send(SessionControlMessage::Play)`. -/
  | sendPlay (streamState : StreamState)
  /-- `stop.send(())` in `Task::stop`. -/
  | stop
  /-- `self.hold.take()` in `Task::stop`. -/
  | takeHold
  /-- `hold.await` in `Task::stop`. -/
  | wait
  /-- The guard of the mutex and the `Arc` are dropped, and `outcome` returned. -/
  | ret (outcome : Outcome)
  | returned (outcome : Outcome)
  deriving DecidableEq

namespace CallPc

/-- The call owns an `Arc` of the session. -/
def active : CallPc → Bool
  | .returned _ => false
  | _ => true

/-- The call holds the guard of the session's mutex. -/
def locks : CallPc → Bool
  | .lock _ | .returned _ => false
  | _ => true

end CallPc

/-- Which transport `SessionSetupTarget` names. -/
inductive SessionSetupTarget where
  | rtpUdp
  | rtpTcp
  deriving DecidableEq

/-- What is left to do after the loop, in the order in which Rust drops the
parameters of an `async fn`. -/
inductive ExitStep where
  /-- `task_context` is dropped. -/
  | dropContext
  /-- `stream_state_tx` is dropped. -/
  | dropStreamStateTx
  /-- `control_rx` is dropped. -/
  | dropControlRx
  /-- `state_tx.send(SessionState::Stopped(id))`. -/
  | sendStopped
  deriving DecidableEq

/-- `run_tcp_interleaved` owns the context and the channels, and drops them
before `Session::run` goes on. -/
def tcpExit : List ExitStep := [.dropContext, .dropStreamStateTx, .dropControlRx, .sendStopped]

/-- With the other transport they stay with `Session::run`. -/
def udpExit : List ExitStep := [.sendStopped, .dropContext, .dropStreamStateTx, .dropControlRx]

/-- The life of the worker's task. -/
inductive Life where
  /-- `spawn` returned `Task::none` and dropped the future. -/
  | refused
  /-- Not polled yet. -/
  | spawned
  /-- In `run_tcp_interleaved`, up to the end of its loop. -/
  | running
  /-- Behind the loop, with `todo` left to do. -/
  | exiting (todo : List ExitStep)
  deriving DecidableEq

/-- An entry of the log. -/
inductive Occurrence where
  /-- Call `c` sent its `StreamState` message. -/
  | requested (c : Nat)
  /-- The worker took that message. -/
  | took (c : Nat)
  /-- The worker made `bufs` of a packet. -/
  | muxed (bufs : List RtpBuf)
  /-- The worker read its muxer for the requests of `askers`. -/
  | read (askers : List Nat) (streamState : StreamState)
  /-- The worker sent what it read. -/
  | replied (askers : List Nat) (streamState : StreamState)
  /-- Call `c` received it. -/
  | received (c : Nat) (streamState : StreamState)
  /-- Call `c` sent its `Play` message. -/
  | sentPlay (c : Nat)
  /-- The worker took that message. -/
  | tookPlay (c : Nat)
  /-- The worker got a new muxer. -/
  | reset
  /-- The connection's queue accepted `message`. -/
  | enqueued (message : RtpBuf)
  | returned (c : Nat) (outcome : Outcome)
  deriving DecidableEq

end Session

open Session (CallPc Event ExitStep Life Occurrence Outcome Range RecvError Request
  SessionControlMessage SessionMediaState SessionSetupTarget TrySendResult Worker)

structure Session (V : Video) where
  target : SessionSetupTarget
  /-- The map of the session manager, or the `setup` call before it, owns an
  `Arc` of the session. -/
  owner : Bool
  mutex : Option Nat
  calls : List CallPc
  task : TaskState
  /-- The stop broadcast of the runtime. -/
  stopAll : List Unit
  /-- The control channel. -/
  control : List (Nat × SessionControlMessage)
  /-- `control_rx` exists. -/
  controlRx : Bool
  /-- The stream-state broadcast. -/
  streamStates : List StreamState
  /-- The worker's clone of `stream_state_tx` exists. -/
  streamStateTx : Bool
  /-- The receiver of the connection's queue exists. -/
  mediaRx : Bool
  life : Life
  worker : Worker V
  /-- `SessionState::Stopped` has been sent. -/
  stopped : Bool
  /-- The calls whose requests the worker has taken and not answered. -/
  askers : List Nat
  log : List Occurrence

namespace Session
variable {V : Video}

/-- `Session::MAX_QUEUED_INFO`. -/
def maxQueuedInfo : Nat := 16

/-- `Session::setup_and_start`. The runtime accepts the worker, or has stopped
and does not. Spawning is one step here because the runtime's lock keeps the
subscription to its stop broadcast and the start of the task together. -/
def setupAndStart (target : SessionSetupTarget) (muxer : V.RtpMuxer) (accepted : Bool)
    (stopAll : List Unit) : Session V where
  target := target
  owner := true
  mutex := none
  calls := []
  task := if accepted then .new (Broadcast.subscribe stopAll) else .none
  stopAll := stopAll
  control := []
  controlRx := accepted
  streamStates := []
  streamStateTx := accepted
  mediaRx := true
  life := if accepted then .spawned else .refused
  worker := .start muxer
  stopped := false
  askers := []
  log := []

/-- Someone owns the `Session`, so its `Task` and its ends of the channels
exist. -/
def handle (s : Session V) : Bool := s.owner || s.calls.any CallPc.active

def note (s : Session V) (o : Occurrence) : Session V := { s with log := o :: s.log }

def setCall (s : Session V) (c : Nat) (pc : CallPc) : Session V :=
  { s with calls := s.calls.set c pc }

/-- Call `c` sends `message` on the control channel. -/
def send (s : Session V) (c : Nat) (message : SessionControlMessage) : Session V :=
  { s with control := s.control ++ [(c, message)] }

/-! ## The calls -/

/-- The first statement of `Session::play` or `Session::teardown`. -/
def enter : Request → CallPc
  | .play none => .subscribe
  | .play (some range) =>
      if isRangeSupported range then .subscribe else .ret (.failed .rangeNotSupported)
  | .teardown => .stop

/-- Call `c` goes on with what `stream_state_rx.recv()` finds. -/
def recv (s : Session V) (c : Nat) :
    Option (Broadcast.Received StreamState × Nat) → Option (Session V)
  | some (.value streamState, _) =>
      some ((s.note (.received c streamState)).setCall c (.sendPlay streamState))
  | some (.lagged _, _) => some (s.setCall c (.ret (.failed .controlBroken)))
  -- An empty channel is broken once every sender is gone.
  | none =>
      if s.streamStateTx || s.handle then none
      else some (s.setCall c (.ret (.failed .controlBroken)))

/-- Call `c`, which stands at `pc`, takes its next step. -/
def callStep (s : Session V) (c : Nat) : CallPc → Option (Session V)
  | .lock request =>
      if s.mutex = none then some ({ s with mutex := some c }.setCall c (enter request))
      else none
  | .subscribe => some (s.setCall c (.request (Broadcast.subscribe s.streamStates)))
  | .request streamStateRx =>
      if s.controlRx then
        some (((s.send c .streamState).note (.requested c)).setCall c (.recv streamStateRx))
      else some (s.setCall c (.ret (.failed .controlBroken)))
  | .recv streamStateRx =>
      s.recv c (Broadcast.recv maxQueuedInfo s.streamStates streamStateRx)
  | .sendPlay streamState =>
      if s.controlRx then
        some (((s.send c .play).note (.sentPlay c)).setCall c (.ret (.played streamState)))
      else some (s.setCall c (.ret (.failed .controlBroken)))
  | .stop => s.task.sendStop.map fun task => { s with task }.setCall c .takeHold
  | .takeHold =>
      let next := if s.task.hold then CallPc.wait else .ret .tornDown
      some ({ s with task := s.task.takeHold }.setCall c next)
  | .wait => if s.task.released then some (s.setCall c (.ret .tornDown)) else none
  | .ret outcome =>
      some (({ s with mutex := none }.note (.returned c outcome)).setCall c (.returned outcome))
  | .returned _ => none

/-! ## The worker -/

/-- The worker takes event `e` in its loop. -/
def event (s : Session V) (e : Event V) : Option (Session V) :=
  if s.life = .running then (s.worker.step e).map fun worker => { s with worker } else none

/-- The future is polled for the first time. -/
def poll (s : Session V) : Option (Session V) :=
  if s.life = .spawned then
    match s.target with
    | .rtpTcp => some { s with life := .running }
    | .rtpUdp => some { s with life := .exiting udpExit }
  else none

def reset (s : Session V) (r : Except RecvError (Option V.RtpMuxer)) : Option (Session V) :=
  (s.event (.reset r)).map fun s' =>
    match r with
    | .ok (some _) => s'.note .reset
    | _ => s'

/-- What muxing `packet` adds to the log. -/
def muxLog (s : Session V) (packet : V.Packet) : List Occurrence :=
  if s.worker.skips packet then []
  else
    let (muxer, bufs) := V.mux s.worker.muxer packet
    (if s.worker.needStreamState then [.read s.askers (V.streamState muxer)] else []) ++
      (bufs.map Occurrence.muxed).toList

def packet (s : Session V) (r : Except RecvError V.Packet) : Option (Session V) :=
  (s.event (.packet r)).map fun s' =>
    match r with
    | .ok packet => { s' with log := s.muxLog packet ++ s.log }
    | .error _ => s'

/-- `control_rx.recv()` yields the oldest message, or `None` when there is none
and `control_tx` is gone. -/
def takeControl (s : Session V) : Option (Session V) :=
  match s.control with
  | (c, .streamState) :: control =>
      (s.event (.control (some .streamState))).map fun s' =>
        { s' with control, askers := s.askers ++ [c] }.note (.took c)
  | (c, .play) :: control =>
      (s.event (.control (some .play))).map fun s' => { s' with control }.note (.tookPlay c)
  | [] => if s.handle then none else s.event (.control none)

def waitForStop (s : Session V) (src : StopSource) : Option (Session V) :=
  (s.task.waitForStop s.handle s.stopAll src).bind fun task =>
    (s.event .stop).map fun s' => { s' with task }

def reply (s : Session V) : Option (Session V) :=
  match s.worker.pc with
  | .reply streamState _ =>
      (s.event .reply).map fun s' =>
        { s' with streamStates := s.streamStates ++ [streamState], askers := [] }.note
          (.replied s.askers streamState)
  | _ => none

/-- A channel whose receiver is gone says `closed`, and no other does. -/
def trySend (s : Session V) (r : TrySendResult) : Option (Session V) :=
  if decide (r = .closed) = s.mediaRx then none
  else
    match s.worker.pc with
    | .send message _ =>
        (s.event (.trySend r)).map fun s' => if r = .ok then s'.note (.enqueued message) else s'
    | _ => none

/-- What the worker has left to do behind its loop. -/
def todo (s : Session V) : List ExitStep :=
  match s.life with
  | .running => if s.worker.pc = .left then tcpExit else []
  | .exiting todo => todo
  | .refused | .spawned => []

def exitStep (s : Session V) : ExitStep → Session V
  | .dropContext => { s with task := s.task.dropContext }
  | .dropStreamStateTx => { s with streamStateTx := false }
  -- The messages in the channel are dropped with its receiver.
  | .dropControlRx => { s with controlRx := false, control := [] }
  | .sendStopped => { s with stopped := true }

def exit (s : Session V) : Option (Session V) :=
  match s.todo with
  | [] => none
  | e :: todo => some { s.exitStep e with life := .exiting todo }

/-! ## The system -/

inductive Action (V : Video) where
  /-- A new call finds the session in the map. -/
  | find (request : Request)
  /-- The `Arc` of the map, or the `setup` call that failed, is dropped. -/
  | disown
  /-- Call `c` takes its next step. -/
  | call (c : Nat)
  | poll
  | reset (r : Except RecvError (Option V.RtpMuxer))
  | packet (r : Except RecvError V.Packet)
  | takeControl
  | waitForStop (src : StopSource)
  | reply
  | trySend (r : TrySendResult)
  | exit
  /-- The runtime sends a stop signal. -/
  | stopAll
  /-- The connection worker drops the receiver of its queue. -/
  | closeMedia

def step (s : Session V) : Action V → Option (Session V)
  | .find request => if s.owner then some { s with calls := s.calls ++ [.lock request] } else none
  | .disown => if s.owner then some { s with owner := false } else none
  | .call c => s.calls[c]?.bind (s.callStep c)
  | .poll => s.poll
  | .reset r => s.reset r
  | .packet r => s.packet r
  | .takeControl => s.takeControl
  | .waitForStop src => s.waitForStop src
  | .reply => s.reply
  | .trySend r => s.trySend r
  | .exit => s.exit
  | .stopAll => some { s with stopAll := s.stopAll ++ [()] }
  | .closeMedia => if s.mediaRx then some { s with mediaRx := false } else none

/-- The runs of a session. -/
def system (V : Video) : Transition.System (Session V) (Action V) where
  init s := ∃ target muxer accepted stopAll, s = setupAndStart target muxer accepted stopAll
  step := step

end Session

-- SUMMARY: The loop of a session's worker, `Session::run_tcp_interleaved`, one branch of its `select!` at a time.
import AtomRust.Media.Video

/-!
# The session worker

`Worker` holds the locals of `run_tcp_interleaved`, and `Event` is what happens
to the worker: which branch of its `select!` completes and with what, or the
outcome of a send that the branch makes. `step` is deterministic, so a run of
the loop is a list of events.

A branch is cut where it touches a channel that other tasks use. The packet
branch is therefore several steps long: it reads the packet and muxes it, sends
the stream state if one was asked for, and tries to send the messages of the
frame one by one.
-/

namespace Session
open Media (RtpBuf StreamState Video)

inductive SessionMediaState where
  | ready
  | playing
  deriving DecidableEq, Repr

inductive SessionControlMessage where
  | play
  | streamState
  deriving DecidableEq, Repr

/-- `broadcast::error::RecvError`. -/
inductive RecvError where
  | closed
  | lagged (skipped : Nat)

/-- What `target.sender.try_send` returns. -/
inductive TrySendResult where
  | ok
  | full
  | closed
  deriving DecidableEq, Repr

/-- Where the worker stands. -/
inductive Pc where
  /-- At the `select!`. -/
  | select
  /-- In the packet branch, about to send `streamState`; `packet` is what the
  muxer made of the packet. -/
  | reply (streamState : StreamState) (packet : Option (List RtpBuf))
  /-- In the `for` loop of the packet branch, about to send `message`. -/
  | send (message : RtpBuf) (rest : List RtpBuf)
  /-- The loop is left. -/
  | left
  deriving DecidableEq

structure Worker (V : Video) where
  muxer : V.RtpMuxer
  state : SessionMediaState
  needStreamState : Bool
  waitForKeyframe : Bool
  droppedFrames : Nat
  pc : Pc

inductive Event (V : Video) where
  /-- `source_reset_rx.recv()`: media info, from which a new muxer is built or
  not, or an error. -/
  | reset (r : Except RecvError (Option V.RtpMuxer))
  /-- `source_packet_rx.recv()`. -/
  | packet (r : Except RecvError V.Packet)
  /-- `control_rx.recv()`. -/
  | control (r : Option SessionControlMessage)
  /-- `task_context.wait_for_stop()`. -/
  | stop
  /-- `stream_state_tx.send(stream_state)`. -/
  | reply
  /-- `target.sender.try_send(message)`. -/
  | trySend (r : TrySendResult)

namespace Worker
variable {V : Video}

/-- The locals as the loop is entered. -/
def start (muxer : V.RtpMuxer) : Worker V where
  muxer := muxer
  state := .ready
  needStreamState := false
  waitForKeyframe := true
  droppedFrames := 0
  pc := .select

/-- `break` out of the loop. -/
def leave (w : Worker V) : Worker V := { w with pc := .left }

/-- The next round of the `for` loop over the messages of a frame. -/
def sendNext (w : Worker V) : List RtpBuf → Worker V
  | [] => { w with pc := .select }
  | message :: rest => { w with pc := .send message rest }

/-- The end of the packet branch, from `match packet` on. -/
def afterMux (w : Worker V) : Option (List RtpBuf) → Worker V
  | none => w.leave
  | some bufs => if w.state = .playing then w.sendNext bufs else { w with pc := .select }

/-- `muxer.mux(packet)` and what follows it. -/
def mux (w : Worker V) (packet : V.Packet) : Worker V :=
  let (muxer, bufs) := V.mux w.muxer packet
  let w := { w with muxer }
  if w.needStreamState then { w with pc := .reply (V.streamState muxer) bufs }
  else w.afterMux bufs

/-- The worker drops a packet while it waits for a keyframe. -/
def skips (w : Worker V) (packet : V.Packet) : Bool :=
  w.state = .playing && w.waitForKeyframe && !V.isKey packet

/-- Playing resumes on a keyframe. -/
def resume (w : Worker V) : Worker V :=
  if w.state = .playing && w.waitForKeyframe then
    { w with droppedFrames := 0, waitForKeyframe := false }
  else w

def onReset (w : Worker V) : Except RecvError (Option V.RtpMuxer) → Worker V
  | .ok (some muxer) => { w with muxer }
  | .ok none => w
  -- Lagging behind the resets counts as a broken source.
  | .error _ => w.leave

def onPacket (w : Worker V) : Except RecvError V.Packet → Worker V
  | .ok packet => if w.skips packet then w else w.resume.mux packet
  | .error (.lagged _) => { w with waitForKeyframe := true }
  | .error .closed => w.leave

def onControl (w : Worker V) : Option SessionControlMessage → Worker V
  | some .play => { w with state := .playing, waitForKeyframe := true }
  | some .streamState => { w with needStreamState := true }
  | none => w.leave

def onTrySend (w : Worker V) (rest : List RtpBuf) : TrySendResult → Worker V
  | .ok => w.sendNext rest
  | .full =>
      { w with droppedFrames := w.droppedFrames + 1, waitForKeyframe := true, pc := .select }
  | .closed => w.leave

def step (w : Worker V) (e : Event V) : Option (Worker V) :=
  match w.pc, e with
  | .select, .reset r => some (w.onReset r)
  | .select, .packet r => some (w.onPacket r)
  | .select, .control r => some (w.onControl r)
  | .select, .stop => some w.leave
  | .reply _ packet, .reply => some ({ w with needStreamState := false }.afterMux packet)
  | .send _ rest, .trySend r => some (w.onTrySend rest r)
  | _, _ => none

/-! ## What a step does -/

theorem step_reset {w w' : Worker V} {r : Except RecvError (Option V.RtpMuxer)} :
    w.step (.reset r) = some w' ↔ w.pc = .select ∧ w' = w.onReset r := by
  cases hpc : w.pc <;> simp [step, hpc, eq_comm]

theorem step_packet {w w' : Worker V} {r : Except RecvError V.Packet} :
    w.step (.packet r) = some w' ↔ w.pc = .select ∧ w' = w.onPacket r := by
  cases hpc : w.pc <;> simp [step, hpc, eq_comm]

theorem step_control {w w' : Worker V} {r : Option SessionControlMessage} :
    w.step (.control r) = some w' ↔ w.pc = .select ∧ w' = w.onControl r := by
  cases hpc : w.pc <;> simp [step, hpc, eq_comm]

theorem step_stop {w w' : Worker V} :
    w.step .stop = some w' ↔ w.pc = .select ∧ w' = w.leave := by
  cases hpc : w.pc <;> simp [step, hpc, eq_comm]

theorem step_reply {w w' : Worker V} :
    w.step .reply = some w' ↔
      ∃ s packet, w.pc = .reply s packet ∧
        w' = { w with needStreamState := false }.afterMux packet := by
  cases hpc : w.pc <;> simp [step, hpc, eq_comm, and_assoc]

theorem step_trySend {w w' : Worker V} {r : TrySendResult} :
    w.step (.trySend r) = some w' ↔
      ∃ message rest, w.pc = .send message rest ∧ w' = w.onTrySend rest r := by
  cases hpc : w.pc <;> simp [step, hpc, eq_comm, and_assoc]

@[simp] theorem leave_pc (w : Worker V) : w.leave.pc = .left := rfl

@[simp] theorem sendNext_state (w : Worker V) (bufs : List RtpBuf) :
    (w.sendNext bufs).state = w.state := by cases bufs <;> rfl

@[simp] theorem sendNext_wait (w : Worker V) (bufs : List RtpBuf) :
    (w.sendNext bufs).waitForKeyframe = w.waitForKeyframe := by cases bufs <;> rfl

@[simp] theorem afterMux_state (w : Worker V) (bufs : Option (List RtpBuf)) :
    (w.afterMux bufs).state = w.state := by
  cases bufs with
  | none => rfl
  | some bufs => simp only [afterMux]; split <;> simp

@[simp] theorem afterMux_wait (w : Worker V) (bufs : Option (List RtpBuf)) :
    (w.afterMux bufs).waitForKeyframe = w.waitForKeyframe := by
  cases bufs with
  | none => rfl
  | some bufs => simp only [afterMux]; split <;> simp

@[simp] theorem mux_state (w : Worker V) (packet : V.Packet) : (w.mux packet).state = w.state := by
  unfold mux; dsimp only; split <;> simp

@[simp] theorem mux_wait (w : Worker V) (packet : V.Packet) :
    (w.mux packet).waitForKeyframe = w.waitForKeyframe := by
  unfold mux; dsimp only; split <;> simp

@[simp] theorem resume_state (w : Worker V) : w.resume.state = w.state := by
  unfold resume; split <;> rfl

@[simp] theorem resume_muxer (w : Worker V) : w.resume.muxer = w.muxer := by
  unfold resume; split <;> rfl

@[simp] theorem resume_need (w : Worker V) : w.resume.needStreamState = w.needStreamState := by
  unfold resume; split <;> rfl

@[simp] theorem sendNext_need (w : Worker V) (bufs : List RtpBuf) :
    (w.sendNext bufs).needStreamState = w.needStreamState := by cases bufs <;> rfl

@[simp] theorem afterMux_need (w : Worker V) (bufs : Option (List RtpBuf)) :
    (w.afterMux bufs).needStreamState = w.needStreamState := by
  cases bufs with
  | none => rfl
  | some bufs => simp only [afterMux]; split <;> simp

@[simp] theorem mux_need (w : Worker V) (packet : V.Packet) :
    (w.mux packet).needStreamState = w.needStreamState := by
  unfold mux; dsimp only; split <;> simp

@[simp] theorem onPacket_need (w : Worker V) (r : Except RecvError V.Packet) :
    (w.onPacket r).needStreamState = w.needStreamState := by
  match r with
  | .ok packet => simp only [onPacket]; split <;> simp
  | .error (.lagged _) => rfl
  | .error .closed => rfl

@[simp] theorem onTrySend_need (w : Worker V) (rest : List RtpBuf) (r : TrySendResult) :
    (w.onTrySend rest r).needStreamState = w.needStreamState := by
  cases r <;> simp [onTrySend, leave]

theorem sendNext_pc (w : Worker V) (bufs : List RtpBuf) (st : StreamState)
    (packet : Option (List RtpBuf)) : (w.sendNext bufs).pc ≠ .reply st packet := by
  cases bufs <;> simp [sendNext]

theorem afterMux_pc (w : Worker V) (bufs : Option (List RtpBuf)) (st : StreamState)
    (packet : Option (List RtpBuf)) : (w.afterMux bufs).pc ≠ .reply st packet := by
  cases bufs with
  | none => simp [afterMux]
  | some bufs =>
      simp only [afterMux]
      split
      · exact sendNext_pc w bufs st packet
      · simp

/-- Which events end the loop. -/
def leaves (w : Worker V) : Event V → Bool
  | .reset (.error _) | .packet (.error .closed) | .control none | .stop | .trySend .closed => true
  | .packet (.ok packet) =>
      !w.skips packet && !w.needStreamState && (V.mux w.muxer packet).2.isNone
  | .reply =>
      match w.pc with
      | .reply _ packet => packet.isNone
      | _ => false
  | _ => false

theorem sendNext_left (w : Worker V) (bufs : List RtpBuf) : (w.sendNext bufs).pc ≠ .left := by
  cases bufs <;> simp [sendNext]

theorem afterMux_left (w : Worker V) (bufs : Option (List RtpBuf)) :
    (w.afterMux bufs).pc = .left ↔ bufs.isNone := by
  cases bufs with
  | none => simp [afterMux]
  | some bufs =>
      simp only [afterMux, Option.isNone_some, Bool.false_eq_true, iff_false]
      split
      · exact sendNext_left w bufs
      · simp

theorem step_left {w w' : Worker V} {e : Event V} (h : w.step e = some w') :
    w'.pc = .left ↔ w.leaves e := by
  match e with
  | .reset r =>
      obtain ⟨hpc, rfl⟩ := step_reset.mp h
      match r with
      | .ok (some _) | .ok none | .error _ => simp [onReset, leaves, hpc]
  | .packet (.ok packet) =>
      obtain ⟨hpc, rfl⟩ := step_packet.mp h
      simp only [onPacket, leaves]
      split
      next hskip => simp [hskip, hpc]
      next hskip =>
        unfold mux
        dsimp only
        simp only [resume_need, resume_muxer]
        split
        next hneed => simp [hneed]
        next hneed => simp [hskip, hneed, afterMux_left]
  | .packet (.error .closed) =>
      obtain ⟨-, rfl⟩ := step_packet.mp h
      simp [onPacket, leaves]
  | .packet (.error (.lagged _)) =>
      obtain ⟨hpc, rfl⟩ := step_packet.mp h
      simp [onPacket, leaves, hpc]
  | .control r =>
      obtain ⟨hpc, rfl⟩ := step_control.mp h
      match r with
      | some .play | some .streamState | none => simp [onControl, leaves, hpc]
  | .stop =>
      obtain ⟨-, rfl⟩ := step_stop.mp h
      simp [leaves]
  | .reply =>
      obtain ⟨st, packet, hpc, rfl⟩ := step_reply.mp h
      simp [leaves, hpc, afterMux_left]
  | .trySend r =>
      obtain ⟨message, rest, hpc, rfl⟩ := step_trySend.mp h
      cases r <;> simp [onTrySend, leaves, sendNext_left]

/-- A stream state is about to be sent only if one was asked for, and it is the
one that the muxer has after the packet. -/
theorem onPacket_reply {w : Worker V} {r : Except RecvError V.Packet} {st : StreamState}
    {bufs : Option (List RtpBuf)} (hpc : w.pc = .select) (h : (w.onPacket r).pc = .reply st bufs) :
    ∃ packet, r = .ok packet ∧ w.skips packet = false ∧ w.needStreamState = true ∧
      st = V.streamState (V.mux w.muxer packet).1 ∧ bufs = (V.mux w.muxer packet).2 := by
  match r with
  | .ok packet =>
      simp only [onPacket] at h
      split at h
      · simp [hpc] at h
      next hskip =>
        unfold mux at h
        dsimp only at h
        split at h
        next hneed =>
          simp only [Pc.reply.injEq, resume_muxer] at h
          exact ⟨packet, rfl, by simpa using hskip, by simpa using hneed, h.1.symm, h.2.symm⟩
        next => exact absurd h (afterMux_pc _ _ _ _)
  | .error (.lagged _) => simp [onPacket, hpc] at h
  | .error .closed => simp [onPacket] at h

/-- A worker that plays and has resumed does not wait for a keyframe. -/
theorem resume_wait {w : Worker V} (h : w.state = .playing) :
    w.resume.waitForKeyframe = false := by
  unfold resume
  split
  · rfl
  · simp_all

/-- In the Ready state there is nothing to resume. -/
theorem resume_of_ready {w : Worker V} (h : w.state = .ready) : w.resume = w := by
  simp [resume, h]

/-- Receiving from the source does not change the media state. -/
@[simp] theorem onPacket_state (w : Worker V) (r : Except RecvError V.Packet) :
    (w.onPacket r).state = w.state := by
  match r with
  | .ok packet => simp only [onPacket]; split <;> simp
  | .error (.lagged _) => rfl
  | .error .closed => rfl

end Worker

end Session

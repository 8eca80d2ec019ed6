-- SUMMARY: From the camera to the client: the packets of the encoder, the session's worker, the connection's queue and the connection's writer.
import AtomRust.App.Link
import AtomRust.Base.Broadcast
import AtomRust.Libcam.Timestamps
import AtomRust.Net.Roster
import AtomRust.Session.Keyframe

/-!
# Delivery

A packet goes from `callbackH264` through the packet channel to the session's worker,
which makes messages of it, and from there through the connection's queue to the
connection's worker, which hands them to the writer. Each of the four goes on when it
likes. Packets get lost in the channel, when the session falls behind, and messages at
the queue, when the client does.

The session is seen from the moment at which it subscribes to the packets. The camera and
the connection may have been running before, and other sessions may use the connection.
-/

open App (Interleaved SendInterleaved)
open Broadcast (Subscriber buffered)
open Media (RtpBuf StreamState Video)
open Session (Event Feed FeedAction Worker)

namespace Media

/-- The muxer of `video_rs` for the packets of the camera. -/
structure Muxer where
  RtpMuxer : Type
  mux : RtpMuxer → Packet → RtpMuxer × Option (List RtpBuf)
  seqAndTimestamp : RtpMuxer → UInt16 × UInt32

def Muxer.video (M : Muxer) : Video where
  Packet := Packet
  isKey packet := packet.isKey
  RtpMuxer := M.RtpMuxer
  mux := M.mux
  seqAndTimestamp := M.seqAndTimestamp

end Media

open Media (Muxer)

namespace Delivery

/-- `LibCamContext::MAX_QUEUED_PACKETS`. -/
def maxQueuedPackets : Nat := 30

/-- A message on the connection's queue, with a ghost for the packet and the RTP buffer
that the session made it of, unless it is another session's. -/
structure Parcel where
  message : Interleaved
  origin : Option (Nat × RtpBuf)

end Delivery

open Delivery (Parcel maxQueuedPackets)

structure Delivery (M : Muxer) (S F κ ρ : Type) where
  camera : LibCamCallback S F
  /-- A ghost: the frames that the camera's callback was called with. -/
  frames : List (H264Frame S)
  target : SendInterleaved
  packetRx : Subscriber Packet
  worker : Worker M.video
  conn : Connection Parcel κ ρ

namespace Delivery
variable {M : Muxer} {S F κ ρ : Type}

/-- The camera calls `callbackH264`. -/
def frame (s : Delivery M S F κ ρ) (f : H264Frame S) : Delivery M S F κ ρ :=
  { s with
    camera := (s.camera.callbackH264 I64.wrap f).run
    frames := s.frames ++ [f] }

/-- `source_packet_rx.recv()`. -/
def receive (s : Delivery M S F κ ρ) : Option (Delivery M S F κ ρ) :=
  match s.packetRx.recv (buffered maxQueuedPackets) s.camera.packetTx with
  | some (.value packet, packetRx) =>
      (s.worker.step (.packet (.ok packet))).map fun worker => { s with worker, packetRx }
  | some (.lagged skipped, packetRx) =>
      (s.worker.step (.packet (.error (.lagged skipped)))).map fun worker =>
        { s with worker, packetRx }
  | none => none

/-- The message that the worker makes of a buffer of the packet it received last. -/
def parcel (s : Delivery M S F κ ρ) (buf : RtpBuf) : Parcel where
  message := s.target.message buf
  origin := some (s.packetRx.cursor - 1, buf)

/-- The worker tries to send the message it stands at. -/
def trySend (s : Delivery M S F κ ρ) : Option (Delivery M S F κ ρ) :=
  (s.worker.step (.trySend s.conn.trySend)).map fun worker =>
    match s.worker.pc, s.conn.trySend with
    | .send buf _, .ok => { s with worker, conn := s.conn.enqueue (s.parcel buf) }
    | _, _ => { s with worker }

/-- What happens to the worker besides. -/
def ofWorker : Event M.video → Bool
  | .packet (.ok _) | .packet (.error (.lagged _)) | .trySend _ => false
  | _ => true

/-- What happens to the connection besides: the other sessions put messages on its
queue. -/
def ofConnection : Connection.Action Parcel κ ρ → Bool
  | .enqueue parcel => parcel.origin.isNone
  | _ => true

inductive Action (M : Muxer) (S κ ρ : Type) where
  | frame (f : H264Frame S)
  | receive
  | worker (e : Event M.video)
  | trySend
  | conn (a : Connection.Action Parcel κ ρ)

def step (s : Delivery M S F κ ρ) : Action M S κ ρ → Option (Delivery M S F κ ρ)
  | .frame f => some (s.frame f)
  | .receive => s.receive
  | .worker e => if ofWorker e then (s.worker.step e).map fun worker => { s with worker } else none
  | .trySend => s.trySend
  | .conn a => if ofConnection a then (s.conn.step a).map fun conn => { s with conn } else none

/-- The session has just subscribed. -/
structure Init (s : Delivery M S F κ ρ) : Prop where
  camera : ∃ framerate tflite nowH264 nowLowres, (s.frames.foldlM
    (LibCamCallback.callbackH264 I64.wrap) (.new framerate tflite nowH264 nowLowres)).run = s.camera
  packetRx : s.packetRx = .join s.camera.packetTx
  worker : ∃ muxer, s.worker = .start muxer
  conn : ∃ as, Transition.run Connection.step .start as = some s.conn ∧
    ∀ parcel ∈ Connection.accepted as, parcel.origin = none

/-- The runs of the four. -/
def system (M : Muxer) (S F κ ρ : Type) :
    Transition.System (Delivery M S F κ ρ) (Action M S κ ρ) where
  init := Init
  step := step

/-- The ways in which a step leads from `s` to `s'`. -/
inductive Effect (s s' : Delivery M S F κ ρ) : Action M S κ ρ → Prop where
  | called {f : H264Frame S} (h : s' = s.frame f) : Effect s s' (.frame f)
  | received {r : Broadcast.Received Packet} {packetRx : Subscriber Packet} {e : Event M.video}
      {worker : Worker M.video}
      (hrecv : s.packetRx.recv (buffered maxQueuedPackets) s.camera.packetTx = some (r, packetRx))
      (hworker : s.worker.step e = some worker) (h : s' = { s with worker, packetRx }) :
      Effect s s' .receive
  | worked {e : Event M.video} {worker : Worker M.video} (he : ofWorker e)
      (hworker : s.worker.step e = some worker) (h : s' = { s with worker }) :
      Effect s s' (.worker e)
  | tried {worker : Worker M.video} {conn : Connection Parcel κ ρ}
      (hworker : s.worker.step (.trySend s.conn.trySend) = some worker)
      (hconn : conn = s.conn ∨ ∃ parcel, s.conn.step (.enqueue parcel) = some conn)
      (h : s' = { s with worker, conn }) : Effect s s' .trySend
  | moved {a : Connection.Action Parcel κ ρ} {conn : Connection Parcel κ ρ} (ha : ofConnection a)
      (hconn : s.conn.step a = some conn) (h : s' = { s with conn }) : Effect s s' (.conn a)

theorem effect_of_step {s s' : Delivery M S F κ ρ} {a : Action M S κ ρ}
    (h : s.step a = some s') : Effect s s' a := by
  cases a with
  | frame f =>
      cases h
      exact .called rfl
  | receive =>
      simp only [step, receive] at h
      split at h
      next hrecv =>
        obtain ⟨worker, hworker, rfl⟩ := Option.map_eq_some_iff.mp h
        exact .received hrecv hworker rfl
      next hrecv =>
        obtain ⟨worker, hworker, rfl⟩ := Option.map_eq_some_iff.mp h
        exact .received hrecv hworker rfl
      next => cases h
  | worker e =>
      obtain ⟨he, h⟩ := Option.ite_none_right_eq_some.mp h
      obtain ⟨worker, hworker, rfl⟩ := Option.map_eq_some_iff.mp h
      exact .worked he hworker rfl
  | trySend =>
      obtain ⟨worker, hworker, rfl⟩ := Option.map_eq_some_iff.mp h
      split
      next hok => exact .tried hworker (.inr ⟨_, if_pos hok⟩) rfl
      next => exact .tried hworker (.inl rfl) rfl
  | conn a =>
      obtain ⟨ha, h⟩ := Option.ite_none_right_eq_some.mp h
      obtain ⟨conn, hconn, rfl⟩ := Option.map_eq_some_iff.mp h
      exact .moved ha hconn rfl

/-! ## The worker's feed -/

instance : Inhabited Packet := ⟨{ data := [], isKey := false, pts := 0, dts := 0, duration := 0 }⟩

/-- The source begins with these packets. -/
def Agrees (source : Nat → Packet) (packets : List Packet) : Prop :=
  ∀ i packet, packets[i]? = some packet → source i = packet

/-- The session's own messages, oldest first. -/
def own (parcels : List Parcel) : List (Nat × RtpBuf) := parcels.filterMap Parcel.origin

/-- The frame that an entry of the log is about. -/
def frame? : Session.Entry → Option Nat
  | .frame k _ => some k
  | .play => none

/-- The worker is fed by the source, and what it sends is what the queue accepts of the
session. -/
structure Feeds (source : Nat → Packet) (f : Feed M.video) (s : Delivery M S F κ ρ) : Prop where
  inv : Feed.Inv source f
  worker : f.worker = s.worker
  cursor : f.cursor = s.packetRx.cursor
  frames : f.log.filterMap frame? = (s.packetRx.read.map Prod.snd).reverse
  conn : ∃ as, Transition.run Connection.step .start as = some s.conn ∧
    own (Connection.accepted as) = f.sent ∧
    ∀ parcel ∈ Connection.accepted as, ∀ k buf, parcel.origin = some (k, buf) →
      parcel.message = s.target.message buf

variable {s s' : Delivery M S F κ ρ} {source : Nat → Packet} {f : Feed M.video}

theorem Agrees.of_append {packets packets' : List Packet}
    (h : Agrees source (packets ++ packets')) : Agrees source packets := by
  intro i packet hi
  refine h i packet ?_
  rwa [List.getElem?_append_left (List.getElem?_eq_some_iff.mp hi).1]

theorem filterMap_modifyHead {g : Session.Entry → Session.Entry}
    (hg : ∀ e, frame? (g e) = frame? e) (log : List Session.Entry) :
    (log.modifyHead g).filterMap frame? = log.filterMap frame? := by
  cases log with
  | nil => rfl
  | cons e log => simp only [List.modifyHead_cons, List.filterMap_cons, hg]

theorem frame?_enqueue (message : RtpBuf) (e : Session.Entry) :
    frame? (e.enqueue message) = frame? e := by
  unfold Session.Entry.enqueue
  split <;> rfl

theorem frame?_refuse (e : Session.Entry) : frame? e.refuse = frame? e := by
  unfold Session.Entry.refuse
  split <;> rfl

/-- What the other sessions put on the queue is not the session's. -/
theorem foreign {a : Connection.Action Parcel κ ρ} (ha : ofConnection a) :
    ∀ parcel ∈ a.accepts.toList, parcel.origin = none := by
  intro parcel hparcel
  cases a with
  | enqueue parcel' =>
      obtain rfl : parcel = parcel' := List.mem_singleton.mp hparcel
      exact Option.isNone_iff_eq_none.mp ha
  | _ => cases hparcel

theorem own_accepted_concat {a : Connection.Action Parcel κ ρ} (ha : ofConnection a)
    (as : List (Connection.Action Parcel κ ρ)) :
    own (Connection.accepted (as ++ [a])) = own (Connection.accepted as) := by
  have hnone : own a.accepts.toList = [] := List.filterMap_eq_nil_iff.mpr (foreign ha)
  rw [Connection.accepted_concat, own, List.filterMap_append]
  exact (congrArg _ hnone).trans (List.append_nil _)

theorem callbackH264_packetTx (c : LibCamCallback S F) (g : H264Frame S) :
    ∃ packets, (c.callbackH264 I64.wrap g).run.packetTx = c.packetTx ++ packets := by
  have hfind := LibCamCallback.findStream_packetTx { c with lastFrame := g.monoMillis } g
  have hsend : ∀ c' : LibCamCallback S F,
      ∃ packets, (c'.sendPacket I64.wrap g).run.packetTx = c'.packetTx ++ packets := by
    intro c'
    unfold LibCamCallback.sendPacket
    split
    · exact ⟨_, rfl⟩
    · exact ⟨[], (List.append_nil _).symm⟩
  obtain ⟨packets, hpackets⟩ := hsend (LibCamCallback.findStream { c with lastFrame := g.monoMillis } g)
  exact ⟨packets, hpackets.trans (by rw [hfind])⟩

theorem step_other (source : Nat → Packet) {e : Event M.video} {worker : Worker M.video}
    (he : ofWorker e) (h : f.worker.step e = some worker) :
    Feed.step source f (.other e) = some { f.note e with worker } := by
  cases e with
  | packet r =>
      cases r with
      | ok packet => cases he
      | error err =>
          cases err with
          | closed => simp only [Feed.step, h, Option.map_some]
          | lagged skipped => cases he
  | trySend r => cases he
  | reset | control | stop | reply => simp only [Feed.step, h, Option.map_some]

/-- Only a PLAY is recorded of them. -/
theorem note_other {e : Event M.video} (he : ofWorker e) (f : Feed M.video) :
    (f.note e).sent = f.sent ∧ (f.note e).cursor = f.cursor ∧
      (f.note e).log.filterMap frame? = f.log.filterMap frame? := by
  unfold Feed.note
  split
  · exact ⟨rfl, rfl, rfl⟩
  · cases he
  · cases he
  · exact ⟨rfl, rfl, rfl⟩

namespace Feeds

theorem receive (h : Feeds source f s) (hsource : Agrees source s.camera.packetTx)
    (hstep : s.receive = some s') : ∃ f', Feeds source f' s' := by
  unfold Delivery.receive at hstep
  split at hstep
  next packet packetRx hrecv =>
    obtain ⟨worker, hworker, rfl⟩ := Option.map_eq_some_iff.mp hstep
    obtain ⟨hat, hcursor, hread⟩ := Subscriber.of_recv_value hrecv
    have hpacket : source f.cursor = packet := hsource _ _ (h.cursor ▸ hat)
    have hfeed : Feed.step source f .receive = some { f with
        worker
        cursor := f.cursor + 1
        log := .frame f.cursor (f.worker.fate packet) :: f.log } := by
      simp only [Feed.step, hpacket, h.worker]
      exact congrArg (Option.map _) hworker
    refine ⟨_, h.inv.step hfeed, rfl, ?_, ?_, h.conn⟩
    · rw [hcursor, h.cursor]
    · rw [hread, List.filterMap_cons]
      simp [frame?, h.frames, h.cursor]
  next skipped packetRx hrecv =>
    obtain ⟨worker, hworker, rfl⟩ := Option.map_eq_some_iff.mp hstep
    obtain ⟨hpos, hcursor, hread⟩ := Subscriber.of_recv_lagged hrecv
    have hfeed : Feed.step source f (.lag skipped) =
        some { f with worker, cursor := f.cursor + skipped } := by
      simp only [Feed.step, if_pos hpos, h.worker]
      exact congrArg (Option.map _) hworker
    refine ⟨_, h.inv.step hfeed, rfl, ?_, ?_, h.conn⟩
    · rw [hcursor, h.cursor]
    · rw [hread]
      exact h.frames
  next => cases hstep

/-- An event that has nothing to do with packets and messages. -/
theorem other {e : Event M.video} {worker : Worker M.video} (h : Feeds source f s)
    (he : ofWorker e) (hworker : s.worker.step e = some worker) :
    ∃ f', Feeds source f' { s with worker } := by
  have hfeed := step_other source he (h.worker ▸ hworker)
  obtain ⟨hsent, hcursor, hframes⟩ := note_other he f
  obtain ⟨as, hrun, hown, hmessage⟩ := h.conn
  exact ⟨_, h.inv.step hfeed, rfl, hcursor.trans h.cursor, hframes.trans h.frames,
    as, hrun, hown.trans hsent.symm, hmessage⟩

theorem trySend (h : Feeds source f s) (hstep : s.trySend = some s') :
    ∃ f', Feeds source f' s' := by
  obtain ⟨worker, hworker, rfl⟩ := Option.map_eq_some_iff.mp hstep
  have hfeed : Feed.step source f (.other (.trySend s.conn.trySend)) =
      some { f.note (.trySend s.conn.trySend) with worker } := by
    simp only [Feed.step, h.worker, hworker, Option.map_some]
  have hinv := h.inv.step hfeed
  obtain ⟨buf, rest, hpc, -⟩ := Worker.step_trySend.mp hworker
  have hfpc : f.worker.pc = .send buf rest := h.worker ▸ hpc
  obtain ⟨as, hrun, hown, hmessage⟩ := h.conn
  cases hresult : s.conn.trySend with
  | ok =>
      have hnote : f.note (.trySend .ok) = { f with
          sent := f.sent ++ [(f.cursor - 1, buf)]
          log := f.log.modifyHead (.enqueue buf) } := by
        simp only [Feed.note, hfpc]
      rw [hresult, hnote] at hinv
      simp only [hpc]
      refine ⟨_, hinv, rfl, h.cursor, ?_, as ++ [.enqueue (s.parcel buf)], ?_, ?_, ?_⟩
      · exact (filterMap_modifyHead (frame?_enqueue buf) f.log).trans h.frames
      · exact Transition.run_concat_eq_some.mpr ⟨s.conn, hrun, if_pos hresult⟩
      · simp only [Connection.accepted_concat, own, List.filterMap_append]
        exact congrArg₂ (· ++ ·) hown (by simp [Connection.Action.accepts, parcel, h.cursor])
      · intro parcel hparcel k buf' horigin
        rw [Connection.accepted_concat, List.mem_append] at hparcel
        rcases hparcel with hparcel | hparcel
        · exact hmessage parcel hparcel k buf' horigin
        · obtain rfl : parcel = s.parcel buf := List.mem_singleton.mp hparcel
          cases horigin
          rfl
  | full | closed =>
      have hnote : f.note (.trySend s.conn.trySend) =
          { f with log := f.log.modifyHead .refuse } := by
        simp only [Feed.note, hfpc, hresult]
      rw [hnote] at hinv
      simp only [hpc]
      exact ⟨_, hinv, rfl, h.cursor,
        (filterMap_modifyHead frame?_refuse f.log).trans h.frames, as, hrun, hown, hmessage⟩

theorem onConn {a : Connection.Action Parcel κ ρ} {conn : Connection Parcel κ ρ}
    (h : Feeds source f s) (ha : ofConnection a) (hconn : s.conn.step a = some conn) :
    Feeds source f { s with conn } := by
  obtain ⟨as, hrun, hown, hmessage⟩ := h.conn
  refine ⟨h.inv, h.worker, h.cursor, h.frames, as ++ [a],
    Transition.run_concat_eq_some.mpr ⟨s.conn, hrun, hconn⟩,
    (own_accepted_concat ha as).trans hown, ?_⟩
  intro parcel hparcel k buf horigin
  rw [Connection.accepted_concat, List.mem_append] at hparcel
  rcases hparcel with hparcel | hparcel
  · exact hmessage parcel hparcel k buf horigin
  · simp [foreign ha parcel hparcel] at horigin

end Feeds

/-- What holds in every run. -/
structure Inv (s : Delivery M S F κ ρ) : Prop where
  camera : ∃ framerate tflite nowH264 nowLowres, (s.frames.foldlM
    (LibCamCallback.callbackH264 I64.wrap) (.new framerate tflite nowH264 nowLowres)).run = s.camera
  follows : s.packetRx.Follows (buffered maxQueuedPackets) s.camera.packetTx
  feeds : ∀ source, Agrees source s.camera.packetTx → ∃ f, Feeds source f s

namespace Inv

theorem init (h : Init s) : s.Inv := by
  obtain ⟨muxer, hworker⟩ := h.worker
  obtain ⟨as, hrun, hforeign⟩ := h.conn
  have hown : own (Connection.accepted as) = [] := List.filterMap_eq_nil_iff.mpr hforeign
  have hframes : s.packetRx.read = [] := by
    rw [h.packetRx]
    rfl
  refine ⟨h.camera, h.packetRx ▸ Subscriber.follows_join _ _, fun source _ =>
    ⟨Feed.start muxer s.packetRx.cursor, Feed.inv_start _ _, hworker.symm, rfl, ?_, as, hrun, hown,
      ?_⟩⟩
  · rw [hframes]
    rfl
  · intro parcel hparcel k buf horigin
    simp [hforeign parcel hparcel] at horigin

theorem step {a : Action M S κ ρ} (h : s.Inv) (hstep : s.step a = some s') : s'.Inv := by
  cases effect_of_step hstep with
  | @called f heq =>
      obtain ⟨packets, hpackets⟩ := callbackH264_packetTx s.camera f
      subst heq
      refine ⟨?_, ?_, fun source hsource => ?_⟩
      · obtain ⟨framerate, tflite, nowH264, nowLowres, hcamera⟩ := h.camera
        refine ⟨framerate, tflite, nowH264, nowLowres, ?_⟩
        simp only [Delivery.frame, List.foldlM_append, ← hcamera]
        rfl
      · simp only [Delivery.frame, hpackets]
        exact h.follows.send packets
      · simp only [Delivery.frame, hpackets] at hsource
        obtain ⟨f', hf'⟩ := h.feeds source hsource.of_append
        exact ⟨f', hf'.inv, hf'.worker, hf'.cursor, hf'.frames, hf'.conn⟩
  | received hrecv _ heq =>
      subst heq
      refine ⟨h.camera, h.follows.recv hrecv, fun source hsource => ?_⟩
      obtain ⟨f, hf⟩ := h.feeds source hsource
      exact hf.receive hsource hstep
  | worked he hworker heq =>
      subst heq
      refine ⟨h.camera, h.follows, fun source hsource => ?_⟩
      obtain ⟨f, hf⟩ := h.feeds source hsource
      exact hf.other he hworker
  | tried _ _ heq =>
      subst heq
      refine ⟨h.camera, h.follows, fun source hsource => ?_⟩
      obtain ⟨f, hf⟩ := h.feeds source hsource
      exact hf.trySend hstep
  | moved ha hconn heq =>
      subst heq
      refine ⟨h.camera, h.follows, fun source hsource => ?_⟩
      obtain ⟨f, hf⟩ := h.feeds source hsource
      exact ⟨f, hf.onConn ha hconn⟩

end Inv

theorem inv_of_reachable (h : (system M S F κ ρ).Reachable s) : s.Inv :=
  h.invariant (fun _ => Inv.init) fun _ _ _ _ hi => hi.step

/-! ## The packets of the frames -/

/-- A packet carries the bytes of its frame. -/
structure Carries (f : H264Frame S) (packet : Packet) : Prop where
  data : packet.data = f.bytes
  isKey : packet.isKey = f.keyframe

/-- What `callbackH264` sends of a frame. -/
theorem callbackH264_packet (c : LibCamCallback S F) (f : H264Frame S) :
    (c.callbackH264 I64.wrap f).run.h264.stream = (c.h264.stream || f.analyzed) ∧
      ∃ pts duration, (c.callbackH264 I64.wrap f).run.packetTx = c.packetTx ++
        if c.h264.stream || f.analyzed then [LibCamCallback.packet f pts duration] else [] := by
  have hh264 := LibCamCallback.findStream_h264 { c with lastFrame := f.monoMillis } f
  have hfind := LibCamCallback.findStream_packetTx { c with lastFrame := f.monoMillis } f
  unfold LibCamCallback.callbackH264 LibCamCallback.sendPacket
  rw [hh264]
  cases hstream : c.h264.stream || f.analyzed with
  | true => exact ⟨rfl, _, _, congrArg (· ++ _) hfind⟩
  | false =>
      refine ⟨?_, 0, 0, hfind.trans (List.append_nil _).symm⟩
      exact (congrArg H264State.stream hh264).trans hstream

/-- The callback sends a packet for each frame from the one on with which the stream is
known. -/
theorem packets_of_frames (framerate : UInt8) (tflite : Bool) (nowH264 nowLowres : ℕ)
    (fs : List (H264Frame S)) {c : LibCamCallback S F}
    (h : (fs.foldlM (LibCamCallback.callbackH264 I64.wrap)
      (.new framerate tflite nowH264 nowLowres)).run = c) :
    c.h264.stream = !(LibCamCallback.known fs).isEmpty ∧
      List.Forall₂ Carries (LibCamCallback.known fs) c.packetTx := by
  induction fs using List.reverseRecOn generalizing c with
  | nil =>
      subst h
      exact ⟨rfl, .nil⟩
  | append_singleton fs f ih =>
      obtain ⟨hstream, hpackets⟩ := ih rfl
      generalize hc : (fs.foldlM (LibCamCallback.callbackH264 I64.wrap)
        (.new framerate tflite nowH264 nowLowres)).run = c₀ at hstream hpackets
      have hrun : (c₀.callbackH264 I64.wrap f).run = c := by
        rw [← h, ← hc, List.foldlM_append]
        rfl
      subst hrun
      obtain ⟨hstream', pts, duration, hpackets'⟩ := callbackH264_packet c₀ f
      rw [hstream] at hstream' hpackets'
      rw [hstream', hpackets', LibCamCallback.known_concat]
      split
      next hknown =>
        exact ⟨hknown.trans (by simp), List.rel_append hpackets (.cons ⟨rfl, rfl⟩ .nil)⟩
      next hunknown =>
        obtain ⟨hnil, hf⟩ : LibCamCallback.known fs = [] ∧ f.analyzed = false := by
          simpa using hunknown
        refine ⟨by simp [hnil, hf], ?_⟩
        rwa [List.append_nil]

/-! ## What the client gets -/

/-- The session's messages that the connection's worker handed to the writer, oldest
first. -/
def onWire (s : Delivery M S F κ ρ) : List (Nat × RtpBuf) := own s.conn.media

/-- The packet number `i`. -/
def packet (s : Delivery M S F κ ρ) (i : Nat) : Packet := s.camera.packetTx.getD i default

/-- What the client gets of the session is a part of the camera's stream that it can
decode. -/
structure Delivers (s : Delivery M S F κ ρ) : Prop where
  /-- A message goes out on the session's channels, -/
  framed : ∀ parcel ∈ s.conn.media, ∀ k buf, parcel.origin = some (k, buf) →
    parcel.message = s.target.message buf
  /-- and carries a frame that the camera delivered after the session had joined. -/
  source : ∀ k buf, (k, buf) ∈ s.onWire → s.packetRx.joined ≤ k ∧
    ∃ f, (LibCamCallback.known s.frames)[k]? = some f ∧ Carries f (s.packet k)
  /-- The frames come in order, -/
  ordered : (s.onWire.map Prod.fst).Pairwise (· ≤ ·)
  /-- of each the first few of the messages that the muxer made of it, -/
  cut : ∀ k buf, (k, buf) ∈ s.onWire →
    ∃ muxer bufs, (M.mux muxer (s.packet k)).2 = some bufs ∧
      (s.onWire.filter (·.1 = k)).map Prod.snd <+: bufs
  /-- and a frame that is not a keyframe only right after all messages of the frames back
  to the last keyframe. -/
  decodable : ∀ k buf, (k, buf) ∈ s.onWire → (s.packet k).isKey = false →
    ∃ (bufs : Nat → List RtpBuf) (j : Nat) (before after : List (Nat × RtpBuf)),
      j < k ∧ (s.packet j).isKey = true ∧ (∀ i, j < i → i < k → (s.packet i).isKey = false) ∧
      (∀ i, j ≤ i → i < k → ∃ muxer, (M.mux muxer (s.packet i)).2 = some (bufs i)) ∧
      s.onWire = before ++ (List.range' j (k - j)).flatMap (fun i => (bufs i).map (i, ·)) ++ after ∧
      (∀ p ∈ before, p.1 < j) ∧ ∀ p ∈ after, k ≤ p.1
  /-- A packet that the session did not read is older than all that the channel keeps. -/
  passed : ∀ packet i, s.packetRx.joined ≤ i → i < s.packetRx.cursor →
    s.camera.packetTx[i]? = some packet → (packet, i) ∉ s.packetRx.read →
    i + buffered maxQueuedPackets < s.camera.packetTx.length

theorem agrees_packet (s : Delivery M S F κ ρ) : Agrees s.packet s.camera.packetTx := by
  intro i packet hi
  rw [Delivery.packet, List.getD_eq_getElem?_getD, hi]
  rfl

namespace Feeds

/-- The messages handed over are the first of those that were sent. -/
theorem onWire_prefix (h : Feeds source f s) : s.onWire <+: f.sent := by
  obtain ⟨as, hrun, hown, -⟩ := h.conn
  obtain ⟨lost, hmedia, -⟩ := (Connection.ledger_of_run hrun).media
  rw [← hown, hmedia, List.append_assoc, List.append_assoc]
  exact (List.prefix_append _ _).filterMap _

theorem framed (h : Feeds source f s) : ∀ parcel ∈ s.conn.media, ∀ k buf,
    parcel.origin = some (k, buf) → parcel.message = s.target.message buf := by
  obtain ⟨as, hrun, -, hmessage⟩ := h.conn
  obtain ⟨lost, hmedia, -⟩ := (Connection.ledger_of_run hrun).media
  intro parcel hparcel
  apply hmessage
  rw [hmedia, List.append_assoc, List.append_assoc]
  exact List.mem_append_left _ hparcel

/-- A frame in the log is a packet that was read. -/
theorem of_frame_mem (h : Feeds source f s) {k : Nat} {fate : Session.Fate}
    (hmem : .frame k fate ∈ f.log) : ∃ packet, (packet, k) ∈ s.packetRx.read := by
  have hk : k ∈ f.log.filterMap frame? := List.mem_filterMap.mpr ⟨_, hmem, rfl⟩
  rw [h.frames, List.mem_reverse] at hk
  obtain ⟨⟨packet, k'⟩, hread, rfl⟩ := List.mem_map.mp hk
  exact ⟨packet, hread⟩

theorem source_of_mem (h : Feeds source f s) {k : Nat} {buf : RtpBuf}
    (hmem : (k, buf) ∈ f.sent) : ∃ packet, (packet, k) ∈ s.packetRx.read := by
  rw [h.inv.sent] at hmem
  obtain ⟨messages, enqueued, refused, hframe, -⟩ := Session.mem_enqueuedOf.mp hmem
  exact h.of_frame_mem hframe

/-- What was made of a frame that was offered. -/
theorem muxed (h : Feeds source f s) {k : Nat} {messages enqueued : List RtpBuf} {refused : Bool}
    (hmem : .frame k (.offered messages enqueued refused) ∈ f.log) :
    ∃ muxer, (M.mux muxer (source k)).2 = some (Session.messagesOf f.log k) := by
  obtain ⟨newer, older, hlog⟩ := List.append_of_mem hmem
  have hbefore := h.inv.before
  have hgated := h.inv.gated
  rw [hlog] at hbefore hgated
  have hmessages : Session.messagesOf f.log k = messages := by
    rw [hlog, Session.messagesOf_append fun fate hfate => (hbefore.split.1 k fate hfate).ne rfl]
    simp [Session.messagesOf]
  rw [hmessages]
  exact hgated.split.1.2.1

end Feeds

/-- A prefix that reaches the frame `k` holds all that comes before. -/
theorem append_of_prefix {wire older newer : List (Nat × RtpBuf)} {k : Nat} {buf : RtpBuf}
    (h : wire <+: older ++ newer) (hmem : (k, buf) ∈ wire) (holder : ∀ p ∈ older, p.1 < k) :
    ∃ rest, rest <+: newer ∧ wire = older ++ rest := by
  rcases List.prefix_or_prefix_of_prefix h (List.prefix_append older newer) with hshort | hlong
  · exact absurd (holder _ (hshort.subset hmem)) (Nat.lt_irrefl k)
  · obtain ⟨rest, rfl⟩ := hlong
    exact ⟨rest, (List.prefix_append_right_inj older).mp h, rfl⟩

theorem Inv.source_of_read (h : s.Inv) {p : Packet} {k : Nat} (hmem : (p, k) ∈ s.packetRx.read) :
    s.packetRx.joined ≤ k ∧
      ∃ g, (LibCamCallback.known s.frames)[k]? = some g ∧ Carries g (s.packet k) := by
  obtain ⟨hle, -, hat⟩ := Broadcast.Followed.of_mem h.follows hmem
  obtain ⟨framerate, tflite, nowH264, nowLowres, hcamera⟩ := h.camera
  have hpackets := (packets_of_frames framerate tflite nowH264 nowLowres s.frames hcamera).2
  obtain ⟨hlt, -⟩ := List.getElem?_eq_some_iff.mp hat
  have hframes : k < (LibCamCallback.known s.frames).length := by rwa [hpackets.length_eq]
  refine ⟨hle, (LibCamCallback.known s.frames)[k], List.getElem?_eq_getElem hframes, ?_⟩
  have hpacket : s.packet k = s.camera.packetTx[k] := by
    rw [Delivery.packet, List.getD_eq_getElem?_getD, List.getElem?_eq_getElem hlt, Option.getD_some]
  rw [hpacket]
  exact List.forall₂_iff_get.mp hpackets |>.2 k hframes hlt

theorem Feeds.decodable (h : Feeds source f s) {k : Nat} {buf : RtpBuf}
    (hmem : (k, buf) ∈ s.onWire) (hkey : (source k).isKey = false) :
    ∃ (bufs : Nat → List RtpBuf) (j : Nat) (before after : List (Nat × RtpBuf)),
      j < k ∧ (source j).isKey = true ∧ (∀ i, j < i → i < k → (source i).isKey = false) ∧
      (∀ i, j ≤ i → i < k → ∃ muxer, (M.mux muxer (source i)).2 = some (bufs i)) ∧
      s.onWire = before ++ (List.range' j (k - j)).flatMap (fun i => (bufs i).map (i, ·)) ++ after ∧
      (∀ p ∈ before, p.1 < j) ∧ ∀ p ∈ after, k ≤ p.1 := by
  obtain ⟨j, before, part, after, ⟨hlt, hj, hbetween⟩, hall, hsent, hbefore, -, hafter⟩ :=
    h.inv.decodable (h.onWire_prefix.subset hmem) hkey
  have holder : ∀ p ∈ before ++ Session.messagesFrom f.log j k, p.1 < k := by
    intro p hp
    rcases List.mem_append.mp hp with hp | hp
    · exact (hbefore p hp).trans hlt
    · obtain ⟨i, hi, hp⟩ := List.mem_flatMap.mp hp
      obtain ⟨b, -, rfl⟩ := List.mem_map.mp hp
      have hrange := List.mem_range'_1.mp hi
      omega
  have hwire := h.onWire_prefix
  rw [hsent, List.append_assoc _ (part.map _)] at hwire
  obtain ⟨rest, hrest, heq⟩ := append_of_prefix hwire hmem holder
  refine ⟨Session.messagesOf f.log, j, before, rest, hlt, hj, hbetween, fun i h₁ h₂ => ?_, heq,
    hbefore, fun p hp => ?_⟩
  · obtain ⟨e, he, messages, rfl⟩ := hall i h₁ h₂
    exact h.muxed he
  · rcases List.mem_append.mp (hrest.subset hp) with hp | hp
    · obtain ⟨b, -, rfl⟩ := List.mem_map.mp hp
      exact Nat.le_refl k
    · exact (hafter p hp).le

/-- In every run of the four, what the client gets of the session is a part of the
camera's stream that it can decode. -/
theorem delivers_of_reachable (h : (system M S F κ ρ).Reachable s) : s.Delivers := by
  have hinv := inv_of_reachable h
  obtain ⟨f, hf⟩ := hinv.feeds s.packet s.agrees_packet
  have hsent : f.sent = Session.enqueuedOf f.log := hf.inv.sent
  refine
    { framed := hf.framed
      source := ?_
      ordered := ?_
      cut := ?_
      decodable := fun k buf hmem hkey => hf.decodable hmem hkey
      passed := hinv.follows.passed }
  · intro k buf hmem
    obtain ⟨p, hread⟩ := hf.source_of_mem (hf.onWire_prefix.subset hmem)
    exact hinv.source_of_read hread
  · have hsorted := hf.inv.before.sorted
    rw [← hsent] at hsorted
    exact hsorted.sublist (hf.onWire_prefix.map _).sublist
  · intro k buf hmem
    obtain ⟨muxer, hmux⟩ := hf.inv.muxed (hf.onWire_prefix.subset hmem)
    have hcut := hf.inv.gated.enqueuedOf_prefix hf.inv.before k
    rw [← hsent] at hcut
    exact ⟨muxer, _, hmux, ((hf.onWire_prefix.filter _).map _).trans hcut⟩

/-! ## A client that keeps up -/

/-- Nothing gets lost: the worker does not lag behind the packets, the queue takes what it
sends, and the client does not send another PLAY. -/
def KeepsUp (s : Delivery M S F κ ρ) : Action M S κ ρ → Prop
  | .receive => ∀ skipped packetRx,
      s.packetRx.recv (buffered maxQueuedPackets) s.camera.packetTx ≠
        some (.lagged skipped, packetRx)
  | .trySend => s.conn.trySend = .ok
  | .worker (.control (some .play)) => False
  | _ => True

/-- The session's messages that the queue accepted and that are not lost. -/
def enqueued (s : Delivery M S F κ ρ) : List (Nat × RtpBuf) :=
  own (s.conn.media ++ s.conn.pc.taking ++ s.conn.queue)

/-- What the worker has yet to send of packet `k`. -/
def outstanding (w : Worker M.video) (k : Nat) : List (Nat × RtpBuf) :=
  match w.pc with
  | .reply _ (some bufs) => bufs.map (k, ·)
  | .send buf rest => (buf :: rest).map (k, ·)
  | _ => []

/-- The messages of several packets. -/
def flatten (batches : List (Nat × List RtpBuf)) : List (Nat × RtpBuf) :=
  batches.flatMap fun b => b.2.map (b.1, ·)

/-- From packet `j` on, which is a keyframe and the first since `from`, everything up to
packet `n` was muxed. -/
structure Muxed (M : Muxer) (source : Nat → Packet) (first j n : Nat)
    (batches : List (Nat × List RtpBuf)) : Prop where
  le : first ≤ j
  le_cursor : j ≤ n
  waiting : ∀ i, first ≤ i → i < j → (source i).isKey = false
  key : j < n → (source j).isKey = true
  numbers : batches.map Prod.fst = List.range' j (n - j)
  muxed : ∀ b ∈ batches, ∃ muxer, (M.mux muxer (source b.1)).2 = some b.2

/-- The muxer has failed, or the loop is left. -/
def Stuck (w : Worker M.video) : Prop := w.pc = .left ∨ ∃ st, w.pc = .reply st none

/-- The state of a session that has sent everything since it received PLAY at packet
`first`, behind the messages `sent`. -/
structure Flows (source : Nat → Packet) (first : Nat) (sent : List (Nat × RtpBuf))
    (s : Delivery M S F κ ρ) : Prop where
  playing : s.worker.state = .playing
  flows : ∃ j batches as, Muxed M source first j s.packetRx.cursor batches ∧
    (s.worker.waitForKeyframe = true ↔ j = s.packetRx.cursor) ∧
    Transition.run Connection.step .start as = some s.conn ∧
    own (Connection.accepted as) ++ outstanding s.worker (s.packetRx.cursor - 1) =
      sent ++ flatten batches

namespace Muxed
variable {first j n : Nat} {batches : List (Nat × List RtpBuf)}

theorem skip (h : Muxed M source first n n batches) (hkey : (source n).isKey = false) :
    Muxed M source first (n + 1) (n + 1) batches where
  le := h.le.trans (Nat.le_succ n)
  le_cursor := Nat.le_refl _
  waiting := by
    intro i hle hlt
    rcases Nat.lt_succ_iff_lt_or_eq.mp hlt with hlt | rfl
    · exact h.waiting i hle hlt
    · exact hkey
  key := fun hlt => absurd hlt (Nat.lt_irrefl _)
  numbers := by simpa using h.numbers
  muxed := h.muxed

theorem next {bufs : List RtpBuf} {muxer : M.RtpMuxer} (h : Muxed M source first j n batches)
    (hkey : j = n → (source n).isKey = true) (hmux : (M.mux muxer (source n)).2 = some bufs) :
    Muxed M source first j (n + 1) (batches ++ [(n, bufs)]) where
  le := h.le
  le_cursor := h.le_cursor.trans (Nat.le_succ n)
  waiting := h.waiting
  key := by
    intro _
    rcases h.le_cursor.lt_or_eq with hlt | rfl
    · exact h.key hlt
    · exact hkey rfl
  numbers := by
    have hle := h.le_cursor
    rw [List.map_append, h.numbers, Nat.succ_sub hle, List.range'_1_concat, Nat.add_sub_cancel' hle]
    rfl
  muxed := by
    intro b hb
    rcases List.mem_append.mp hb with hb | hb
    · exact h.muxed b hb
    · obtain rfl := List.mem_singleton.mp hb
      exact ⟨muxer, hmux⟩

end Muxed

section Worker
variable {w : Worker M.video} {k : Nat}

theorem outstanding_of_select (h : w.pc = .select) : outstanding w k = [] := by
  simp [outstanding, h]

theorem outstanding_sendNext (w : Worker M.video) (bufs : List RtpBuf) (k : Nat) :
    outstanding (w.sendNext bufs) k = bufs.map (k, ·) := by
  cases bufs <;> rfl

theorem outstanding_mux {packet : Packet} {bufs : List RtpBuf} (hplay : w.state = .playing)
    (h : (M.mux w.muxer packet).2 = some bufs) :
    outstanding (w.mux packet) k = bufs.map (k, ·) := by
  have hmux : (M.video.mux w.muxer packet).2 = some bufs := h
  unfold Worker.mux
  simp only [hmux]
  split
  · rfl
  · simp only [Worker.afterMux, hplay, if_true]
    exact outstanding_sendNext _ _ _

theorem stuck_mux {packet : Packet} (h : (M.mux w.muxer packet).2 = none) :
    Stuck (w.mux packet) := by
  have hmux : (M.video.mux w.muxer packet).2 = none := h
  unfold Worker.mux
  simp only [hmux]
  split
  · exact .inr ⟨_, rfl⟩
  · exact .inl rfl

theorem Stuck.step {w' : Worker M.video} {e : Event M.video} (h : Stuck w)
    (hstep : w.step e = some w') : Stuck w' := by
  rcases h with hpc | ⟨st, hpc⟩
  · simp [Worker.step, hpc] at hstep
  · cases e with
    | reply =>
        obtain ⟨st', packet, hpc', rfl⟩ := Worker.step_reply.mp hstep
        cases hpc.symm.trans hpc'
        exact .inl rfl
    | _ => simp [Worker.step, hpc] at hstep

end Worker

/-- A worker that is stuck stays stuck. -/
theorem stuck_step {a : Action M S κ ρ} (h : Stuck s.worker) (hstep : s.step a = some s') :
    Stuck s'.worker := by
  cases effect_of_step hstep with
  | called heq | moved _ _ heq => exact heq ▸ h
  | received _ hworker heq | worked _ hworker heq | tried hworker _ heq =>
      exact heq ▸ h.step hworker

namespace Flows
variable {first : Nat} {sent : List (Nat × RtpBuf)}

/-- The worker is at the same place with the same flags. -/
theorem congr {worker : Worker M.video} (h : Flows source first sent s)
    (hstate : worker.state = s.worker.state)
    (hwait : worker.waitForKeyframe = s.worker.waitForKeyframe)
    (hout : ∀ k, outstanding worker k = outstanding s.worker k) :
    Flows source first sent { s with worker } := by
  obtain ⟨j, batches, as, hmuxed, hiff, hrun, hsent⟩ := h.flows
  refine ⟨hstate.trans h.playing, j, batches, as, hmuxed, ?_, hrun, ?_⟩
  · simpa [hwait] using hiff
  · simpa [hout] using hsent

/-- The worker receives packet `n`. -/
theorem onPacket {j n : Nat} {batches : List (Nat × List RtpBuf)} {w : Worker M.video}
    (hpc : w.pc = .select) (hplay : w.state = .playing)
    (hwait : w.waitForKeyframe = true ↔ j = n) (h : Muxed M source first j n batches) :
    Stuck (w.onPacket (.ok (source n))) ∨
      ∃ j' batches', Muxed M source first j' (n + 1) batches' ∧
        ((w.onPacket (.ok (source n))).waitForKeyframe = true ↔ j' = n + 1) ∧
        flatten batches' =
          flatten batches ++ outstanding (w.onPacket (.ok (source n))) n := by
  cases hskip : w.skips (source n) with
  | true =>
      have hsame : w.onPacket (.ok (source n)) = w := by simp [Worker.onPacket, hskip]
      simp only [Worker.skips, hplay, decide_true, Bool.true_and, Bool.and_eq_true,
        Bool.not_eq_true'] at hskip
      obtain ⟨hup, hkey⟩ := hskip
      obtain rfl := hwait.mp hup
      rw [hsame, outstanding_of_select hpc, List.append_nil]
      exact .inr ⟨j + 1, batches, h.skip hkey, by simp [hup], rfl⟩
  | false =>
      have heq : w.onPacket (.ok (source n)) = w.resume.mux (source n) := by
        simp [Worker.onPacket, hskip]
      have hkey : j = n → (source n).isKey = true := by
        intro hj
        simpa [Worker.skips, hplay, hwait.mpr hj, Muxer.video] using hskip
      rw [heq]
      cases hmux : (M.mux w.resume.muxer (source n)).2 with
      | none => exact .inl (stuck_mux hmux)
      | some bufs =>
          refine .inr ⟨j, batches ++ [(n, bufs)], h.next hkey hmux, ?_, ?_⟩
          · have hle := h.le_cursor
            have hdown : (w.resume.mux (source n)).waitForKeyframe = false :=
              (Worker.mux_wait _ _).trans (Worker.resume_wait hplay)
            rw [hdown]
            simp only [Bool.false_eq_true, false_iff]
            omega
          · rw [outstanding_mux ((Worker.resume_state w).trans hplay) hmux]
            simp [flatten]

theorem receive (h : Flows source first sent s) (hsource : Agrees source s.camera.packetTx)
    (hkeeps : s.KeepsUp (.receive : Action M S κ ρ)) (hstep : s.receive = some s') :
    Stuck s'.worker ∨ Flows source first sent s' := by
  obtain ⟨j, batches, as, hmuxed, hwait, hrun, hsent⟩ := h.flows
  unfold Delivery.receive at hstep
  split at hstep
  next packet packetRx hrecv =>
    obtain ⟨worker, hworker, rfl⟩ := Option.map_eq_some_iff.mp hstep
    obtain ⟨hat, hcursor, -⟩ := Subscriber.of_recv_value hrecv
    obtain ⟨hpc, rfl⟩ := Worker.step_packet.mp hworker
    obtain rfl : source s.packetRx.cursor = packet := hsource _ _ hat
    rw [outstanding_of_select hpc, List.append_nil] at hsent
    rcases onPacket hpc h.playing hwait hmuxed with hstuck | ⟨j', batches', hmuxed', hwait', heq⟩
    · exact .inl hstuck
    · refine .inr ⟨?_, j', batches', as, ?_, ?_, hrun, ?_⟩
      · exact (Worker.onPacket_state _ _).trans h.playing
      · simpa only [hcursor] using hmuxed'
      · simpa only [hcursor] using hwait'
      · simp only [hcursor, Nat.add_sub_cancel]
        rw [heq, hsent, List.append_assoc]
  next skipped packetRx hrecv => exact absurd hrecv (hkeeps skipped packetRx)
  next => cases hstep

theorem other {e : Event M.video} {worker : Worker M.video} (h : Flows source first sent s)
    (he : ofWorker e) (hplay : e ≠ .control (some .play))
    (hworker : s.worker.step e = some worker) :
    Stuck worker ∨ Flows source first sent { s with worker } := by
  match e, he with
  | .reset (.ok (some muxer)), _ =>
      obtain ⟨hpc, rfl⟩ := Worker.step_reset.mp hworker
      exact .inr (h.congr rfl rfl fun _ => rfl)
  | .reset (.ok none), _ =>
      obtain ⟨hpc, rfl⟩ := Worker.step_reset.mp hworker
      exact .inr h
  | .reset (.error _), _ =>
      obtain ⟨hpc, rfl⟩ := Worker.step_reset.mp hworker
      exact .inl (.inl rfl)
  | .packet (.error .closed), _ =>
      obtain ⟨hpc, rfl⟩ := Worker.step_packet.mp hworker
      exact .inl (.inl rfl)
  | .control (some .play), _ => exact absurd rfl hplay
  | .control (some .streamState), _ =>
      obtain ⟨hpc, rfl⟩ := Worker.step_control.mp hworker
      exact .inr (h.congr rfl rfl fun _ => rfl)
  | .control none, _ =>
      obtain ⟨hpc, rfl⟩ := Worker.step_control.mp hworker
      exact .inl (.inl rfl)
  | .stop, _ =>
      obtain ⟨hpc, rfl⟩ := Worker.step_stop.mp hworker
      exact .inl (.inl rfl)
  | .reply, _ =>
      obtain ⟨st, packet, hpc, rfl⟩ := Worker.step_reply.mp hworker
      cases packet with
      | none => exact .inl (.inl rfl)
      | some bufs =>
          refine .inr (h.congr (Worker.afterMux_state _ _) (Worker.afterMux_wait _ _) fun k => ?_)
          simp only [Worker.afterMux, h.playing, if_true]
          rw [outstanding_sendNext]
          simp [outstanding, hpc]

theorem trySend (h : Flows source first sent s) (hkeeps : s.conn.trySend = .ok)
    (hstep : s.trySend = some s') : Flows source first sent s' := by
  obtain ⟨worker, hworker, rfl⟩ := Option.map_eq_some_iff.mp hstep
  obtain ⟨buf, rest, hpc, rfl⟩ := Worker.step_trySend.mp hworker
  obtain ⟨j, batches, as, hmuxed, hwait, hrun, hsent⟩ := h.flows
  have henqueue : s.conn.step (.enqueue (s.parcel buf)) = some (s.conn.enqueue (s.parcel buf)) :=
    if_pos hkeeps
  simp only [hpc, hkeeps, Worker.onTrySend]
  refine ⟨(Worker.sendNext_state _ _).trans h.playing, j, batches,
    as ++ [.enqueue (s.parcel buf)], hmuxed, ?_,
    Transition.run_concat_eq_some.mpr ⟨s.conn, hrun, henqueue⟩, ?_⟩
  · simpa using hwait
  · have hout : outstanding s.worker (s.packetRx.cursor - 1) =
        (s.packetRx.cursor - 1, buf) :: rest.map (s.packetRx.cursor - 1, ·) := by
      simp [outstanding, hpc]
    rw [hout] at hsent
    rw [outstanding_sendNext, ← hsent, Connection.accepted_concat]
    simp [own, Connection.Action.accepts, parcel]

theorem onConn {a : Connection.Action Parcel κ ρ} {conn : Connection Parcel κ ρ}
    (h : Flows source first sent s) (ha : ofConnection a) (hconn : s.conn.step a = some conn) :
    Flows source first sent { s with conn } := by
  obtain ⟨j, batches, as, hmuxed, hwait, hrun, hsent⟩ := h.flows
  refine ⟨h.playing, j, batches, as ++ [a], hmuxed, hwait,
    Transition.run_concat_eq_some.mpr ⟨s.conn, hrun, hconn⟩, ?_⟩
  rw [own_accepted_concat ha]
  exact hsent

theorem step {a : Action M S κ ρ} (h : Flows source first sent s)
    (hsource : Agrees source s.camera.packetTx) (hkeeps : s.KeepsUp a)
    (hstep : s.step a = some s') : Stuck s'.worker ∨ Flows source first sent s' := by
  cases effect_of_step hstep with
  | called heq => exact .inr (heq ▸ ⟨h.playing, h.flows⟩)
  | received => exact h.receive hsource hkeeps hstep
  | worked he hworker heq =>
      subst heq
      refine h.other he ?_ hworker
      rintro rfl
      exact hkeeps
  | tried => exact .inr (h.trySend hkeeps hstep)
  | moved ha hconn heq => exact .inr (heq ▸ h.onConn ha hconn)

end Flows

/-- The camera only adds packets. -/
theorem packetTx_step {a : Action M S κ ρ} (hstep : s.step a = some s') :
    s.camera.packetTx <+: s'.camera.packetTx := by
  cases effect_of_step hstep with
  | @called f heq =>
      obtain ⟨packets, hpackets⟩ := callbackH264_packetTx s.camera f
      exact heq ▸ ⟨packets, hpackets.symm⟩
  | received _ _ heq | worked _ _ heq | tried _ _ heq | moved _ _ heq =>
      exact heq ▸ List.prefix_rfl

theorem packetTx_run {as : List (Action M S κ ρ)} (hrun : Transition.run step s as = some s') :
    s.camera.packetTx <+: s'.camera.packetTx :=
  Transition.run_invariant (I := fun t => s.camera.packetTx <+: t.camera.packetTx)
    (fun _ _ _ hprefix hstep => hprefix.trans (packetTx_step hstep)) hrun List.prefix_rfl

theorem flows_of_run {first : Nat} {sent : List (Nat × RtpBuf)} {as : List (Action M S κ ρ)}
    (h : Flows source first sent s) (hsource : Agrees source s'.camera.packetTx)
    (hkeeps : Transition.Always step s as KeepsUp)
    (hrun : Transition.run step s as = some s') :
    Stuck s'.worker ∨ Flows source first sent s' := by
  induction as generalizing s with
  | nil =>
      cases hrun
      exact .inr h
  | cons a as ih =>
      obtain ⟨hfirst, hrest⟩ := Transition.always_cons.mp hkeeps
      obtain ⟨t, hstep, ht⟩ := Transition.run_cons_eq_some.mp hrun
      obtain ⟨packets, hpackets⟩ := packetTx_run hrun
      rw [← hpackets] at hsource
      rcases h.step hsource.of_append hfirst hstep with hstuck | hflows
      · exact .inl (Transition.run_invariant (I := fun t => Stuck t.worker)
          (fun _ _ _ hstuck hstep => stuck_step hstuck hstep) ht hstuck)
      · exact ih hflows (hrest t hstep) ht

/-- A connection that has left its loop does not come back. -/
theorem departed_step {a : Action M S κ ρ} (h : s.conn.pc.departed) (hstep : s.step a = some s') :
    s'.conn.pc.departed := by
  cases effect_of_step hstep with
  | called heq | received _ _ heq | worked _ _ heq => exact heq ▸ h
  | tried _ hconn heq =>
      rcases hconn with rfl | ⟨parcel, hconn⟩
      · exact heq ▸ h
      · exact heq ▸ (Connection.over_step hconn h).1
  | moved _ hconn heq => exact heq ▸ (Connection.over_step hconn h).1

/-- A connection that is in its loop has lost nothing. -/
theorem enqueued_of_run {as : List (Connection.Action Parcel κ ρ)}
    (hrun : Transition.run Connection.step .start as = some s.conn)
    (hin : s.conn.pc.departed = false) : own (Connection.accepted as) = s.enqueued := by
  obtain ⟨lost, hmedia, hlost⟩ := (Connection.ledger_of_run hrun).media
  obtain rfl := hlost hin
  rw [hmedia, List.append_nil]
  rfl

/-- A client that keeps up from its PLAY on misses nothing: from the first keyframe on it
gets all messages of all packets. -/
theorem misses_nothing {as : List (Action M S κ ρ)} (h : (system M S F κ ρ).Reachable s)
    (hpc : s.worker.pc = .select) (hplay : s.worker.state = .playing)
    (hwait : s.worker.waitForKeyframe = true)
    (hrun : Transition.run step s as = some s') (hkeeps : Transition.Always step s as KeepsUp)
    (hend : s'.worker.pc = .select) (hconn : s'.conn.pc.departed = false) :
    ∃ j batches, Muxed M s'.packet s.packetRx.cursor j s'.packetRx.cursor batches ∧
      s'.enqueued = s.enqueued ++ flatten batches ∧
      (s'.conn.pc = .select → s'.conn.queue = [] → s'.onWire = s.enqueued ++ flatten batches) := by
  obtain ⟨f, hf⟩ := (inv_of_reachable h).feeds s.packet s.agrees_packet
  obtain ⟨bs, hbs, -⟩ := hf.conn
  have hin : s.conn.pc.departed = false := by
    by_contra hover
    have hover' := Transition.run_invariant (I := fun t => t.conn.pc.departed)
      (fun _ _ _ hover hstep => departed_step hover hstep) hrun (Bool.not_eq_false _ ▸ hover)
    rw [hconn] at hover'
    cases hover'
  have hflows : Flows s'.packet s.packetRx.cursor s.enqueued s := by
    refine ⟨hplay, s.packetRx.cursor, [], bs, ?_, by simp [hwait], hbs, ?_⟩
    · exact ⟨Nat.le_refl _, Nat.le_refl _, fun i hle hlt => absurd hlt (Nat.not_lt_of_le hle),
        fun hlt => absurd hlt (Nat.lt_irrefl _), by simp, nofun⟩
    · rw [outstanding_of_select hpc, enqueued_of_run hbs hin]
      rfl
  rcases flows_of_run hflows s'.agrees_packet hkeeps hrun with hstuck | hflows'
  · rcases hstuck with hleft | ⟨st, hreply⟩
    · cases hend.symm.trans hleft
    · cases hend.symm.trans hreply
  · obtain ⟨j, batches, cs, hmuxed, -, hcs, hsent⟩ := hflows'.flows
    rw [outstanding_of_select hend, List.append_nil, enqueued_of_run hcs hconn] at hsent
    refine ⟨j, batches, hmuxed, hsent, fun hselect hqueue => ?_⟩
    rw [← hsent, enqueued, hselect, hqueue]
    simp [onWire, Connection.Pc.taking]

/-! ## Two frames -/

/-- A muxer that puts every packet into one RTP packet. -/
def counting : Muxer where
  RtpMuxer := UInt16
  mux seq packet := (seq + 1, some [.rtp (Media.stamp seq ++ packet.data)])
  seqAndTimestamp seq := (seq, 0)

/-- A session that plays and a client, both with nothing left to do. -/
structure Idle (s : Delivery M S F κ ρ) : Prop where
  cursor : s.packetRx.cursor = s.camera.packetTx.length
  select : s.worker.pc = .select
  playing : s.worker.state = .playing
  need : s.worker.needStreamState = false
  conn : s.conn.pc = .select
  queue : s.conn.queue = []

/-- A frame goes from the camera to the writer. -/
def trip (f : H264Frame S) : List (Action M S κ ρ) :=
  [.frame f, .receive, .trySend, .conn .recv, .conn (.feed .ok), .conn .tryRecv,
    .conn (.flush .ok)]

theorem onPacket_counting {w : Worker counting.video} (hpc : w.pc = .select)
    (hplay : w.state = .playing) (hneed : w.needStreamState = false) (packet : Packet)
    (hkey : w.waitForKeyframe = true → packet.isKey = true) :
    ∃ droppedFrames, w.onPacket (.ok packet) =
      { muxer := (counting.mux w.muxer packet).1, state := .playing, needStreamState := false,
        waitForKeyframe := false, droppedFrames,
        pc := .send (.rtp (Media.stamp w.muxer ++ packet.data)) [] } := by
  have hskip : w.skips packet = false := by
    cases hwait : w.waitForKeyframe with
    | false => simp [Worker.skips, hwait]
    | true =>
        have hpacket : counting.video.isKey packet = true := hkey hwait
        simp [Worker.skips, hpacket]
  have heq : w.onPacket (.ok packet) = w.resume.mux packet := by
    simp [Worker.onPacket, hskip]
  obtain ⟨muxer, state, need, wait, dropped, pc⟩ := w
  cases hpc
  cases hplay
  cases hneed
  rw [heq]
  cases wait with
  | false => exact ⟨dropped, rfl⟩
  | true => exact ⟨0, rfl⟩

theorem run_trip {s : Delivery counting S F κ ρ} {f : H264Frame S} (h : s.Idle)
    (hf : f.analyzed = true) (hkey : s.worker.waitForKeyframe = true → f.keyframe = true) :
    ∃ s', (Transition.run step s (trip f) = some s' ∧ Transition.Always step s (trip f) KeepsUp) ∧
      s'.Idle ∧ s'.worker.waitForKeyframe = false ∧
      s'.packetRx.cursor = s.packetRx.cursor + 1 ∧
      (∀ packet, s'.worker.muxer = (counting.mux s.worker.muxer packet).1) ∧
      s'.onWire = s.onWire ++
        [(s.packetRx.cursor, .rtp (Media.stamp s.worker.muxer ++ f.bytes))] := by
  obtain ⟨camera, frames, target, packetRx, worker, ⟨queue, pc, wire⟩⟩ := s
  obtain ⟨hcursor, hselect, hplay, hneed, hpc, hqueue⟩ := h
  dsimp only at hcursor hselect hplay hneed hpc hqueue hkey
  subst hpc hqueue
  obtain ⟨-, pts, duration, hpackets⟩ := callbackH264_packet camera f
  rw [hf, Bool.or_true, if_pos rfl] at hpackets
  have hrecv := Subscriber.recv_next (Broadcast.buffered_pos maxQueuedPackets) hcursor
    (LibCamCallback.packet f pts duration)
  rw [← hpackets] at hrecv
  obtain ⟨dropped, honPacket⟩ := onPacket_counting hselect hplay hneed
    (LibCamCallback.packet f pts duration) hkey
  let s₁ : Delivery counting S F κ ρ :=
    frame ⟨camera, frames, target, packetRx, worker, ⟨[], .select, wire⟩⟩ f
  have hworker : s₁.worker.step (.packet (.ok (LibCamCallback.packet f pts duration))) =
      some (worker.onPacket (.ok (LibCamCallback.packet f pts duration))) :=
    Worker.step_packet.mpr ⟨hselect, rfl⟩
  have hreceive : s₁.receive = some { s₁ with
      packetRx := { packetRx with
        cursor := packetRx.cursor + 1
        read := packetRx.read ++ [(LibCamCallback.packet f pts duration, packetRx.cursor)] }
      worker := worker.onPacket (.ok (LibCamCallback.packet f pts duration)) } := by
    have hrecv : s₁.packetRx.recv (buffered maxQueuedPackets) s₁.camera.packetTx = _ := hrecv
    rw [receive, hrecv]
    simp only [hworker]
    rfl
  rw [honPacket] at hreceive
  refine ⟨_, Transition.always_run_cons rfl trivial (Transition.always_run_cons hreceive ?_
    (Transition.always_run_cons rfl rfl (Transition.always_run_cons rfl trivial
    (Transition.always_run_cons rfl trivial (Transition.always_run_cons rfl trivial
    (Transition.always_run_cons rfl trivial ⟨rfl, Transition.always_nil⟩)))))), ?_, rfl, rfl,
    fun _ => rfl, ?_⟩
  · intro skipped rx hlag
    cases hrecv.symm.trans hlag
  · have hlength : packetRx.cursor + 1 = (camera.callbackH264 I64.wrap f).run.packetTx.length := by
      simp [hpackets, hcursor]
    exact ⟨hlength, rfl, rfl, rfl, rfl, rfl⟩
  · have hwire : ∀ parcel : Parcel, own (Connection.media
        (⟨[], .select, .flushed :: .media parcel :: wire⟩ : Connection Parcel κ ρ)) =
        own (Connection.media (⟨[], .select, wire⟩ : Connection Parcel κ ρ)) ++
          parcel.origin.toList := by
      intro parcel
      cases horigin : parcel.origin <;>
        simp [own, Connection.media, Connection.written, Connection.Sent.media?, horigin]
    exact hwire _

/-- A session that joins before the first frame. -/
def joined : Delivery counting Unit Unit Unit Unit where
  camera := .new 30 true 0 0
  frames := []
  target := { rtpChannel := 0, rtcpChannel := 1 }
  packetRx := .join []
  worker := .start (0 : UInt16)
  conn := .start

theorem init_joined : Init joined where
  camera := ⟨30, true, 0, 0, rfl⟩
  packetRx := rfl
  worker := ⟨_, rfl⟩
  conn := ⟨[], rfl, nofun⟩

/-- A frame of one byte. -/
def small (byte : UInt8) (keyframe : Bool) : H264Frame Unit where
  bytes := [byte]
  timestampUs := 33333 * byte.toNat
  keyframe
  monoMillis := 0
  analyzed := true
  streamInfo := some ()
  clock := { timeToReport := 0, rate := 0, tick := 0, reset := 0 }

/-- The client sends PLAY and gets a keyframe and the frame behind it. -/
theorem exists_trips :
    ∃ s s' : Delivery counting Unit Unit Unit Unit,
      (system counting Unit Unit Unit Unit).Reachable s ∧ s.Idle ∧
      s.worker.waitForKeyframe = true ∧
      (Transition.run step s (trip (small 7 true) ++ trip (small 8 false)) = some s' ∧
        Transition.Always step s (trip (small 7 true) ++ trip (small 8 false)) KeepsUp) ∧
      s'.Idle ∧ s'.onWire =
        [(0, .rtp (Media.stamp 0 ++ [7])), (1, .rtp (Media.stamp 1 ++ [8]))] := by
  let s : Delivery counting Unit Unit Unit Unit :=
    { joined with worker := joined.worker.onControl (some .play) }
  have hreach : (system counting Unit Unit Unit Unit).Reachable s :=
    ⟨joined, [.worker (.control (some .play))], init_joined, rfl⟩
  have hidle : s.Idle := ⟨rfl, rfl, rfl, rfl, rfl, rfl⟩
  obtain ⟨t, hkey, hidle', hdown, hcursor, hmuxer, hwire⟩ :=
    run_trip (f := small 7 true) hidle rfl fun _ => rfl
  obtain ⟨s', hdelta, hidle'', -, -, -, hwire'⟩ := run_trip (f := small 8 false) hidle' rfl
    fun hup => by simp [hdown] at hup
  refine ⟨s, s', hreach, hidle, rfl, Transition.always_run_append hkey hdelta, hidle'', ?_⟩
  rw [hwire', hwire, hcursor, hmuxer default]
  rfl

/-- The second frame is one that the client can decode only with the first. -/
theorem delivers_of_reachable_trips :
    ∃ s : Delivery counting Unit Unit Unit Unit,
      (system counting Unit Unit Unit Unit).Reachable s ∧ s.onWire.length = 2 ∧ s.Delivers := by
  obtain ⟨s, s', hreach, -, -, ⟨hrun, -⟩, -, hwire⟩ := exists_trips
  have hreach' := hreach.run hrun
  exact ⟨s', hreach', by rw [hwire]; rfl, delivers_of_reachable hreach'⟩

theorem misses_nothing_trips :
    ∃ (s s' : Delivery counting Unit Unit Unit Unit) (j : Nat) (batches : List (Nat × List RtpBuf)),
      s'.onWire = [(0, .rtp (Media.stamp 0 ++ [7])), (1, .rtp (Media.stamp 1 ++ [8]))] ∧
      Muxed counting s'.packet s.packetRx.cursor j s'.packetRx.cursor batches ∧
      s'.enqueued = s.enqueued ++ flatten batches ∧
      (s'.conn.pc = .select → s'.conn.queue = [] → s'.onWire = s.enqueued ++ flatten batches) := by
  obtain ⟨s, s', hreach, hidle, hwait, ⟨hrun, hkeeps⟩, hidle', hwire⟩ := exists_trips
  obtain ⟨j, batches, hall⟩ := misses_nothing hreach hidle.select hidle.playing hwait hrun hkeeps
    hidle'.select (by rw [hidle'.conn]; rfl)
  exact ⟨s, s', j, batches, hwire, hall⟩

end Delivery

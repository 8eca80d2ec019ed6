-- SUMMARY: Keyframe gating: the worker reading a source frame by frame, and which frames reach the connection's queue.
import AtomRust.Base.Transition
import AtomRust.Session.FrameLog

/-!
# Keyframe gating

The source is a sequence of frames. A `Feed` is a session worker with its place
in that sequence and two records: `sent`, the messages its connection's queue
accepted, each with the number of its frame, and `log`, what became of each
frame that the worker received, with the PLAY messages it took in between.

A client can decode a frame that is not a keyframe only if it has the frame
before it, back to a keyframe. The gate holds because `wait_for_keyframe` is
down only while the last received frame is the last one of the source read so
far and has been enqueued completely.
-/

namespace Session
open Media (RtpBuf Video)

/-- What the worker is about to do with a packet. -/
def Worker.fate {V : Video} (w : Worker V) (packet : V.Packet) : Fate :=
  if w.skips packet then .skipped
  else
    match (V.mux w.muxer packet).2 with
    | none => .failed
    | some messages => if w.state = .playing then .offered messages [] false else .muxed

structure Feed (V : Video) where
  worker : Worker V
  /-- The frame of the source that is received next, unless the worker lags. -/
  cursor : Nat
  /-- The newest entry comes first. -/
  log : List Entry
  /-- The oldest message comes first. -/
  sent : List (Nat × RtpBuf)

inductive FeedAction (V : Video) where
  /-- The worker receives the frame at its place in the source. -/
  | receive
  /-- It gets `Lagged(skipped)` and goes on that many frames later. -/
  | lag (skipped : Nat)
  /-- Any other event of the worker. -/
  | other (e : Event V)

namespace Feed
variable {V : Video}

/-- A session that subscribes to the source at frame `cursor`. -/
def start (muxer : V.RtpMuxer) (cursor : Nat) : Feed V where
  worker := .start muxer
  cursor := cursor
  log := []
  sent := []

/-- Record the event `e`, which the worker is about to take. -/
def note (f : Feed V) (e : Event V) : Feed V :=
  match f.worker.pc, e with
  | _, .control (some .play) => { f with log := .play :: f.log }
  | .send message _, .trySend .ok =>
      { f with
        sent := f.sent ++ [(f.cursor - 1, message)]
        log := f.log.modifyHead (.enqueue message) }
  | .send _ _, .trySend _ => { f with log := f.log.modifyHead .refuse }
  | _, _ => f

def step (source : Nat → V.Packet) (f : Feed V) : FeedAction V → Option (Feed V)
  | .receive =>
      let packet := source f.cursor
      (f.worker.step (.packet (.ok packet))).map fun w =>
        { f with
          worker := w
          cursor := f.cursor + 1
          log := .frame f.cursor (f.worker.fate packet) :: f.log }
  | .lag skipped =>
      if 0 < skipped then
        (f.worker.step (.packet (.error (.lagged skipped)))).map fun w =>
          { f with worker := w, cursor := f.cursor + skipped }
      else none
  | .other (.packet (.ok _)) => none
  | .other (.packet (.error (.lagged _))) => none
  | .other e => (f.worker.step e).map fun w => { f.note e with worker := w }

/-- Frame `k` was received. -/
def Received (f : Feed V) (k : Nat) : Prop := ∃ fate, .frame k fate ∈ f.log

end Feed

/-! ## The invariant -/

/-- What the place of the worker in its loop says about its flags and about the
newest entry. -/
def At {V : Video} (w : Worker V) (cursor : Nat) (log : List Entry) : Prop :=
  match w.pc with
  | .select =>
      (∀ e ∈ log.head?, e.Settled) ∧
      (w.state = .playing → (w.waitForKeyframe = false ↔ Linked log cursor))
  | .reply _ packet =>
      (∀ e ∈ log.head?, w.state = .ready ∨ packet = none → e.Settled) ∧
      (w.state = .playing → ∀ messages, packet = some messages →
        w.waitForKeyframe = false ∧
        ∃ k older, cursor = k + 1 ∧ log = .frame k (.offered messages [] false) :: older)
  | .send message rest =>
      w.state = .playing ∧ w.waitForKeyframe = false ∧
      ∃ k enqueued older, cursor = k + 1 ∧
        log = .frame k (.offered (enqueued ++ message :: rest) enqueued false) :: older
  | .left => ∀ e ∈ log.head?, e.Settled

namespace Feed
variable {V : Video} {source : Nat → V.Packet}

structure Inv (source : Nat → V.Packet) (f : Feed V) : Prop where
  before : Before f.log f.cursor
  gated : Gated source f.log
  sent : f.sent = enqueuedOf f.log
  playing : f.worker.state = .playing ↔ .play ∈ f.log
  /-- In the Ready state the gate is down. -/
  ready : f.worker.state = .ready → f.worker.waitForKeyframe = true
  settled : ∀ e ∈ f.log.tail, e.Settled
  place : At f.worker f.cursor f.log

theorem inv_start (muxer : V.RtpMuxer) (cursor : Nat) : Inv source (start muxer cursor) := by
  refine ⟨trivial, trivial, rfl, ?_, fun _ => rfl, ?_, ?_⟩
  · simp [start, Worker.start]
  · simp [start]
  · simp [At, start, Worker.start, Linked]

end Feed

/-! ## The steps of the packet branch -/

section Branch
variable {V : Video} {w : Worker V} {cursor : Nat} {log : List Entry}

theorem At.sendNext {k : Nat} {rest : List RtpBuf} (enqueued : List RtpBuf) {older : List Entry}
    (hplay : w.state = .playing) (hwait : w.waitForKeyframe = false) (hk : cursor = k + 1)
    (hlog : log = .frame k (.offered (enqueued ++ rest) enqueued false) :: older) :
    At (w.sendNext rest) cursor log := by
  subst hk hlog
  cases rest with
  | nil =>
      simp only [At, Worker.sendNext, List.append_nil, List.head?_cons, Option.mem_def,
        Option.some.injEq, forall_eq', hwait, true_iff]
      exact ⟨.inl rfl, fun _ => .of_complete ⟨enqueued, rfl⟩⟩
  | cons message rest => exact ⟨hplay, hwait, k, enqueued, older, rfl, rfl⟩

theorem At.afterMux {bufs : Option (List RtpBuf)}
    (hhead : ∀ e ∈ log.head?, w.state = .ready ∨ bufs = none → e.Settled)
    (h : w.state = .playing → ∀ messages, bufs = some messages →
      w.waitForKeyframe = false ∧
      ∃ k older, cursor = k + 1 ∧ log = .frame k (.offered messages [] false) :: older) :
    At (w.afterMux bufs) cursor log := by
  cases bufs with
  | none => exact fun e he => hhead e he (.inr rfl)
  | some messages =>
      simp only [Worker.afterMux]
      split
      next hplay =>
        obtain ⟨hwait, k, older, hk, hlog⟩ := h hplay messages rfl
        exact At.sendNext [] hplay hwait hk hlog
      next hready =>
        have hr : w.state = .ready := by cases hs : w.state <;> simp_all
        exact ⟨fun e he => hhead e he (.inl hr), fun hplay => absurd hplay hready⟩

/-- The muxer is run on the frame at the head of the log. -/
theorem At.mux {packet : V.Packet}
    (hhead : ∀ e ∈ log.head?,
      w.state = .ready ∨ (V.mux w.muxer packet).2 = none → e.Settled)
    (h : w.state = .playing → ∀ messages, (V.mux w.muxer packet).2 = some messages →
      w.waitForKeyframe = false ∧
      ∃ k older, cursor = k + 1 ∧ log = .frame k (.offered messages [] false) :: older) :
    At (w.mux packet) cursor log := by
  unfold Worker.mux
  dsimp only
  split
  · exact ⟨hhead, h⟩
  · exact At.afterMux hhead h

end Branch

namespace Feed
variable {V : Video} {source : Nat → V.Packet} {f f' : Feed V}

/-- A step of the worker that is no part of a frame's way to the queue. -/
theorem Inv.all_settled (hi : Inv source f) (hpc : f.worker.pc = .select) :
    ∀ e ∈ f.log, e.Settled := by
  have hplace := hi.place
  simp only [At, hpc] at hplace
  intro e he
  cases hlog : f.log with
  | nil => simp [hlog] at he
  | cons e' log =>
      rw [hlog] at he
      rcases List.mem_cons.mp he with rfl | he
      · exact hplace.1 e (by simp [hlog])
      · exact hi.settled e (by simpa [hlog] using he)

/-- The fate of the next frame follows the rule. -/
theorem Inv.gate (hi : Inv source f) (hpc : f.worker.pc = .select) (packet : V.Packet)
    (hpacket : packet = source f.cursor) :
    Gate source f.log f.cursor (f.worker.fate packet) := by
  subst hpacket
  have hplace := hi.place
  simp only [At, hpc] at hplace
  -- While playing, a frame that is not skipped is a keyframe or follows a complete one.
  have hopen : f.worker.skips (source f.cursor) = false → f.worker.state = .playing →
      V.isKey (source f.cursor) = true ∨ Linked f.log f.cursor := by
    intro hskip hplay
    cases hwait : f.worker.waitForKeyframe with
    | false => exact .inr ((hplace.2 hplay).mp hwait)
    | true =>
        simp only [Worker.skips, hplay, hwait, decide_true, Bool.and_true, Bool.true_and,
          Bool.not_eq_false'] at hskip
        exact .inl hskip
  unfold Worker.fate
  split
  next hskip =>
    simp only [Worker.skips, Bool.and_eq_true, decide_eq_true_eq, Bool.not_eq_true'] at hskip
    obtain ⟨⟨hplay, hwait⟩, hkey⟩ := hskip
    refine ⟨hi.playing.mp hplay, hkey, fun hlink => ?_⟩
    have hdown := (hplace.2 hplay).mpr hlink
    simp [hwait] at hdown
  next hskip =>
    have hskip := Bool.not_eq_true _ ▸ hskip
    split
    next hmux => exact ⟨_, hmux⟩
    next messages hmux =>
      split
      next hplay =>
        exact ⟨hi.playing.mp hplay, ⟨_, hmux⟩, List.nil_prefix, hopen hskip hplay⟩
      next hready => exact fun hp => hready (hi.playing.mpr hp)

theorem Inv.receive (hi : Inv source f) (h : f.step source .receive = some f') :
    Inv source f' := by
  obtain ⟨w, hw, rfl⟩ := Option.map_eq_some_iff.mp h
  obtain ⟨hpc, rfl⟩ := Worker.step_packet.mp hw
  have hplace := hi.place
  simp only [At, hpc] at hplace
  refine ⟨⟨Nat.lt_succ_self _, hi.before⟩, ⟨hi.gate hpc _ rfl, hi.gated⟩, ?_, ?_, ?_,
    hi.all_settled hpc, ?_⟩
  · rw [hi.sent]
    unfold Worker.fate
    split
    · rfl
    · split
      · rfl
      · split <;> simp [enqueuedOf]
  · simpa using hi.playing
  · intro hr
    rw [Worker.onPacket_state] at hr
    have hskip : f.worker.skips (source f.cursor) = false := by simp [Worker.skips, hr]
    simpa [Worker.onPacket, hskip, Worker.resume_of_ready hr] using hi.ready hr
  · cases hskip : f.worker.skips (source f.cursor) with
    | true =>
        have hfate : f.worker.fate (source f.cursor) = .skipped := by simp [Worker.fate, hskip]
        have hsame : f.worker.onPacket (.ok (source f.cursor)) = f.worker := by
          simp [Worker.onPacket, hskip]
        have hwait : f.worker.waitForKeyframe = true := by
          simp only [Worker.skips, Bool.and_eq_true] at hskip
          exact hskip.1.2
        have hgap : ¬ Linked (.frame f.cursor .skipped :: f.log) (f.cursor + 1) :=
          not_linked_frame (by simp)
        simp only [At, hsame, hpc, hfate, hwait]
        exact ⟨by simp [Entry.Settled], fun _ => by simp [hgap]⟩
    | false =>
        rw [Worker.onPacket, hskip]
        refine At.mux (fun e he hr => ?_) (fun hplay messages hmux => ?_)
        · rw [Worker.resume_state, Worker.resume_muxer] at hr
          obtain rfl : .frame f.cursor (f.worker.fate (source f.cursor)) = e := by simpa using he
          rcases hr with hr | hmux
          · cases hmux : (V.mux f.worker.muxer (source f.cursor)).2 <;>
              simp [Worker.fate, hskip, hmux, hr, Entry.Settled]
          · simp [Worker.fate, hskip, hmux, Entry.Settled]
        · rw [Worker.resume_state] at hplay
          rw [Worker.resume_muxer] at hmux
          exact ⟨Worker.resume_wait hplay, f.cursor, f.log, rfl, by
            simp [Worker.fate, hskip, hmux, hplay]⟩

theorem Inv.lag {skipped : Nat} (hi : Inv source f) (h : f.step source (.lag skipped) = some f') :
    Inv source f' := by
  simp only [step] at h
  split at h
  next hpos =>
    obtain ⟨w, hw, rfl⟩ := Option.map_eq_some_iff.mp h
    obtain ⟨hpc, rfl⟩ := Worker.step_packet.mp hw
    have hplace := hi.place
    simp only [At, hpc] at hplace
    have hgap : ¬ Linked f.log (f.cursor + skipped) := hi.before.not_linked (by omega)
    refine { hi with
      before := hi.before.mono (Nat.le_add_right _ _), ready := fun _ => rfl, place := ?_ }
    simp only [Worker.onPacket, At, hpc]
    exact ⟨hplace.1, fun _ => by simp [hgap]⟩
  next => cases h

/-- Leaving the loop at the `select!` keeps the records. -/
theorem Inv.leave (hi : Inv source f) (hpc : f.worker.pc = .select) :
    Inv source { f with worker := f.worker.leave } :=
  { hi with place := fun e he => hi.all_settled hpc e (List.mem_of_mem_head? he) }

/-- A PLAY message closes the gate. -/
theorem Inv.play (hi : Inv source f) (hpc : f.worker.pc = .select) :
    Inv source { f with log := .play :: f.log, worker := f.worker.onControl (some .play) } where
  before := hi.before
  gated := hi.gated
  sent := hi.sent
  playing := by simp [Worker.onControl]
  ready := fun _ => rfl
  settled := hi.all_settled hpc
  place := by
    simp only [At, Worker.onControl, hpc]
    exact ⟨by simp [Entry.Settled], fun _ => by simp [not_linked_play]⟩

/-- The queue takes the next message of the frame. -/
theorem Inv.enqueued {message : RtpBuf} {rest : List RtpBuf} (hi : Inv source f)
    (hpc : f.worker.pc = .send message rest) :
    Inv source { f with
      worker := f.worker.sendNext rest
      log := f.log.modifyHead (.enqueue message)
      sent := f.sent ++ [(f.cursor - 1, message)] } := by
  have hplace := hi.place
  simp only [At, hpc] at hplace
  obtain ⟨hplay, hwait, k, enqueued, older, hk, hlog⟩ := hplace
  have hgated := hi.gated
  have hbefore := hi.before
  have hsent := hi.sent
  have hplaying := hi.playing
  have hsettled := hi.settled
  simp only [hlog, Gated, Before, enqueuedOf, List.tail_cons] at hgated hbefore hsent hsettled
  obtain ⟨⟨hp, hmux, -, hrule⟩, hgated⟩ := hgated
  simp only [hlog, List.modifyHead_cons, Entry.enqueue]
  refine ⟨hbefore, ⟨⟨hp, hmux, ⟨rest, by simp⟩, hrule⟩, hgated⟩, ?_, ?_, ?_, hsettled, ?_⟩
  · simp [enqueuedOf, hsent, hk]
  · simpa [hlog] using hplaying
  · simp [hplay]
  · refine At.sendNext (enqueued ++ [message]) hplay hwait hk (?_ : _ = _ :: older)
    simp

/-- The queue refuses the next message of the frame. -/
theorem Inv.refused {message : RtpBuf} {rest : List RtpBuf} {w : Worker V} (hi : Inv source f)
    (hpc : f.worker.pc = .send message rest) (hstate : w.state = f.worker.state)
    (hw : w.pc = .left ∨ w.pc = .select ∧ w.waitForKeyframe = true) :
    Inv source { f with worker := w, log := f.log.modifyHead .refuse } := by
  have hplace := hi.place
  simp only [At, hpc] at hplace
  obtain ⟨hplay, hwait, k, enqueued, older, hk, hlog⟩ := hplace
  have hgated := hi.gated
  have hbefore := hi.before
  have hsent := hi.sent
  have hplaying := hi.playing
  have hsettled := hi.settled
  simp only [hlog, Gated, Before, enqueuedOf, List.tail_cons] at hgated hbefore hsent hsettled
  simp only [hlog, List.modifyHead_cons, Entry.refuse]
  refine ⟨hbefore, hgated, hsent, ?_, ?_, hsettled, ?_⟩
  · simpa [hlog, hstate] using hplaying
  · simp [hstate, hplay]
  · rcases hw with hleft | ⟨hselect, hup⟩
    · simp [At, hleft, Entry.Settled]
    · simp only [At, hselect, hup]
      exact ⟨by simp [Entry.Settled], fun _ => by simp [not_linked_frame]⟩

theorem Inv.other {e : Event V} (hi : Inv source f)
    (h : f.step source (.other e) = some f') : Inv source f' := by
  match e with
  | .packet (.ok packet) => cases h
  | .packet (.error (.lagged skipped)) => cases h
  | .packet (.error .closed) =>
      obtain ⟨w, hw, rfl⟩ := Option.map_eq_some_iff.mp h
      obtain ⟨hpc, rfl⟩ := Worker.step_packet.mp hw
      exact hi.leave hpc
  | .reset r =>
      obtain ⟨w, hw, rfl⟩ := Option.map_eq_some_iff.mp h
      obtain ⟨hpc, rfl⟩ := Worker.step_reset.mp hw
      simp only [note]
      match r with
      | .ok (some muxer) => exact { hi with
          place := by simpa [At, Worker.onReset, hpc] using hi.place }
      | .ok none => exact hi
      | .error _ => exact hi.leave hpc
  | .control r =>
      obtain ⟨w, hw, rfl⟩ := Option.map_eq_some_iff.mp h
      obtain ⟨hpc, rfl⟩ := Worker.step_control.mp hw
      cases r with
      | none => exact hi.leave hpc
      | some message =>
          cases message with
          | play => exact hi.play hpc
          | streamState =>
              simp only [note]
              exact { hi with place := by simpa [At, Worker.onControl, hpc] using hi.place }
  | .stop =>
      obtain ⟨w, hw, rfl⟩ := Option.map_eq_some_iff.mp h
      obtain ⟨hpc, rfl⟩ := Worker.step_stop.mp hw
      exact hi.leave hpc
  | .reply =>
      obtain ⟨w, hw, rfl⟩ := Option.map_eq_some_iff.mp h
      obtain ⟨s, packet, hpc, rfl⟩ := Worker.step_reply.mp hw
      have hplace := hi.place
      simp only [At, hpc] at hplace
      simp only [note, hpc]
      refine { hi with playing := ?_, ready := ?_, place := At.afterMux hplace.1 hplace.2 }
      · simpa using hi.playing
      · simpa using hi.ready
  | .trySend r =>
      obtain ⟨w, hw, rfl⟩ := Option.map_eq_some_iff.mp h
      obtain ⟨message, rest, hpc, rfl⟩ := Worker.step_trySend.mp hw
      cases r with
      | ok =>
          simp only [note, hpc]
          exact hi.enqueued hpc
      | full =>
          simp only [note, hpc]
          exact hi.refused hpc rfl (.inr ⟨rfl, rfl⟩)
      | closed =>
          simp only [note, hpc]
          exact hi.refused hpc rfl (.inl rfl)

theorem Inv.step {a : FeedAction V} (hi : Inv source f) (h : f.step source a = some f') :
    Inv source f' := by
  cases a with
  | receive => exact hi.receive h
  | lag skipped => exact hi.lag h
  | other e => exact hi.other h

theorem inv_of_run {muxer : V.RtpMuxer} {cursor : Nat} {as : List (FeedAction V)}
    (h : Transition.run (step source) (start muxer cursor) as = some f) : Inv source f :=
  Transition.run_invariant (fun _ _ _ hi hs => hi.step hs) h (inv_start muxer cursor)

/-! ## Keyframe gating -/

/-- A message that was sent belongs to a frame of the log that was offered. -/
theorem Inv.offered_of_mem (hi : Inv source f) {k : Nat} {message : RtpBuf}
    (hmem : (k, message) ∈ f.sent) :
    ∃ newer older messages enqueued refused,
      f.log = newer ++ .frame k (.offered messages enqueued refused) :: older ∧
      messagesOf f.log k = messages ∧ (∀ i fate, .frame i fate ∈ newer → k < i) ∧
      Before older k ∧ Gated source older ∧
      Gate source older k (.offered messages enqueued refused) := by
  rw [hi.sent] at hmem
  obtain ⟨messages, enqueued, refused, hframe, -⟩ := mem_enqueuedOf.mp hmem
  obtain ⟨newer, older, hlog⟩ := List.append_of_mem hframe
  have hbefore := hi.before
  have hgated := hi.gated
  rw [hlog] at hbefore hgated
  obtain ⟨hnewer, holder⟩ := hbefore.split
  obtain ⟨hgate, hgated⟩ := hgated.split
  refine ⟨newer, older, messages, enqueued, refused, hlog, ?_, hnewer, holder, hgated, hgate⟩
  rw [hlog, messagesOf_append fun fate hfate => (hnewer k fate hfate).ne rfl]
  simp [messagesOf]

theorem Inv.muxed (hi : Inv source f) {k : Nat} {message : RtpBuf} (hmem : (k, message) ∈ f.sent) :
    ∃ muxer, (V.mux muxer (source k)).2 = some (messagesOf f.log k) := by
  obtain ⟨newer, older, messages, enqueued, refused, -, hmessages, -, -, -, hgate⟩ :=
    hi.offered_of_mem hmem
  exact hmessages ▸ hgate.2.1

theorem Inv.decodable (hi : Inv source f) {k : Nat} {message : RtpBuf}
    (hmem : (k, message) ∈ f.sent) (hkey : V.isKey (source k) = false) :
    ∃ j before part after, LatestKey source j k ∧
      (∀ i, j ≤ i → i < k → ∃ e ∈ f.log, e.Complete i) ∧
      f.sent = before ++ messagesFrom f.log j k ++ part.map (k, ·) ++ after ∧
      (∀ p ∈ before, p.1 < j) ∧ part <+: messagesOf f.log k ∧ ∀ p ∈ after, k < p.1 := by
  obtain ⟨newer, older, messages, enqueued, refused, hlog, hmessages, hnewer, holder, hgated,
    -, -, hprefix, hrule⟩ := hi.offered_of_mem hmem
  have hlink : Linked older k := hrule.resolve_left (by simp [hkey])
  obtain ⟨j, oldest, hlatest, hall, holdest, heq⟩ := hlink.chain hgated holder
  have hfrom : messagesFrom f.log j k = messagesFrom older j k := by
    rw [hlog, List.append_cons]
    refine messagesFrom_append _ fun i fate hfate => ?_
    rcases List.mem_append.mp hfate with hfate | hfate
    · exact (hnewer i fate hfate).le
    · simp only [List.mem_singleton, Entry.frame.injEq] at hfate
      exact hfate.1.ge
  refine ⟨j, enqueuedOf oldest, enqueued, enqueuedOf newer, hlatest, fun i h₁ h₂ => ?_, ?_,
    holdest.enqueuedOf_lt, hmessages ▸ hprefix, enqueuedOf_lt hnewer⟩
  · obtain ⟨e, he, hc⟩ := hall i h₁ h₂
    exact ⟨e, by simp [hlog, he], hc⟩
  · rw [hi.sent, hfrom, ← heq, hlog, enqueuedOf_append, enqueuedOf]

/-- Every entry is settled, unless the worker is still busy with the newest. -/
theorem Inv.settled_of_mem (hi : Inv source f) {newer older : List Entry} {e : Entry}
    (hlog : f.log = newer ++ e :: older)
    (h : newer ≠ [] ∨ f.worker.pc = .select ∨ f.worker.pc = .left) : e.Settled := by
  have hplace := hi.place
  cases newer with
  | cons e' newer => exact hi.settled e (by simp [hlog])
  | nil =>
      rcases h with h | hpc | hpc
      · exact absurd rfl h
      · exact hi.all_settled hpc e (by simp [hlog])
      · simp only [At, hpc] at hplace
        exact hplace e (by simp [hlog])

/-- The fate of a frame received while playing, read off the rule. -/
theorem Inv.gate_of_playing (hi : Inv source f) {newer older : List Entry} {k : Nat} {fate : Fate}
    (hlog : f.log = newer ++ .frame k fate :: older) :
    Gate source older k fate ∧ (Follows older k ↔ Linked older k) := by
  have hbefore := hi.before
  have hgated := hi.gated
  rw [hlog] at hbefore hgated
  exact ⟨hgated.split.1, hbefore.split.2.follows_iff⟩

theorem Inv.offered (hi : Inv source f) (hmux : ∀ muxer packet, (V.mux muxer packet).2.isSome)
    {newer older : List Entry} {k : Nat} {fate : Fate}
    (hlog : f.log = newer ++ .frame k fate :: older) (hplay : .play ∈ older)
    (hrule : V.isKey (source k) = true ∨ Follows older k) :
    ∃ messages enqueued refused, fate = .offered messages enqueued refused ∧
      (∃ muxer, (V.mux muxer (source k)).2 = some messages) ∧ enqueued <+: messages ∧
      (newer ≠ [] ∨ f.worker.pc = .select ∨ f.worker.pc = .left →
        enqueued = messages ∨ refused = true) := by
  obtain ⟨hgate, hfollows⟩ := hi.gate_of_playing hlog
  match fate, hgate with
  | .skipped, ⟨_, hkey, hlink⟩ =>
      rcases hrule with hrule | hrule
      · simp [hkey] at hrule
      · exact absurd (hfollows.mp hrule) hlink
  | .muxed, hready => exact absurd hplay hready
  | .failed, ⟨muxer, hnone⟩ => exact absurd (hmux muxer (source k)) (by simp [hnone])
  | .offered messages enqueued refused, ⟨_, hm, hprefix, _⟩ =>
      exact ⟨messages, enqueued, refused, rfl, hm, hprefix, hi.settled_of_mem hlog⟩

theorem Inv.skipped (hi : Inv source f) (hmux : ∀ muxer packet, (V.mux muxer packet).2.isSome)
    {newer older : List Entry} {k : Nat} {fate : Fate}
    (hlog : f.log = newer ++ .frame k fate :: older) (hplay : .play ∈ older)
    (hrule : ¬ (V.isKey (source k) = true ∨ Follows older k)) : fate = .skipped := by
  obtain ⟨hgate, hfollows⟩ := hi.gate_of_playing hlog
  match fate, hgate with
  | .skipped, _ => rfl
  | .muxed, hready => exact absurd hplay hready
  | .failed, ⟨muxer, hnone⟩ => exact absurd (hmux muxer (source k)) (by simp [hnone])
  | .offered messages enqueued refused, ⟨_, _, _, hopen⟩ =>
      exact absurd (hopen.imp_right hfollows.mpr) hrule

/-- Keyframe gating is exact: what the queue gets can be decoded, and whatever
can be decoded is offered. -/
structure Exact (source : Nat → V.Packet) (f : Feed V) : Prop where
  /-- The queue gets the frames in the order of the source, -/
  ordered : (f.sent.map Prod.fst).Pairwise (· ≤ ·)
  /-- of each frame the first few messages that the muxer made of it, -/
  cut : ∀ k, (f.sent.filter (·.1 = k)).map Prod.snd <+: messagesOf f.log k
  muxed : ∀ k message, (k, message) ∈ f.sent →
    ∃ muxer, (V.mux muxer (source k)).2 = some (messagesOf f.log k)
  /-- and a frame that is not a keyframe only right after all messages of the
  frames back to the last keyframe. -/
  decodable : ∀ k message, (k, message) ∈ f.sent → V.isKey (source k) = false →
    ∃ j before part after, LatestKey source j k ∧
      (∀ i, j ≤ i → i < k → ∃ e ∈ f.log, e.Complete i) ∧
      f.sent = before ++ messagesFrom f.log j k ++ part.map (k, ·) ++ after ∧
      (∀ p ∈ before, p.1 < j) ∧ part <+: messagesOf f.log k ∧ ∀ p ∈ after, k < p.1
  /-- A keyframe, or a frame that follows a completely enqueued one, is muxed,
  and its messages are tried in order until the queue refuses one. -/
  offered : ∀ newer older k fate, f.log = newer ++ .frame k fate :: older → .play ∈ older →
    V.isKey (source k) = true ∨ Follows older k →
      ∃ messages enqueued refused, fate = .offered messages enqueued refused ∧
        (∃ muxer, (V.mux muxer (source k)).2 = some messages) ∧ enqueued <+: messages ∧
        (newer ≠ [] ∨ f.worker.pc = .select ∨ f.worker.pc = .left →
          enqueued = messages ∨ refused = true)
  /-- Any other frame is skipped. -/
  skipped : ∀ newer older k fate, f.log = newer ++ .frame k fate :: older → .play ∈ older →
    ¬ (V.isKey (source k) = true ∨ Follows older k) → fate = .skipped

theorem keyframe_gating (hmux : ∀ muxer packet, (V.mux muxer packet).2.isSome)
    {muxer : V.RtpMuxer} {cursor : Nat} {as : List (FeedAction V)}
    (h : Transition.run (step source) (start muxer cursor) as = some f) : Exact source f where
  ordered := (inv_of_run h).sent ▸ (inv_of_run h).before.sorted
  cut := (inv_of_run h).sent ▸ (inv_of_run h).gated.enqueuedOf_prefix (inv_of_run h).before
  muxed := fun _ _ hmem => (inv_of_run h).muxed hmem
  decodable := fun _ _ hmem hkey => (inv_of_run h).decodable hmem hkey
  offered := fun _ _ _ _ hlog hplay hrule => (inv_of_run h).offered hmux hlog hplay hrule
  skipped := fun _ _ _ _ hlog hplay hrule => (inv_of_run h).skipped hmux hlog hplay hrule

/-- Every fourth frame is a keyframe. -/
def everyFourth (k : Nat) : Video.counting.Packet := decide (k % 4 = 1)

/-- A client that plays, gets a keyframe and the frame after it, and has the
next one refused. -/
def gatingRun : List (FeedAction Video.counting) :=
  [.receive, .other (.control (some .play)), .receive, .other (.trySend .ok), .receive,
    .other (.trySend .ok), .receive, .other (.trySend .full), .receive]

theorem keyframe_gating_gatingRun :
    ∃ f, Transition.run (step everyFourth) (start (V := .counting) (65535 : UInt16) 0) gatingRun =
        some f ∧
      f.sent.map Prod.fst = [1, 2] ∧ Exact everyFourth f := by
  obtain ⟨f, hf, hsent⟩ : ∃ f, Transition.run (step everyFourth)
      (start (V := .counting) (65535 : UInt16) 0) gatingRun = some f ∧
      f.sent.map Prod.fst = [1, 2] := ⟨_, rfl, rfl⟩
  exact ⟨f, hf, hsent, keyframe_gating (fun _ _ => rfl) hf⟩

end Feed

end Session

-- SUMMARY: When the sequence number that a PLAY response announces is the one of the first RTP packet that the client gets.
import AtomRust.Session.Answers
import AtomRust.Session.Playback

/-!
# RTP-Info

The stream state in the answer to a PLAY request is read at one frame, and the
session starts to play at a later one. Frames that are muxed in between use up
the announced numbers, as does a first RTP packet that the queue refuses. The
log says how many: `firstRtp` finds the first RTP packet enqueued after the
read, and counts the RTP packets of the frames muxed between the two.
-/

open Media (RtpBuf StreamState Video rtps rtpSeq)
open Runtime (StopSource TaskState)

namespace Session
variable {V : Video} {s s' : Session V} {c : Nat} {pc : CallPc} {st : StreamState}
  {post pre : List Occurrence} (new : List Occurrence)

/-! ## Counting -/

/-- The number of RTP packets muxed. -/
def rtpsMuxed : List Occurrence → Nat
  | [] => 0
  | .muxed bufs :: log => rtpsMuxed log + (rtps bufs).length
  | _ :: log => rtpsMuxed log

/-- The number of RTP packets muxed before the newest frame. -/
def passed : List Occurrence → Nat
  | [] => 0
  | .muxed _ :: log => rtpsMuxed log
  | _ :: log => passed log

/-- The first RTP packet enqueued, and the number of RTP packets muxed before
its frame. -/
def firstRtp : List Occurrence → Option (List UInt8 × Nat)
  | [] => none
  | .enqueued (.rtp payload) :: log => (firstRtp log).or (some (payload, passed log))
  | _ :: log => firstRtp log

/-- Neither a frame that was muxed nor a packet that was enqueued. -/
def Occurrence.neutral : Occurrence → Bool
  | .muxed _ | .enqueued _ => false
  | _ => true

theorem counts_append (post : List Occurrence) (h : ∀ o ∈ new, o.neutral) :
    rtpsMuxed (new ++ post) = rtpsMuxed post ∧ passed (new ++ post) = passed post ∧
      firstRtp (new ++ post) = firstRtp post := by
  induction new with
  | nil => exact ⟨rfl, rfl, rfl⟩
  | cons o new ih =>
      have ih := ih fun o ho => h o (List.mem_cons_of_mem _ ho)
      have ho := h o List.mem_cons_self
      cases o with
      | muxed | enqueued => cases ho
      | _ => exact ih

/-- What was logged before stays below what is logged now. -/
theorem split_of_append {r : Occurrence} {log : List Occurrence} (hr : r ∉ new)
    (h : new ++ log = post ++ r :: pre) :
    ∃ post', post = new ++ post' ∧ log = post' ++ r :: pre := by
  rcases List.append_eq_append_iff.mp h with ⟨post', hpost, hlog⟩ | ⟨rest, hnew, hrest⟩
  · exact ⟨post', hpost, hlog⟩
  · cases rest with
    | nil => exact ⟨[], by simpa using hnew.symm, hrest.symm⟩
    | cons r' rest =>
        obtain ⟨rfl, -⟩ := List.cons.inj hrest
        exact absurd (by simp [hnew]) hr

/-! ## The invariant -/

/-- The muxer has failed, and all that is left to the worker is to leave. -/
def Worker.failed (w : Worker V) : Bool :=
  match w.pc with
  | .left | .reply _ none => true
  | _ => false

/-- The first RTP packet of the newest frame carries the announced number, moved
on by what was muxed before the frame. -/
def Framed (st : StreamState) (post : List Occurrence) (bufs : List RtpBuf) : Prop :=
  ∀ payload rest, rtps bufs = payload :: rest →
    rtpSeq payload = st.rtpSeq + UInt16.ofNat (passed post)

/-- How `st`, read before `post` happened, numbers what the worker does. -/
structure Numbering (st : StreamState) (post : List Occurrence) (w : Worker V) : Prop where
  seq : w.failed = false →
    (V.seqAndTimestamp w.muxer).1 = st.rtpSeq + UInt16.ofNat (rtpsMuxed post)
  first : ∀ payload n, firstRtp post = some (payload, n) →
    rtpSeq payload = st.rtpSeq + UInt16.ofNat n
  reply : ∀ st' bufs, w.pc = .reply st' (some bufs) → w.state = .playing → Framed st post bufs
  send : ∀ message rest, w.pc = .send message rest →
    ∃ sent, Framed st post (sent ++ message :: rest) ∧ (firstRtp post = none → rtps sent = [])

/-- Every stream state that was read in the Ready state, and since which the
muxer was not replaced, numbers what came after it. -/
def Numbered (s : Session V) : Prop :=
  ∀ post askers st pre, s.log = post ++ .read askers st :: pre →
    (∀ c, .tookPlay c ∉ pre) → .reset ∉ post → Numbering st post s.worker

namespace Numbering
variable {w w' : Worker V}

/-- Steps that neither mux nor enqueue, and leave the worker at its `select!` or
where it was. -/
theorem frame (hn : Numbering st post w) (hneutral : ∀ o ∈ new, o.neutral)
    (hmuxer : w'.muxer = w.muxer) (hfailed : w'.failed = false → w.failed = false)
    (hpc : w'.pc = w.pc ∧ w'.state = w.state ∨ w'.pc = .select ∨ w'.pc = .left) :
    Numbering st (new ++ post) w' := by
  obtain ⟨hmuxed, hpassed, hfirst⟩ := counts_append new post hneutral
  refine ⟨fun hf => ?_, ?_, fun st' bufs hr hplay => ?_, fun message rest hs => ?_⟩
  · rw [hmuxer, hmuxed]
    exact hn.seq (hfailed hf)
  · rw [hfirst]
    exact hn.first
  · rcases hpc with ⟨hpc, hstate⟩ | hpc | hpc
    · intro payload rest hbufs
      rw [hpassed]
      exact hn.reply st' bufs (hpc ▸ hr) (hstate ▸ hplay) payload rest hbufs
    · simp [hpc] at hr
    · simp [hpc] at hr
  · rcases hpc with ⟨hpc, -⟩ | hpc | hpc
    · obtain ⟨sent, hframed, hsent⟩ := hn.send message rest (hpc ▸ hs)
      exact ⟨sent, fun payload rest h => hpassed ▸ hframed payload rest h, hfirst ▸ hsent⟩
    · simp [hpc] at hs
    · simp [hpc] at hs

/-- The worker turns to the messages of a frame. -/
theorem sendNext (sent : List RtpBuf) {rest : List RtpBuf} (hseq : (V.seqAndTimestamp w.muxer).1 =
      st.rtpSeq + UInt16.ofNat (rtpsMuxed post))
    (hfirst : ∀ payload n, firstRtp post = some (payload, n) →
      rtpSeq payload = st.rtpSeq + UInt16.ofNat n)
    (hframed : Framed st post (sent ++ rest)) (hsent : firstRtp post = none → rtps sent = []) :
    Numbering st post (w.sendNext rest) := by
  cases rest with
  | nil => exact ⟨fun _ => hseq, hfirst, nofun, nofun⟩
  | cons message rest =>
      refine ⟨fun _ => hseq, hfirst, nofun, fun message' rest' h => ⟨sent, ?_, hsent⟩⟩
      obtain ⟨rfl, rfl⟩ : message = message' ∧ rest = rest' := by
        simpa [Worker.sendNext] using h
      exact hframed

theorem afterMux {bufs : Option (List RtpBuf)} (hseq : bufs.isSome →
      (V.seqAndTimestamp w.muxer).1 = st.rtpSeq + UInt16.ofNat (rtpsMuxed post))
    (hfirst : ∀ payload n, firstRtp post = some (payload, n) →
      rtpSeq payload = st.rtpSeq + UInt16.ofNat n)
    (hframed : ∀ messages, bufs = some messages → w.state = .playing → Framed st post messages) :
    Numbering st post (w.afterMux bufs) := by
  cases bufs with
  | none =>
      simp only [Worker.afterMux]
      exact ⟨by simp [Worker.failed], hfirst, by simp, by simp⟩
  | some messages =>
      simp only [Worker.afterMux]
      split
      next hplay => exact sendNext [] (hseq rfl) hfirst (hframed _ rfl hplay) fun _ => rfl
      next => exact ⟨fun _ => hseq rfl, hfirst, by simp, by simp⟩

/-- A frame is muxed. -/
theorem mux (hV : V.Numbers) (packet : V.Packet) (hn : Numbering st post w)
    (hfailed : w.failed = false) (hneutral : ∀ o ∈ new, o.neutral) :
    Numbering st (new ++ (((V.mux w.muxer packet).2.map Occurrence.muxed).toList ++ post))
      (w.mux packet) := by
  generalize hpost : new ++ (((V.mux w.muxer packet).2.map Occurrence.muxed).toList ++ post) = post'
  have hseq := hn.seq hfailed
  have hfirst : ∀ payload n, firstRtp post' = some (payload, n) →
      rtpSeq payload = st.rtpSeq + UInt16.ofNat n := by
    rw [← hpost, (counts_append new _ hneutral).2.2]
    cases hm : (V.mux w.muxer packet).2 with
    | none => exact hn.first
    | some bufs => exact hn.first
  have hnext : (V.mux w.muxer packet).2.isSome → (V.seqAndTimestamp (V.mux w.muxer packet).1).1 =
      st.rtpSeq + UInt16.ofNat (rtpsMuxed post') := fun hsome => by
    obtain ⟨bufs, hm⟩ := Option.isSome_iff_exists.mp hsome
    rw [hV.next w.muxer packet bufs hm, hseq, ← hpost, (counts_append new _ hneutral).1, hm]
    simp [rtpsMuxed, UInt16.add_assoc]
  have hframed : ∀ bufs, (V.mux w.muxer packet).2 = some bufs → Framed st post' bufs :=
    fun bufs hm payload rest hbufs => by
      rw [hV.first hm hbufs, hseq, ← hpost, (counts_append new _ hneutral).2.1, hm]
      rfl
  unfold Worker.mux
  dsimp only
  split
  · refine ⟨fun hf => hnext ?_, hfirst, fun st' bufs hr _ => ?_, by simp⟩
    · cases hm : (V.mux w.muxer packet).2 with
      | none => simp [Worker.failed, hm] at hf
      | some bufs => rfl
    · exact hframed bufs (by simpa using (Pc.reply.inj hr).2)
  · exact afterMux hnext hfirst fun bufs hm _ => hframed bufs hm

/-- The queue accepts a message. -/
theorem enqueue {message : RtpBuf} {rest : List RtpBuf} (hn : Numbering st post w)
    (hpc : w.pc = .send message rest) :
    Numbering st (.enqueued message :: post) (w.sendNext rest) := by
  obtain ⟨sent, hframed, hsent⟩ := hn.send message rest hpc
  have hseq := hn.seq (by simp [Worker.failed, hpc])
  cases message with
  | rtcp payload =>
      refine sendNext (sent ++ [.rtcp payload]) hseq hn.first ?_ fun hnone => ?_
      · rw [List.append_assoc]
        exact hframed
      · simpa using hsent hnone
  | rtp payload =>
      have hfirst : firstRtp (.enqueued (.rtp payload) :: post) =
          (firstRtp post).or (some (payload, passed post)) := rfl
      refine sendNext (sent ++ [.rtp payload]) hseq (fun payload' n h => ?_) ?_ fun hnone => ?_
      · rw [hfirst] at h
        cases hp : firstRtp post with
        | some r => exact hn.first payload' n (by rw [hp] at h ⊢; exact h)
        | none =>
            -- The first packet of the frame, since none of it was enqueued before.
            rw [hp] at h
            obtain ⟨rfl, rfl⟩ : payload = payload' ∧ passed post = n := by simpa using h
            exact hframed payload (rtps rest) (by simp [hsent hp])
      · rw [List.append_assoc]
        exact hframed
      · simp [hfirst] at hnone

end Numbering

namespace Numbered

/-- A step that leaves the worker at its `select!` or where it was. -/
theorem frame (hi : Numbered s) (hlog : s'.log = new ++ s.log) (hneutral : ∀ o ∈ new, o.neutral)
    (hread : ∀ askers st, .read askers st ∉ new) (hmuxer : s'.worker.muxer = s.worker.muxer)
    (hfailed : s'.worker.failed = false → s.worker.failed = false)
    (hpc : s'.worker.pc = s.worker.pc ∧ s'.worker.state = s.worker.state ∨
      s'.worker.pc = .select ∨ s'.worker.pc = .left) : Numbered s' := by
  intro post askers st pre h hpre hpost
  rw [hlog] at h
  obtain ⟨post', rfl, h'⟩ := split_of_append new (hread askers st) h
  have hn := hi post' askers st pre h' hpre fun hr => hpost (List.mem_append_right _ hr)
  exact hn.frame new hneutral hmuxer hfailed hpc

/-- A step that leaves the worker alone. -/
theorem other (hi : Numbered s) (hlog : s'.log = new ++ s.log) (hneutral : ∀ o ∈ new, o.neutral)
    (hread : ∀ askers st, .read askers st ∉ new) (hworker : s'.worker = s.worker) :
    Numbered s' := by
  apply hi.frame new hlog hneutral hread
  · rw [hworker]
  · rw [hworker]
    exact id
  · rw [hworker]
    exact .inl ⟨rfl, rfl⟩

theorem failed_of_select {w : Worker V} (h : w.pc = .select) : w.failed = false := by
  simp [Worker.failed, h]

/-- A step of the loop after which the worker stands at its `select!` or has
left. -/
theorem event {w : Worker V} (hi : Numbered s) (hneutral : ∀ o ∈ new, o.neutral)
    (hread : ∀ askers st, .read askers st ∉ new) (hfailed : s.worker.failed = false)
    (hmuxer : w.muxer = s.worker.muxer) (hpc : w.pc = .select ∨ w.pc = .left) :
    Numbered { s with worker := w, log := new ++ s.log } :=
  hi.frame new rfl hneutral hread hmuxer (fun _ => hfailed) (.inr hpc)

theorem reset {r : Except RecvError (Option V.RtpMuxer)} (hi : Numbered s)
    (hpc : s.worker.pc = .select) :
    Numbered { s with worker := s.worker.onReset r, log := resetLog r ++ s.log } := by
  match r with
  | .ok (some muxer) =>
      -- The numbers of the old muxer end here.
      intro post askers st pre h _ hpost
      obtain ⟨post', rfl, -⟩ := split_of_append [.reset] (by simp) h
      exact absurd List.mem_cons_self hpost
  | .ok none => exact hi.event [] nofun nofun (failed_of_select hpc) rfl (.inl hpc)
  | .error _ => exact hi.event [] nofun nofun (failed_of_select hpc) rfl (.inr rfl)

/-- A frame is muxed, and the stream state read if someone asked for it. -/
theorem mux (hV : V.Numbers) {packet : V.Packet} (hs : Started s) (hi : Numbered s)
    (hpc : s.worker.pc = .select) (hskip : s.worker.skips packet = false) :
    Numbered { s with worker := s.worker.resume.mux packet, log := s.muxLog packet ++ s.log } := by
  have hlog : s.muxLog packet =
      (if s.worker.needStreamState then
        [.read s.askers (V.streamState (V.mux s.worker.muxer packet).1)] else []) ++
      ((V.mux s.worker.muxer packet).2.map Occurrence.muxed).toList := by
    simp [muxLog, hskip]
  have hresume : ∀ {st post}, Numbering st post s.worker → Numbering st post s.worker.resume :=
    fun hn => hn.frame [] (by simp) (Worker.resume_muxer _) (fun _ => failed_of_select hpc)
      (.inl ⟨by unfold Worker.resume; split <;> rfl, Worker.resume_state _⟩)
  have hfailed : s.worker.resume.failed = false :=
    failed_of_select (by unfold Worker.resume; split <;> exact hpc)
  intro post askers st pre h hpre hpost
  -- The read that numbers the worker is one of this step, or an earlier one.
  have hmuxed : .read askers st ∉
      ((V.mux s.worker.muxer packet).2.map Occurrence.muxed).toList := by
    cases (V.mux s.worker.muxer packet).2 <;> simp
  change s.muxLog packet ++ s.log = _ at h
  rw [hlog] at h
  cases hneed : s.worker.needStreamState with
  | false =>
      rw [hneed] at h
      obtain ⟨post', rfl, h'⟩ := split_of_append _ hmuxed h
      have hn := hresume
        (hi post' askers st pre h' hpre fun hr => hpost (List.mem_append_right _ hr))
      have := hn.mux [] hV packet hfailed (by simp)
      simpa using this
  | true =>
      rw [hneed] at h
      cases post with
      | nil =>
          obtain ⟨hr, rfl⟩ := List.cons.inj h
          obtain ⟨rfl, rfl⟩ :
              s.askers = askers ∧ V.streamState (V.mux s.worker.muxer packet).1 = st := by
            simpa using hr
          have hready : s.worker.state ≠ .playing := fun hplay => by
            obtain ⟨c, hc⟩ := hs.playing hplay
            exact hpre c (List.mem_append_right _ hc)
          have hpc' : (s.worker.resume.mux packet).pc =
              .reply (V.streamState (V.mux s.worker.muxer packet).1)
                (V.mux s.worker.muxer packet).2 := by
            simp [Worker.mux, hneed]
          refine ⟨fun _ => ?_, by simp [firstRtp], fun st' bufs _ hplay => ?_,
            fun message rest hs => ?_⟩
          · have hmuxer : (s.worker.resume.mux packet).muxer = (V.mux s.worker.muxer packet).1 := by
              simp [Worker.mux, hneed]
            rw [hmuxer]
            exact (UInt16.add_zero _).symm
          · exact absurd (by simpa using hplay) hready
          · simp [hpc'] at hs
      | cons o post =>
          obtain ⟨rfl, htail⟩ := List.cons.inj h
          obtain ⟨post', rfl, h'⟩ := split_of_append _ hmuxed htail
          have hn := hresume (hi post' askers st pre h' hpre fun hr => hpost (by simp [hr]))
          have := hn.mux [.read s.askers (V.streamState (V.mux s.worker.muxer packet).1)] hV packet
            hfailed (by simp [Occurrence.neutral])
          simpa using this

theorem packet (hV : V.Numbers) {r : Except RecvError V.Packet} (hs : Started s) (hi : Numbered s)
    (hpc : s.worker.pc = .select) :
    Numbered { s with worker := s.worker.onPacket r, log := s.packetLog r ++ s.log } := by
  match r with
  | .ok packet =>
      cases hskip : s.worker.skips packet with
      | true =>
          exact hi.other [] (by simp [packetLog, muxLog, hskip]) nofun nofun
            (by simp [Worker.onPacket, hskip])
      | false =>
          have hworker : s.worker.onPacket (.ok packet) = s.worker.resume.mux packet := by
            simp [Worker.onPacket, hskip]
          rw [hworker]
          exact hi.mux hV hs hpc hskip
  | .error (.lagged _) => exact hi.event [] nofun nofun (failed_of_select hpc) rfl (.inl hpc)
  | .error .closed => exact hi.event [] nofun nofun (failed_of_select hpc) rfl (.inr rfl)

theorem reply {packet : Option (List RtpBuf)} {streamStates : List StreamState} (hi : Numbered s)
    (hpc : s.worker.pc = .reply st packet) :
    Numbered { s with
      worker := { s.worker with needStreamState := false }.afterMux packet,
      streamStates, askers := [], log := .replied s.askers st :: s.log } := by
  intro post askers st'' pre h hpre hpost
  obtain ⟨post', rfl, h'⟩ := split_of_append [.replied s.askers st] (by simp) h
  have hn : Numbering st'' ([.replied s.askers st] ++ post')
      { s.worker with needStreamState := false } :=
    (hi post' askers st'' pre h' hpre fun hr => hpost (by simp [hr])).frame _
      (by simp [Occurrence.neutral]) rfl id (.inl ⟨rfl, rfl⟩)
  refine Numbering.afterMux (fun hsome => hn.seq ?_) hn.first fun bufs heq hplay => ?_
  · obtain ⟨bufs, rfl⟩ := Option.isSome_iff_exists.mp hsome
    simp [Worker.failed, hpc]
  · subst heq
    exact hn.reply st bufs hpc hplay

theorem trySend {r : TrySendResult} {message : RtpBuf} {rest : List RtpBuf} (hi : Numbered s)
    (hpc : s.worker.pc = .send message rest) :
    Numbered { s with
      worker := s.worker.onTrySend rest r, log := trySendLog message r ++ s.log } := by
  have hfailed : s.worker.failed = false := by simp [Worker.failed, hpc]
  cases r with
  | ok =>
      intro post askers st pre h hpre hpost
      obtain ⟨post', rfl, h'⟩ := split_of_append [.enqueued message] (by simp) h
      exact (hi post' askers st pre h' hpre fun hr => hpost (by simp [hr])).enqueue hpc
  | full => exact hi.event [] nofun nofun hfailed rfl (.inl rfl)
  | closed => exact hi.event [] nofun nofun hfailed rfl (.inr rfl)

/-- A call leaves the worker alone. -/
theorem caller (hi : Numbered s) (h : Caller s s' c) : Numbered s' := by
  obtain ⟨new, hlog, hnew⟩ := h.log
  refine hi.other new hlog (fun o ho => ?_) (fun askers st hr => ?_) h.worker
  · have := hnew o ho
    cases o <;> simp_all [Occurrence.neutral, Occurrence.ofWorker]
  · cases hnew _ hr

theorem step (hV : V.Numbers) {a : Action V} (hs : Started s) (hi : Numbered s)
    (h : s.step a = some s') : Numbered s' := by
  cases effect_of_step h with
  | find _ heq | disown _ heq | poll _ _ heq | stopAll heq | closeMedia _ heq =>
      subst heq
      exact hi.other [] rfl nofun nofun rfl
  | call _ hcalled => exact hi.caller hcalled.caller
  | reset _ hpc heq =>
      subst heq
      exact hi.reset hpc
  | packet _ hpc heq =>
      subst heq
      exact hi.packet hV hs hpc
  | @took c _ _ hpc _ heq =>
      subst heq
      exact hi.frame [.took c] rfl (by simp [Occurrence.neutral]) (by simp) rfl
        (fun _ => failed_of_select hpc) (.inr (.inl hpc))
  | @tookPlay c _ _ hpc _ heq =>
      subst heq
      exact hi.frame [.tookPlay c] rfl (by simp [Occurrence.neutral]) (by simp) rfl
        (fun _ => failed_of_select hpc) (.inr (.inl hpc))
  | deserted _ hpc _ heq | waitForStop _ hpc _ heq =>
      subst heq
      exact hi.frame [] rfl nofun nofun rfl (fun _ => failed_of_select hpc) (.inr (.inr rfl))
  | reply _ hpc heq =>
      subst heq
      exact hi.reply hpc
  | trySend _ hpc _ heq =>
      subst heq
      exact hi.trySend hpc
  | @exit e _ _ heq =>
      subst heq
      cases e <;> exact hi.other [] rfl nofun nofun rfl

end Numbered

theorem numbered_of_reachable (hV : V.Numbers) (h : (system V).Reachable s) : Numbered s := by
  refine h.invariant ?_ fun _ _ _ hr hi hs => hi.step hV (started_of_reachable hr) hs
  rintro _ ⟨target, muxer, accepted, stopAll, rfl⟩ post askers st pre h
  simp [setupAndStart] at h

/-! ## The announced number -/

theorem UInt16.add_ofNat_eq_self {a : UInt16} {n : Nat} : a + UInt16.ofNat n = a ↔ 65536 ∣ n := by
  constructor
  · intro h
    have h := congrArg UInt16.toNat h
    have hlt : a.toNat < 65536 := a.toNat_lt
    simp only [UInt16.toNat_add, UInt16.toNat_ofNat'] at h
    omega
  · rintro ⟨k, rfl⟩
    apply UInt16.toNat_inj.mp
    have hlt : a.toNat < 65536 := a.toNat_lt
    simp only [UInt16.toNat_add, UInt16.toNat_ofNat']
    omega

/-- The worker read `st` for call `c` before `post` happened. The session was not
playing yet, and the source has not been reset since. -/
def Announced (s : Session V) (c : Nat) (st : StreamState) (post : List Occurrence) : Prop :=
  ∃ pre, s.log = post ++ .read [c] st :: pre ∧ (∀ d, .tookPlay d ∉ pre) ∧ .reset ∉ post

/-- The stream state that a call returned was read for it, and the first RTP
packet enqueued from then on carries the announced number exactly if the number
of RTP packets muxed between the read and the frame of that packet is a multiple
of 2^16. -/
theorem announced_iff (hV : V.Numbers) (h : (system V).Reachable s)
    (hc : s.calls[c]? = some (.returned (.played st))) :
    (∃ post pre, s.log = post ++ .read [c] st :: pre) ∧
    ∀ post, Announced s c st post → ∀ payload n, firstRtp post = some (payload, n) →
      (rtpSeq payload = st.rtpSeq ↔ 65536 ∣ n) := by
  refine ⟨List.append_of_mem (((play_answers h).own c st hc).subset (by simp)), ?_⟩
  rintro post ⟨pre, hlog, hpre, hpost⟩ payload n hfirst
  have hn := numbered_of_reachable hV h post [c] st pre hlog hpre hpost
  rw [hn.first payload n hfirst, UInt16.add_ofNat_eq_self]

/-- A call whose `Play` message the worker takes before the next frame. -/
def promptPlay : List (Action .counting) :=
  [.poll, .find (.play none), .call 0, .call 0, .call 0, .takeControl, .packet (.ok true), .reply,
    .call 0, .call 0, .call 0, .takeControl, .packet (.ok true), .trySend .ok]

theorem announced_iff_promptPlay :
    ∃ s, Transition.run step (setupAndStart .rtpTcp (0 : UInt16) true []) promptPlay = some s ∧
      ∃ post, Announced s 0 ⟨1, 0⟩ post ∧ firstRtp post = some (Media.stamp 1, 0) ∧
        (rtpSeq (Media.stamp 1) = 1 ↔ 65536 ∣ 0) := by
  obtain ⟨s, hs, hcalls, hlog⟩ : ∃ s, Transition.run step
      (setupAndStart (V := .counting) .rtpTcp (0 : UInt16) true []) promptPlay = some s ∧
      s.calls = [.returned (.played ⟨1, 0⟩)] ∧
      s.log = [.enqueued (.rtp (Media.stamp 1)), .muxed [.rtp (Media.stamp 1)], .tookPlay 0,
          .returned 0 (.played ⟨1, 0⟩), .sentPlay 0, .received 0 ⟨1, 0⟩, .replied [0] ⟨1, 0⟩] ++
        .read [0] ⟨1, 0⟩ :: [.muxed [.rtp (Media.stamp 0)], .took 0, .requested 0] :=
    ⟨_, rfl, rfl, rfl⟩
  have hann : Announced s 0 ⟨1, 0⟩ _ := ⟨_, hlog, by simp, by simp⟩
  exact ⟨s, hs, _, hann, rfl, (announced_iff Media.Video.counting_numbers
    ⟨_, promptPlay, ⟨_, _, _, _, rfl⟩, hs⟩ (by simp [hcalls])).2 _ hann _ _ rfl⟩

/-- A frame arrives between the answer and the `Play` message, and is muxed
without being sent. -/
def stalePlay : List (Action .counting) :=
  [.poll, .find (.play none), .call 0, .call 0, .call 0, .takeControl, .packet (.ok true), .reply,
    .packet (.ok false), .call 0, .call 0, .call 0, .takeControl, .packet (.ok true), .trySend .ok]

/-- The call announces 1 and the client gets 2. -/
theorem not_announced_stalePlay :
    ∃ s : Session .counting, (system .counting).Reachable s ∧
      s.calls = [.returned (.played ⟨1, 0⟩)] ∧
      ∃ post, Announced s 0 ⟨1, 0⟩ post ∧ firstRtp post = some (Media.stamp 2, 1) ∧
        rtpSeq (Media.stamp 2) ≠ 1 := by
  obtain ⟨s, hs, hcalls, hlog⟩ : ∃ s, Transition.run step
      (setupAndStart (V := .counting) .rtpTcp (0 : UInt16) true []) stalePlay = some s ∧
      s.calls = [.returned (.played ⟨1, 0⟩)] ∧
      s.log = [.enqueued (.rtp (Media.stamp 2)), .muxed [.rtp (Media.stamp 2)], .tookPlay 0,
          .returned 0 (.played ⟨1, 0⟩), .sentPlay 0, .received 0 ⟨1, 0⟩,
          .muxed [.rtp (Media.stamp 1)], .replied [0] ⟨1, 0⟩] ++
        .read [0] ⟨1, 0⟩ :: [.muxed [.rtp (Media.stamp 0)], .took 0, .requested 0] :=
    ⟨_, rfl, rfl, rfl⟩
  exact ⟨s, ⟨_, stalePlay, ⟨_, _, _, _, rfl⟩, hs⟩, hcalls, _, ⟨_, hlog, by simp, by simp⟩, rfl,
    by decide⟩

end Session

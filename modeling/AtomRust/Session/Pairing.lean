-- SUMMARY: Which call a stream state answers: where a request can be on its way, and what the log says of a call that got its answer.
import AtomRust.Session.Lifetime

/-!
# Pairing requests and answers

A request is a flag in the worker and an answer is a broadcast, so neither says
which call it belongs to. The session mutex does: its holder is the only call
with a request under way. `Phase` says for each statement of the holder where
its request is, in the control channel, with the worker, answered, or lost with
a dropped channel, and `Paired` adds what the log records of it.
-/

open List (getElem?_set_of_some)
open Media (RtpBuf StreamState Video)
open Runtime (StopSource TaskState)

namespace Session
variable {V : Video} {s s' : Session V} {c : Nat} {pc : CallPc} {st : StreamState}

/-! ## Trails

What the log records of one call, newest first, up to some point. -/

def taken (c : Nat) : List Occurrence := [.took c, .requested c]
def answered (c : Nat) (st : StreamState) : List Occurrence :=
  .replied [c] st :: .read [c] st :: taken c
def played (c : Nat) (st : StreamState) : List Occurrence :=
  .sentPlay c :: .received c st :: answered c st

/-- The entry is a stream state sent for the request of call `c`. -/
def Occurrence.answers (c : Nat) : Occurrence → Bool
  | .replied askers _ => c ∈ askers
  | _ => false

/-! ## The invariant -/

/-- No request is under way. A PLAY message may still wait in the channel. -/
structure Idle (s : Session V) : Prop where
  askers : s.askers = []
  length : s.control.length ≤ 1
  plays : ∀ m ∈ s.control, m.2 = .play

/-- Where the request of call `c`, which listens from `rx` on, can be. -/
inductive Waiting (s : Session V) (c rx : Nat) : Prop where
  | queued (plays : List (Nat × SessionControlMessage)) (askers : s.askers = [])
      (control : s.control = plays ++ [(c, .streamState)]) (length : plays.length ≤ 1)
      (only : ∀ m ∈ plays, m.2 = .play) (unanswered : s.streamStates.length = rx)
      (log : [.requested c].Sublist s.log)
  | taken (askers : s.askers = [c]) (control : s.control = [])
      (unanswered : s.streamStates.length = rx) (log : (taken c).Sublist s.log)
  /-- The channel was dropped with the request in it. -/
  | lost (askers : s.askers = []) (control : s.control = [])
      (unanswered : s.streamStates.length = rx) (gone : s.controlRx = false)
  | answered (st : StreamState) (askers : s.askers = []) (control : s.control = [])
      (earlier : List StreamState) (sent : s.streamStates = earlier ++ [st])
      (length : earlier.length = rx) (log : (answered c st).Sublist s.log)

/-- What holds while call `c` has the mutex and stands at a statement. -/
def Phase (s : Session V) (c : Nat) : CallPc → Prop
  | .request rx => Idle s ∧ s.streamStates.length = rx
  | .recv rx => Waiting s c rx
  | .sendPlay st =>
      s.askers = [] ∧ s.control = [] ∧ (.received c st :: answered c st).Sublist s.log
  | .ret (.played st) => Idle s ∧ (played c st).Sublist s.log
  | .lock _ | .subscribe | .stop | .takeHold | .wait | .ret _ | .returned _ => Idle s

structure Paired (s : Session V) : Prop where
  free : s.mutex = none → Idle s
  held : ∀ c pc, s.mutex = some c → s.calls[c]? = some pc → Phase s c pc
  flag : s.worker.needStreamState = !s.askers.isEmpty
  /-- The worker sends what it read for the requests it has taken. -/
  reading : ∀ st packet, s.worker.pc = .reply st packet →
    s.askers ≠ [] ∧ ∀ c, s.askers = [c] → (.read [c] st :: taken c).Sublist s.log
  done : ∀ (c : Nat) st, s.calls[c]? = some (.returned (.played st)) →
    (.returned c (.played st) :: played c st).Sublist s.log
  sentPlay : ∀ c, .sentPlay c ∈ s.log → ∃ st, (played c st).Sublist s.log
  queued : ∀ c, (c, .play) ∈ s.control → .sentPlay c ∈ s.log
  tookPlay : ∀ c, .tookPlay c ∈ s.log → [.tookPlay c, .sentPlay c].Sublist s.log

theorem paired_setupAndStart (target : SessionSetupTarget) (muxer : V.RtpMuxer) (accepted : Bool)
    (stopAll : List Unit) : Paired (setupAndStart target muxer accepted stopAll) := by
  have hidle : Idle (setupAndStart target muxer accepted stopAll) :=
    ⟨rfl, Nat.zero_le 1, nofun⟩
  constructor <;> simp [setupAndStart, Worker.start]
  exact hidle

/-! ## Keeping a phase -/

/-- The requests and answers under way are the same, and the log has only
grown. -/
structure Quiet (s s' : Session V) : Prop where
  askers : s'.askers = s.askers
  control : s'.control = s.control
  streamStates : s'.streamStates = s.streamStates
  controlRx : s'.controlRx = s.controlRx
  log : s.log.Sublist s'.log

theorem Idle.quiet (hi : Idle s) (h : Quiet s s') : Idle s' :=
  ⟨h.askers ▸ hi.askers, h.control ▸ hi.length, h.control ▸ hi.plays⟩

theorem Waiting.quiet {rx : Nat} (hw : Waiting s c rx) (h : Quiet s s') : Waiting s' c rx := by
  obtain ⟨hask, hctl, hst, hrx, hlog⟩ := h
  cases hw with
  | queued plays ha hc hl ho hu ht =>
      exact .queued plays (hask ▸ ha) (hctl ▸ hc) hl ho (hst ▸ hu) (ht.trans hlog)
  | taken ha hc hu ht => exact .taken (hask ▸ ha) (hctl ▸ hc) (hst ▸ hu) (ht.trans hlog)
  | lost ha hc hu hg => exact .lost (hask ▸ ha) (hctl ▸ hc) (hst ▸ hu) (hrx ▸ hg)
  | answered st ha hc earlier he hl ht =>
      exact .answered st (hask ▸ ha) (hctl ▸ hc) earlier (hst ▸ he) hl (ht.trans hlog)

/-- Where a call is that is not idle. -/
theorem Phase.cases (hp : Phase s c pc) :
    Idle s ∨ (∃ rx, pc = .recv rx ∧ Waiting s c rx) ∨
      ∃ st, pc = .sendPlay st ∧ s.askers = [] ∧ s.control = [] := by
  match pc, hp with
  | .request rx, ⟨hidle, _⟩ | .ret (.played _), ⟨hidle, _⟩ => exact .inl hidle
  | .recv rx, hw => exact .inr (.inl ⟨rx, rfl, hw⟩)
  | .sendPlay st, ⟨ha, hctl, _⟩ => exact .inr (.inr ⟨st, rfl, ha, hctl⟩)
  | .ret (.failed _), hidle | .ret .tornDown, hidle | .lock _, hidle | .subscribe, hidle
  | .stop, hidle | .takeHold, hidle | .wait, hidle | .returned _, hidle => exact .inl hidle

/-- A step that only adds to the log keeps a phase, if it keeps what the phase
says of the requests and answers. -/
theorem Phase.imp (hp : Phase s c pc) (hlog : s.log.Sublist s'.log)
    (hst : Idle s → s'.streamStates = s.streamStates) (hidle : Idle s → Idle s')
    (hwait : ∀ rx, Waiting s c rx → Waiting s' c rx)
    (hsend : s.askers = [] → s.control = [] → s'.askers = [] ∧ s'.control = []) :
    Phase s' c pc := by
  match pc, hp with
  | .request rx, ⟨hi, hrx⟩ => exact ⟨hidle hi, hst hi ▸ hrx⟩
  | .recv rx, hw => exact hwait rx hw
  | .sendPlay st, ⟨ha, hctl, ht⟩ =>
      obtain ⟨ha', hctl'⟩ := hsend ha hctl
      exact ⟨ha', hctl', ht.trans hlog⟩
  | .ret (.played st), ⟨hi, ht⟩ => exact ⟨hidle hi, ht.trans hlog⟩
  | .ret (.failed _), hi | .ret .tornDown, hi | .lock _, hi | .subscribe, hi | .stop, hi
  | .takeHold, hi | .wait, hi | .returned _, hi => exact hidle hi

theorem Phase.quiet (hp : Phase s c pc) (h : Quiet s s') : Phase s' c pc :=
  hp.imp h.log (fun _ => h.streamStates) (fun hi => hi.quiet h) (fun _ hw => hw.quiet h)
    fun ha hctl => ⟨h.askers.trans ha, h.control.trans hctl⟩

namespace Paired

/-- Either nobody has the mutex, or one call at some statement has. -/
theorem cases (hs : Sound s) (hi : Paired s) :
    s.mutex = none ∧ Idle s ∨
      ∃ c pc, s.mutex = some c ∧ s.calls[c]? = some pc ∧ pc.locks ∧ Phase s c pc := by
  cases hm : s.mutex with
  | none => exact .inl ⟨rfl, hi.free hm⟩
  | some c =>
      obtain ⟨pc, hc, hpc⟩ := (hs.mutex c).mp hm
      exact .inr ⟨c, pc, rfl, hc, hpc, hi.held c pc hm hc⟩

/-- Steps of the worker, or of the world around the session, that keep the
phase of every call. -/
theorem frame (hi : Paired s) (hmutex : s'.mutex = s.mutex) (hcalls : s'.calls = s.calls)
    (hlog : s.log.Sublist s'.log) (hidle : Idle s → Idle s')
    (hphase : ∀ c pc, s.mutex = some c → s.calls[c]? = some pc → Phase s c pc → Phase s' c pc)
    (hflag : s'.worker.needStreamState = !s'.askers.isEmpty)
    (hreading : ∀ st packet, s'.worker.pc = .reply st packet →
      s'.askers ≠ [] ∧ ∀ c, s'.askers = [c] → (.read [c] st :: taken c).Sublist s'.log)
    (hsent : ∀ c, .sentPlay c ∈ s'.log → .sentPlay c ∈ s.log)
    (hqueued : ∀ c, (c, .play) ∈ s'.control → .sentPlay c ∈ s'.log)
    (htook : ∀ c, .tookPlay c ∈ s'.log → [.tookPlay c, .sentPlay c].Sublist s'.log) :
    Paired s' where
  free hm := hidle (hi.free (hmutex ▸ hm))
  held c pc hm hc := by
    rw [hmutex] at hm
    rw [hcalls] at hc
    exact hphase c pc hm hc (hi.held c pc hm hc)
  flag := hflag
  reading := hreading
  done c st hc := (hi.done c st (hcalls ▸ hc)).trans hlog
  sentPlay c hc := (hi.sentPlay c (hsent c hc)).imp fun _ h => h.trans hlog
  queued := hqueued
  tookPlay := htook

/-- A step of the loop that adds `new` to the log and leaves requests and
answers alone. -/
theorem quiet (new : List Occurrence) (hi : Paired s) (hmutex : s'.mutex = s.mutex)
    (hcalls : s'.calls = s.calls) (hq : Quiet s s') (hlog : s'.log = new ++ s.log)
    (hnew : ∀ c, .sentPlay c ∉ new ∧ .tookPlay c ∉ new)
    (hneed : s'.worker.needStreamState = s.worker.needStreamState)
    (hreading : ∀ st packet, s'.worker.pc = .reply st packet →
      s'.askers ≠ [] ∧ ∀ c, s'.askers = [c] → (.read [c] st :: taken c).Sublist s'.log) :
    Paired s' := by
  refine hi.frame hmutex hcalls hq.log (fun h => h.quiet hq) (fun _ _ _ _ hp => hp.quiet hq) ?_
    hreading (fun c hc => ?_) (fun c hc => ?_) fun c hc => ?_
  · rw [hneed, hq.askers]
    exact hi.flag
  · rw [hlog] at hc
    exact (List.mem_append.mp hc).resolve_left (hnew c).1
  · rw [hlog]
    exact List.mem_append_right _ (hi.queued c (hq.control ▸ hc))
  · rw [hlog] at hc
    exact (hi.tookPlay c ((List.mem_append.mp hc).resolve_left (hnew c).2)).trans hq.log

/-- The trail of the requests a worker has taken. -/
theorem trail_of_askers (hs : Sound s) (hi : Paired s) (h : s.askers = [c]) :
    (taken c).Sublist s.log := by
  rcases hi.cases hs with ⟨-, hidle⟩ | ⟨d, pc, -, -, -, hphase⟩
  · simp [hidle.askers] at h
  · rcases hphase.cases with hidle | ⟨rx, -, hw⟩ | ⟨st, -, ha, -⟩
    · simp [hidle.askers] at h
    · cases hw with
      | queued _ ha _ _ _ _ _ | lost ha _ _ _ | answered _ ha _ _ _ _ _ => simp [ha] at h
      | taken ha _ _ ht =>
          obtain rfl : d = c := by simpa [h] using ha.symm
          exact ht
    · simp [ha] at h

/-! ## Steps of the worker -/

/-- A step of the loop that leaves requests and answers alone. -/
theorem still {w : Worker V} (new : List Occurrence) (hi : Paired s)
    (hnew : ∀ c, .sentPlay c ∉ new ∧ .tookPlay c ∉ new)
    (hneed : w.needStreamState = s.worker.needStreamState)
    (hreply : ∀ st packet, w.pc ≠ .reply st packet) :
    Paired { s with worker := w, log := new ++ s.log } :=
  hi.quiet new rfl rfl ⟨rfl, rfl, rfl, rfl, List.sublist_append_right ..⟩ rfl hnew hneed
    fun st packet h => absurd h (hreply st packet)

theorem packet {r : Except RecvError V.Packet} (hs : Sound s) (hi : Paired s)
    (hpc : s.worker.pc = .select) :
    Paired { s with worker := s.worker.onPacket r, log := s.packetLog r ++ s.log } := by
  refine hi.quiet (s.packetLog r) rfl rfl ⟨rfl, rfl, rfl, rfl, List.sublist_append_right ..⟩ rfl
    (fun c => ?_) (Worker.onPacket_need _ _) fun st bufs hr => ?_
  · refine ⟨fun h => ?_, fun h => ?_⟩
    · cases ofWorker_of_packetLog _ h
    · match r with
      | .error _ => cases h
      | .ok packet =>
          simp only [packetLog, muxLog] at h
          split at h
          · cases h
          · split at h <;> cases hm : (V.mux s.worker.muxer packet).2 <;> simp [hm] at h
  · obtain ⟨packet, rfl, hskip, hneed, hst, -⟩ := Worker.onPacket_reply hpc hr
    have hask : s.askers ≠ [] := by
      have := hi.flag
      rw [hneed] at this
      simpa using this
    refine ⟨hask, fun c hc => ?_⟩
    have htrail := hi.trail_of_askers hs hc
    simp only [packetLog, muxLog, hskip, hneed, hst]
    rw [show s.askers = [c] from hc]
    exact .cons_cons _ (htrail.trans (List.sublist_append_right ..))

/-- A request in the channel is the one of the holder, and the last message. -/
theorem holder_of_request {control : List (Nat × SessionControlMessage)} (hs : Sound s)
    (hi : Paired s) (hcontrol : s.control = (c, .streamState) :: control) :
    ∃ rx, s.mutex = some c ∧ s.calls[c]? = some (.recv rx) ∧ control = [] ∧ s.askers = [] ∧
      s.streamStates.length = rx ∧ [.requested c].Sublist s.log := by
  have hnot : ¬ Idle s := fun hidle => by
    have := hidle.plays (c, .streamState) (by simp [hcontrol])
    cases this
  rcases hi.cases hs with ⟨-, hidle⟩ | ⟨d, pc, hmutex, hd, -, hphase⟩
  · exact absurd hidle hnot
  · rcases hphase.cases with hidle | ⟨rx, rfl, hw⟩ | ⟨st, -, -, hctl⟩
    · exact absurd hidle hnot
    · cases hw with
      | taken _ hctl _ _ | lost _ hctl _ _ | answered _ _ hctl _ _ _ _ => simp [hcontrol] at hctl
      | queued plays ha hctl _ honly hu ht =>
          rw [hcontrol] at hctl
          cases plays with
          | nil =>
              simp only [List.nil_append, List.cons.injEq, Prod.mk.injEq, and_true] at hctl
              obtain ⟨rfl, hempty⟩ := hctl
              exact ⟨rx, hmutex, hd, hempty, ha, hu, ht⟩
          | cons m plays =>
              simp only [List.cons_append, List.cons.injEq] at hctl
              have := honly m List.mem_cons_self
              simp [← hctl.1] at this
    · simp [hcontrol] at hctl

theorem took {control : List (Nat × SessionControlMessage)} (hs : Sound s) (hi : Paired s)
    (hpc : s.worker.pc = .select) (hcontrol : s.control = (c, .streamState) :: control) :
    Paired { s with
      worker := s.worker.onControl (some .streamState), control,
      askers := s.askers ++ [c], log := .took c :: s.log } := by
  obtain ⟨rx, hmutex, hc, rfl, hask, hu, hlog⟩ := hi.holder_of_request hs hcontrol
  have hnot : ¬ Idle s := fun hidle => by
    have := hidle.plays (c, .streamState) (by simp [hcontrol])
    cases this
  refine hi.frame rfl rfl (List.sublist_cons_self ..) (fun hidle => absurd hidle hnot)
    ?_ ?_ ?_ ?_ ?_ ?_
  · intro d pc hd hpc _
    obtain rfl : c = d := Option.some.inj (hmutex.symm.trans hd)
    obtain rfl := Option.some.inj (hc.symm.trans hpc)
    exact .taken (by simp [hask]) rfl hu (.cons_cons _ hlog)
  · simp [Worker.onControl]
  · simp [Worker.onControl, hpc]
  · simp
  · simp
  · intro d hd
    exact (hi.tookPlay d (by simpa using hd)).trans (List.sublist_cons_self ..)

theorem takePlay {control : List (Nat × SessionControlMessage)} (hi : Paired s)
    (hpc : s.worker.pc = .select) (hcontrol : s.control = (c, .play) :: control) :
    Paired { s with
      worker := s.worker.onControl (some .play), control, log := .tookPlay c :: s.log } := by
  have hsent : .sentPlay c ∈ s.log := hi.queued c (by simp [hcontrol])
  have hidle : Idle s → Idle ({ s with
      worker := s.worker.onControl (some .play), control, log := .tookPlay c :: s.log }) :=
    fun hidle => by
      have hlength := hidle.length
      rw [hcontrol, List.length_cons] at hlength
      exact ⟨hidle.askers, Nat.le_of_lt hlength, fun m hm =>
        hidle.plays m (by rw [hcontrol]; exact List.mem_cons_of_mem _ hm)⟩
  refine hi.frame rfl rfl (List.sublist_cons_self ..) hidle ?_ ?_ ?_ ?_ ?_ ?_
  · intro d pc hd _ hphase
    refine hphase.imp (List.sublist_cons_self ..) (fun _ => rfl) hidle ?_ fun _ hctl => ?_
    · intro rx hw
      cases hw with
      | taken _ hctl _ _ | lost _ hctl _ _ | answered _ _ hctl _ _ _ _ => simp [hcontrol] at hctl
      | queued plays ha hctl hlen honly hu ht =>
          rw [hcontrol] at hctl
          cases plays with
          | nil => simp at hctl
          | cons m plays =>
              simp only [List.cons_append, List.cons.injEq] at hctl
              exact .queued plays ha hctl.2 (Nat.le_of_succ_le hlen)
                (fun m' hm' => honly m' (List.mem_cons_of_mem _ hm')) hu (.cons _ ht)
    · simp [hcontrol] at hctl
  · simpa [Worker.onControl] using hi.flag
  · simp [Worker.onControl, hpc]
  · simp
  · intro d hd
    exact List.mem_cons_of_mem _ (hi.queued d (by simp [hcontrol, show (d, _) ∈ control from hd]))
  · intro d hd
    rcases List.mem_cons.mp hd with heq | hd
    · obtain rfl : d = c := by simpa using heq
      exact .cons_cons _ (List.singleton_sublist.mpr hsent)
    · exact .cons _ (hi.tookPlay d hd)

theorem reply {packet : Option (List RtpBuf)} (hi : Paired s)
    (hpc : s.worker.pc = .reply st packet) :
    Paired { s with
      worker := { s.worker with needStreamState := false }.afterMux packet,
      streamStates := s.streamStates ++ [st], askers := [],
      log := .replied s.askers st :: s.log } := by
  obtain ⟨hask, hread⟩ := hi.reading st packet hpc
  have hnot : ¬ Idle s := fun hidle => hask hidle.askers
  refine hi.frame rfl rfl (List.sublist_cons_self ..) (fun hidle => absurd hidle hnot)
    ?_ ?_ ?_ ?_ ?_ ?_
  · intro d pc _ _ hphase
    refine hphase.imp (List.sublist_cons_self ..) (fun hidle => absurd hidle hnot)
      (fun hidle => absurd hidle hnot) ?_ fun ha _ => absurd ha hask
    intro rx hw
    cases hw with
    | queued _ ha _ _ _ _ _ | lost ha _ _ _ | answered _ ha _ _ _ _ _ => exact absurd ha hask
    | taken ha hctl hu _ =>
        refine .answered st rfl hctl s.streamStates rfl hu ?_
        simp only [ha, answered]
        exact .cons_cons _ (hread d ha)
  · simp
  · intro st'' packet'' h
    exact absurd h (Worker.afterMux_pc _ _ _ _)
  · simp
  · intro d hd
    exact List.mem_cons_of_mem _ (hi.queued d hd)
  · intro d hd
    exact .cons _ (hi.tookPlay d (by simpa using hd))

theorem exit {e : ExitStep} {todo : List ExitStep} (hi : Paired s) :
    Paired { s.exitStep e with life := .exiting todo } := by
  cases e with
  | dropContext | dropStreamStateTx | sendStopped =>
      exact hi.quiet [] rfl rfl ⟨rfl, rfl, rfl, rfl, .refl _⟩ rfl (by simp) rfl hi.reading
  | dropControlRx =>
      have hidle : Idle s → Idle { s.exitStep .dropControlRx with life := .exiting todo } :=
        fun hidle => ⟨hidle.askers, Nat.zero_le 1, nofun⟩
      refine hi.frame rfl rfl (.refl _) hidle ?_ hi.flag hi.reading (fun _ h => h) nofun hi.tookPlay
      intro d pc _ _ hphase
      refine hphase.imp (.refl _) (fun _ => rfl) hidle ?_ fun ha _ => ⟨ha, rfl⟩
      intro rx hw
      cases hw with
      | queued _ ha _ _ _ hu _ | lost ha _ hu _ => exact .lost ha rfl hu rfl
      | taken ha _ hu ht => exact .taken ha rfl hu ht
      | answered st ha _ earlier he hl ht => exact .answered st ha rfl earlier he hl ht

/-! ## Steps of the calls -/

/-- A step of call `c` that adds `new` to the log and leaves the worker alone. -/
theorem call {next : CallPc} (new : List Occurrence) (hi : Paired s)
    (hc : s.calls[c]? = some pc) (hcalls : s'.calls = s.calls.set c next)
    (hworker : s'.worker = s.worker) (haskers : s'.askers = s.askers) (hlog : s'.log = new ++ s.log)
    (hfree : s'.mutex = none → Idle s') (hmutex : ∀ d, s'.mutex = some d → d = c)
    (hphase : s'.mutex = some c → Phase s' c next)
    (hdone : ∀ st, next = .returned (.played st) →
      (.returned c (.played st) :: played c st).Sublist s'.log)
    (hsent : ∀ d, .sentPlay d ∈ new → ∃ st, (played d st).Sublist s'.log)
    (htook : ∀ d, .tookPlay d ∉ new)
    (hqueued : ∀ d, (d, .play) ∈ s'.control → .sentPlay d ∈ s'.log) : Paired s' := by
  have hsub : s.log.Sublist s'.log := hlog ▸ List.sublist_append_right ..
  refine ⟨hfree, fun d pc' hd hpc' => ?_, ?_, fun st packet hpc => ?_, fun d st hd => ?_,
    fun d hd => ?_, hqueued, fun d hd => ?_⟩
  · obtain rfl := hmutex d hd
    rw [hcalls, getElem?_set_of_some hc, if_pos rfl] at hpc'
    exact Option.some.inj hpc' ▸ hphase hd
  · rw [hworker, haskers]
    exact hi.flag
  · obtain ⟨hask, hread⟩ := hi.reading st packet (hworker ▸ hpc)
    rw [haskers]
    exact ⟨hask, fun d hd => (hread d hd).trans hsub⟩
  · rw [hcalls, getElem?_set_of_some hc] at hd
    split at hd
    next heq =>
      subst heq
      exact hdone st (Option.some.inj hd)
    next => exact (hi.done d st hd).trans hsub
  · rw [hlog] at hd
    rcases List.mem_append.mp hd with hd | hd
    · exact hsent d hd
    · exact (hi.sentPlay d hd).imp fun _ h => h.trans hsub
  · rw [hlog] at hd
    exact (hi.tookPlay d ((List.mem_append.mp hd).resolve_left (htook d))).trans hsub

/-- The same for a call that keeps the mutex. -/
theorem advance {next : CallPc} (new : List Occurrence) (hs : Sound s) (hi : Paired s)
    (hc : s.calls[c]? = some pc) (hpc : pc.locks) (hmutex : s'.mutex = s.mutex)
    (hcalls : s'.calls = s.calls.set c next)
    (hworker : s'.worker = s.worker) (haskers : s'.askers = s.askers) (hlog : s'.log = new ++ s.log)
    (hnext : ∀ o, next ≠ .returned o) (hphase : Phase s c pc → Phase s' c next)
    (hsent : ∀ d, .sentPlay d ∈ new → ∃ st, (played d st).Sublist s'.log)
    (htook : ∀ d, .tookPlay d ∉ new)
    (hqueued : ∀ d, (d, .play) ∈ s'.control → .sentPlay d ∈ s'.log) : Paired s' := by
  have hmine : s.mutex = some c := hs.mutex.holder hc hpc
  refine hi.call new hc hcalls hworker haskers hlog ?_ ?_ (fun _ => hphase (hi.held c pc hmine hc))
    (fun st h => absurd h (hnext _)) hsent htook hqueued
  · simp [hmutex, hmine]
  · intro d hd
    simpa [hmutex, hmine, eq_comm] using hd

theorem enter_phase (request : Request) (h : Idle s) : Phase s c (enter request) := by
  match request with
  | .play none | .teardown => exact h
  | .play (some range) => simp only [enter]; split <;> exact h

theorem lock {request : Request} (hi : Paired s) (hc : s.calls[c]? = some (.lock request))
    (hfree : s.mutex = none) : Paired ({ s with mutex := some c }.setCall c (enter request)) := by
  have hidle := hi.free hfree
  refine hi.call [] hc rfl rfl rfl rfl nofun (fun d hd => (Option.some.inj hd).symm) ?_ ?_
    (by simp) (by simp) hi.queued
  · exact fun _ => enter_phase request (s := { s with mutex := some c }.setCall c (enter request))
      ⟨hidle.askers, hidle.length, hidle.plays⟩
  · intro st h
    have := Sound.enter_locks request
    simp [h, CallPc.locks] at this

/-- An active call keeps the session. -/
theorem handle_of_active (hc : s.calls[c]? = some pc) (hpc : pc.active) : s.handle = true := by
  have : s.calls.any CallPc.active = true :=
    List.any_eq_true.mpr ⟨pc, List.mem_of_getElem? hc, hpc⟩
  simp [handle, this]

/-- The receiver of a call is at most one stream state behind, so it never
lags; and it finds a value only if that is the answer. -/
theorem recv_of_waiting {rx : Nat} {r : Broadcast.Received StreamState} {rx' : Nat}
    (hw : Waiting s c rx) (h : Broadcast.recv maxQueuedInfo s.streamStates rx = some (r, rx')) :
    ∃ st, r = .value st ∧ s.askers = [] ∧ s.control = [] ∧ (answered c st).Sublist s.log := by
  have hcap : maxQueuedInfo = 16 := rfl
  cases hw with
  | queued _ _ _ _ _ hu _ | taken _ _ hu _ | lost _ _ hu _ =>
      rw [Broadcast.recv_eq_none.mpr (Nat.le_of_eq hu)] at h
      cases h
  | answered st ha hctl earlier he hl ht =>
      have hlast : s.streamStates[rx]? = some st := by simp [he, ← hl]
      have hlength : s.streamStates.length ≤ rx + maxQueuedInfo := by simp [he, hl, hcap]
      rw [Broadcast.recv_of_getElem? hlast hlength] at h
      cases h
      exact ⟨st, rfl, ha, hctl, ht⟩

theorem called (hs : Sound s) (hi : Paired s) (hc : s.calls[c]? = some pc)
    (h : Called s s' c pc) : Paired s' := by
  cases h with
  | lock hfree h =>
      subst h
      exact hi.lock hc hfree
  | subscribe h =>
      subst h
      exact hi.advance [] hs hc rfl rfl rfl rfl rfl rfl (by simp)
        (fun hidle => ⟨⟨hidle.askers, hidle.length, hidle.plays⟩, rfl⟩) (by simp) (by simp)
        hi.queued
  | @request rx _ h =>
      subst h
      refine hi.advance [.requested c] hs hc rfl rfl rfl rfl rfl rfl (by simp) ?_ (by simp)
        (by simp) fun d hd => ?_
      · rintro ⟨hidle, hrx⟩
        exact .queued s.control hidle.askers rfl hidle.length hidle.plays hrx
          (List.singleton_sublist.mpr List.mem_cons_self)
      · refine List.mem_cons_of_mem _ (hi.queued d ?_)
        simpa [setCall, note, send] using hd
  | @received rx rx' st hr h =>
      subst h
      obtain ⟨st', heq, ha, hctl, ht⟩ :=
        recv_of_waiting (hi.held c _ (hs.mutex.holder hc rfl) hc) hr
      obtain rfl : st = st' := Broadcast.Received.value.inj heq
      exact hi.advance [.received c st] hs hc rfl rfl rfl rfl rfl rfl (by simp)
        (fun _ => ⟨ha, hctl, .cons_cons _ ht⟩) (by simp) (by simp)
        fun d hd => List.mem_cons_of_mem _ (hi.queued d hd)
  | lagged hr _ =>
      obtain ⟨st, heq, -⟩ := recv_of_waiting (hi.held c _ (hs.mutex.holder hc rfl) hc) hr
      cases heq
  | closed _ hgone _ => simp [handle_of_active hc rfl] at hgone
  | @sendPlay st _ h =>
      subst h
      obtain ⟨ha, hctl, ht⟩ := hi.held c _ (hs.mutex.holder hc rfl) hc
      have hplayed : (played c st).Sublist (.sentPlay c :: s.log) := .cons_cons _ ht
      refine hi.advance [.sentPlay c] hs hc rfl rfl rfl rfl rfl rfl (by simp) (fun _ => ?_)
        (fun d hd => ?_) (by simp) fun d hd => ?_
      · refine ⟨⟨ha, by simp [setCall, note, send, hctl], ?_⟩, hplayed⟩
        simp [setCall, note, send, hctl]
      · obtain rfl : d = c := by simpa using hd
        exact ⟨st, hplayed⟩
      · obtain rfl : d = c := by simpa [setCall, note, send, hctl] using hd
        exact List.mem_cons_self
  | broken hpc _ h =>
      subst h
      rcases hpc with ⟨rx, rfl⟩ | ⟨st, rfl⟩
      · exact hi.advance [] hs hc rfl rfl rfl rfl rfl rfl (by simp)
          (fun h => ⟨h.1.askers, h.1.length, h.1.plays⟩) (by simp) (by simp) hi.queued
      · exact hi.advance [] hs hc rfl rfl rfl rfl rfl rfl (by simp)
          (fun h => ⟨h.1, by simp [setCall, h.2.1], by simp [setCall, h.2.1]⟩) (by simp)
          (by simp) hi.queued
  | stop _ h | wait _ h =>
      subst h
      exact hi.advance [] hs hc rfl rfl rfl rfl rfl rfl (by simp)
        (fun hidle => ⟨hidle.askers, hidle.length, hidle.plays⟩) (by simp) (by simp) hi.queued
  | takeHold h =>
      subst h
      refine hi.advance [] hs hc rfl rfl rfl rfl rfl rfl ?_ (fun hidle => ?_) (by simp)
        (by simp) hi.queued
      · split <;> simp
      · split <;> exact ⟨hidle.askers, hidle.length, hidle.plays⟩
  | @ret outcome h =>
      subst h
      have hphase := hi.held c _ (hs.mutex.holder hc rfl) hc
      have hidle : Idle s := by
        rcases hphase.cases with hidle | ⟨rx, heq, -⟩ | ⟨st, heq, -⟩
        · exact hidle
        · cases heq
        · cases heq
      refine hi.call [.returned c outcome] hc rfl rfl rfl rfl
        (fun _ => ⟨hidle.askers, hidle.length, hidle.plays⟩) (by simp [setCall, note])
        (by simp [setCall, note]) ?_ (by simp) (by simp)
        fun d hd => List.mem_cons_of_mem _ (hi.queued d hd)
      intro st heq
      obtain rfl : outcome = .played st := by simpa using heq
      exact .cons_cons _ hphase.2

/-- The new call is the last one and waits for the mutex. -/
theorem find {request : Request} (hs : Sound s) (hi : Paired s) :
    Paired { s with calls := s.calls ++ [.lock request] } := by
  have hget : ∀ (d : Nat) pc, (s.calls ++ [.lock request])[d]? = some pc → pc ≠ .lock request →
      s.calls[d]? = some pc := by
    intro d pc hd hne
    rcases List.getElem?_concat_eq_some hd with ⟨hd, -⟩ | ⟨-, heq⟩
    · exact hd
    · exact absurd heq hne
  refine ⟨fun hm => ?_, fun d pc hm hd => ?_, hi.flag, hi.reading, fun d st hd => ?_, hi.sentPlay,
    hi.queued, hi.tookPlay⟩
  · have hidle := hi.free hm
    exact ⟨hidle.askers, hidle.length, hidle.plays⟩
  · obtain ⟨pc', hd', hlocks⟩ := (hs.mutex d).mp hm
    have hlt : d < s.calls.length := (List.getElem?_eq_some_iff.mp hd').1
    rw [List.getElem?_append_left hlt] at hd
    exact (hi.held d pc hm hd).quiet ⟨rfl, rfl, rfl, rfl, .refl _⟩
  · exact hi.done d st (hget d _ hd nofun)

theorem step {a : Action V} (hs : Sound s) (hi : Paired s) (h : s.step a = some s') :
    Paired s' := by
  cases effect_of_step h with
  | find _ heq =>
      subst heq
      exact hi.find hs
  | disown _ heq | poll _ _ heq | stopAll heq | closeMedia _ heq =>
      subst heq
      exact hi.quiet [] rfl rfl ⟨rfl, rfl, rfl, rfl, .refl _⟩ rfl (by simp) rfl hi.reading
  | call hc hcalled => exact hi.called hs hc hcalled
  | @reset r _ hpc heq =>
      subst heq
      match r with
      | .ok (some _) => exact hi.still [.reset] (by simp) rfl (by simp [Worker.onReset, hpc])
      | .ok none | .error _ => exact hi.still [] (by simp) rfl (by simp [Worker.onReset, hpc])
  | packet _ hpc heq =>
      subst heq
      exact hi.packet hs hpc
  | took _ hpc hcontrol heq =>
      subst heq
      exact hi.took hs hpc hcontrol
  | tookPlay _ hpc hcontrol heq =>
      subst heq
      exact hi.takePlay hpc hcontrol
  | deserted _ _ _ heq =>
      subst heq
      exact hi.still [] (by simp) rfl (by simp)
  | waitForStop _ _ _ heq =>
      subst heq
      exact hi.quiet [] rfl rfl ⟨rfl, rfl, rfl, rfl, .refl _⟩ rfl (by simp) rfl (by simp)
  | reply _ hpc heq =>
      subst heq
      exact hi.reply hpc
  | @trySend r message rest _ _ _ heq =>
      subst heq
      cases r with
      | ok =>
          exact hi.still [.enqueued message] (by simp) (Worker.onTrySend_need _ _ _)
            (Worker.sendNext_pc _ _)
      | full | closed => exact hi.still [] (by simp) rfl (by simp [Worker.onTrySend])
  | exit _ heq =>
      subst heq
      exact hi.exit

end Paired

theorem paired_of_reachable (h : (system V).Reachable s) : Paired s :=
  h.invariant
    (by
      rintro _ ⟨target, muxer, accepted, stopAll, rfl⟩
      exact paired_setupAndStart target muxer accepted stopAll)
    fun _ _ _ hr hi hs => hi.step (sound_of_reachable hr) hs

end Session

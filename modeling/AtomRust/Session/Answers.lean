-- SUMMARY: Concurrent `play` calls do not mix up their answers, and the control channel stays short.
import AtomRust.Session.Pairing

/-!
# Answers

A request is counted where it is: in the control channel, with the worker, or
in the log as answered. `Counted` says that these never add up to more than the
requests made, of which every call makes at most one. Together with `Paired`,
which says whose answer is whose, this is the contract of `play`.
-/

open List (getElem?_set_of_some)
open Media (RtpBuf StreamState Video)
open Runtime (StopSource TaskState)

namespace Session
variable {V : Video} {s s' : Session V} {c : Nat} {pc : CallPc} {st : StreamState}

/-- The call has not sent a request yet. -/
def CallPc.unasked : CallPc → Bool
  | .lock _ | .subscribe | .request _ => true
  | _ => false

/-- Call `c` has not sent a request yet, or does not exist. -/
def Unasked (s : Session V) (c : Nat) : Prop :=
  ∀ pc, s.calls[c]? = some pc → pc.unasked

structure Counted (s : Session V) : Prop where
  requests : ∀ c, s.log.count (.requested c) ≤ 1
  fresh : ∀ c, Unasked s c → s.log.count (.requested c) = 0
  answers : ∀ c, s.log.countP (Occurrence.answers c) + s.askers.count c +
    s.control.count (c, .streamState) ≤ s.log.count (.requested c)

theorem counted_setupAndStart (target : SessionSetupTarget) (muxer : V.RtpMuxer) (accepted : Bool)
    (stopAll : List Unit) : Counted (setupAndStart target muxer accepted stopAll) := by
  constructor <;> simp [setupAndStart]

namespace Counted

/-- A step that makes no request. -/
theorem frame (new : List Occurrence) (hi : Counted s) (hlog : s'.log = new ++ s.log)
    (hnew : ∀ c, .requested c ∉ new) (hcalls : ∀ c, Unasked s' c → Unasked s c)
    (hmoved : ∀ c, new.countP (Occurrence.answers c) + s'.askers.count c +
      s'.control.count (c, .streamState) ≤
        s.askers.count c + s.control.count (c, .streamState)) : Counted s' := by
  have hcount : ∀ c, s'.log.count (.requested c) = s.log.count (.requested c) := fun c => by
    rw [hlog, List.count_append, List.count_eq_zero.mpr (hnew c), Nat.zero_add]
  refine ⟨fun c => hcount c ▸ hi.requests c, fun c hc => hcount c ▸ hi.fresh c (hcalls c hc),
    fun c => ?_⟩
  have hanswers := hi.answers c
  have hmoved := hmoved c
  rw [hcount, hlog, List.countP_append]
  omega

/-- A step that moves no request and no answer. -/
theorem still (new : List Occurrence) (hi : Counted s) (hlog : s'.log = new ++ s.log)
    (hnew : ∀ c, ∀ o ∈ new, o ≠ .requested c ∧ o.answers c = false)
    (hcalls : ∀ c, Unasked s' c → Unasked s c) (haskers : s'.askers = s.askers)
    (hcontrol : ∀ c, s'.control.count (c, .streamState) ≤ s.control.count (c, .streamState)) :
    Counted s' := by
  refine hi.frame new hlog (fun c h => (hnew c _ h).1 rfl) hcalls fun c => ?_
  have hzero : new.countP (Occurrence.answers c) = 0 :=
    List.countP_eq_zero.mpr fun o ho => by simp [(hnew c o ho).2]
  have := hcontrol c
  rw [hzero, haskers]
  omega

/-- The worker takes the request of call `c`. -/
theorem took {control : List (Nat × SessionControlMessage)} {w : Worker V} (hi : Counted s)
    (hcontrol : s.control = (c, .streamState) :: control) :
    Counted
      { s with worker := w, control, askers := s.askers ++ [c], log := .took c :: s.log } := by
  refine hi.frame [.took c] rfl (by simp) (fun _ h => h) fun d => ?_
  rw [hcontrol]
  by_cases hd : c = d
  · simp [Occurrence.answers, List.count_append, hd]
    omega
  · simp [Occurrence.answers, List.count_append, hd]

/-- The worker answers the requests it has taken. -/
theorem reply {w : Worker V} {streamStates : List StreamState} (hi : Counted s) :
    Counted { s with
      worker := w, streamStates, askers := [], log := .replied s.askers st :: s.log } := by
  refine hi.frame [.replied s.askers st] rfl (by simp) (fun _ h => h) fun c => ?_
  by_cases hc : c ∈ s.askers <;> simp [Occurrence.answers, hc]

/-- Muxing is no request and no answer. -/
theorem packetLog_still {r : Except RecvError V.Packet} (c : Nat) :
    ∀ o ∈ s.packetLog r, o ≠ .requested c ∧ o.answers c = false := by
  intro o ho
  refine ⟨?_, ?_⟩
  · rintro rfl
    cases ofWorker_of_packetLog _ ho
  · match r with
    | .error _ => cases ho
    | .ok packet =>
        simp only [packetLog, muxLog] at ho
        split at ho
        · cases ho
        · simp only [List.mem_append, Option.mem_toList, Option.map_eq_some_iff] at ho
          rcases ho with ho | ⟨bufs, -, rfl⟩
          · split at ho
            · obtain rfl := List.mem_singleton.mp ho
              rfl
            · cases ho
          · rfl

/-- A call that goes on to `next` was where `Unasked` holds if it still holds. -/
theorem unasked_of_set {next : CallPc} (hc : s.calls[c]? = some pc)
    (hcalls : s'.calls = s.calls.set c next) (hpc : next.unasked → pc.unasked) (d : Nat)
    (hd : Unasked s' d) : Unasked s d := by
  intro pc' hpc'
  by_cases heq : d = c
  · subst heq
    obtain rfl := Option.some.inj (hc.symm.trans hpc')
    exact hpc (hd next (by rw [hcalls, getElem?_set_of_some hc, if_pos rfl]))
  · exact hd pc' (by rw [hcalls, getElem?_set_of_some hc, if_neg heq, hpc'])

/-- A step of call `c` that is not its request. -/
theorem call {next : CallPc} (new : List Occurrence) (hi : Counted s)
    (hc : s.calls[c]? = some pc) (hcalls : s'.calls = s.calls.set c next)
    (hpc : next.unasked → pc.unasked) (hlog : s'.log = new ++ s.log)
    (hnew : ∀ d, ∀ o ∈ new, o ≠ .requested d ∧ o.answers d = false)
    (haskers : s'.askers = s.askers)
    (hcontrol : ∀ d, s'.control.count (d, .streamState) ≤ s.control.count (d, .streamState)) :
    Counted s' :=
  hi.still new hlog hnew (unasked_of_set hc hcalls hpc) haskers hcontrol

/-- The request of call `c`. -/
theorem request {rx : Nat} (hi : Counted s) (hc : s.calls[c]? = some (.request rx)) :
    Counted (((s.send c .streamState).note (.requested c)).setCall c (.recv rx)) := by
  have hnone : s.log.count (.requested c) = 0 :=
    hi.fresh c fun pc hpc => by
      obtain rfl := Option.some.inj (hc.symm.trans hpc)
      rfl
  refine ⟨fun d => ?_, fun d hd => ?_, fun d => ?_⟩
  · by_cases hd : c = d
    · subst hd
      simp [setCall, note, send, hnone]
    · simpa [setCall, note, send, hd] using hi.requests d
  · have hne : c ≠ d := by
      rintro rfl
      have := hd (.recv rx) (by simp [setCall, note, send, getElem?_set_of_some hc])
      cases this
    have := hi.fresh d (unasked_of_set hc rfl (fun _ => rfl) d hd)
    simpa [setCall, note, send, hne] using this
  · have := hi.answers d
    by_cases hd : c = d
    · subst hd
      simp [setCall, note, send, Occurrence.answers] at this ⊢
      omega
    · simpa [setCall, note, send, Occurrence.answers, hd] using this

theorem called (hi : Counted s) (hc : s.calls[c]? = some pc) (h : Called s s' c pc) :
    Counted s' := by
  cases h with
  | lock _ h | subscribe h =>
      subst h
      exact hi.call [] hc rfl (fun _ => rfl) rfl (by simp) rfl fun _ => Nat.le_refl _
  | request _ h =>
      subst h
      exact hi.request hc
  | @received _ _ st _ h =>
      subst h
      exact hi.call [.received c st] hc rfl (by simp [CallPc.unasked]) rfl
        (by simp [Occurrence.answers]) rfl fun _ => Nat.le_refl _
  | lagged _ h | closed _ _ h | broken _ _ h | stop _ h | wait _ h =>
      subst h
      exact hi.call [] hc rfl (by simp [CallPc.unasked]) rfl (by simp) rfl fun _ => Nat.le_refl _
  | sendPlay _ h =>
      subst h
      exact hi.call [.sentPlay c] hc rfl (by simp [CallPc.unasked]) rfl
        (by simp [Occurrence.answers]) rfl fun d => by simp [setCall, note, send]
  | takeHold h =>
      subst h
      refine hi.call [] hc rfl ?_ rfl (by simp) rfl fun _ => Nat.le_refl _
      split <;> simp [CallPc.unasked]
  | @ret outcome h =>
      subst h
      exact hi.call [.returned c outcome] hc rfl (by simp [CallPc.unasked]) rfl
        (by simp [Occurrence.answers]) rfl fun _ => Nat.le_refl _

theorem step {a : Action V} (hi : Counted s) (h : s.step a = some s') : Counted s' := by
  cases effect_of_step h with
  | find _ heq =>
      subst heq
      refine hi.still [] rfl (by simp) (fun c hc pc hpc => hc pc ?_) rfl fun _ => Nat.le_refl _
      rw [List.getElem?_append_of_some hpc]
  | disown _ heq | poll _ _ heq | deserted _ _ _ heq | waitForStop _ _ _ heq | stopAll heq
  | closeMedia _ heq =>
      subst heq
      exact hi.still [] rfl (by simp) (fun _ h => h) rfl fun _ => Nat.le_refl _
  | call hc hcalled => exact hi.called hc hcalled
  | @reset r _ _ heq =>
      subst heq
      refine hi.still (resetLog r) rfl ?_ (fun _ h => h) rfl fun _ => Nat.le_refl _
      match r with
      | .ok (some _) => simp [resetLog, Occurrence.answers]
      | .ok none | .error _ => simp [resetLog]
  | @packet r _ _ heq =>
      subst heq
      exact hi.still (s.packetLog r) rfl packetLog_still (fun _ h => h) rfl fun _ => Nat.le_refl _
  | took _ _ hcontrol heq =>
      subst heq
      exact hi.took hcontrol
  | @tookPlay c _ _ _ hcontrol heq =>
      subst heq
      refine hi.still [.tookPlay c] rfl (by simp [Occurrence.answers]) (fun _ h => h) rfl
        fun d => ?_
      rw [hcontrol]
      exact List.count_le_count_cons ..
  | reply _ _ heq =>
      subst heq
      exact hi.reply
  | @trySend r message _ _ _ _ heq =>
      subst heq
      refine hi.still (trySendLog message r) rfl ?_ (fun _ h => h) rfl fun _ => Nat.le_refl _
      cases r <;> simp [trySendLog, Occurrence.answers]
  | @exit e _ _ heq =>
      subst heq
      cases e with
      | dropContext | dropStreamStateTx | sendStopped =>
          exact hi.still [] rfl (by simp) (fun _ h => h) rfl fun _ => Nat.le_refl _
      | dropControlRx =>
          exact hi.still [] rfl (by simp) (fun _ h => h) rfl fun _ => Nat.zero_le _

end Counted

theorem counted_of_reachable (h : (system V).Reachable s) : Counted s :=
  h.invariant
    (by
      rintro _ ⟨target, muxer, accepted, stopAll, rfl⟩
      exact counted_setupAndStart target muxer accepted stopAll)
    fun _ _ _ _ hi hs => hi.step hs

/-! ## The contract of `play` -/

theorem Phase.control_length (hp : Phase s c pc) : s.control.length ≤ 2 := by
  rcases hp.cases with hi | ⟨rx, -, hw⟩ | ⟨st, -, -, hctl⟩
  · exact Nat.le_succ_of_le hi.length
  · cases hw with
    | queued _ _ hctl hlen _ _ _ =>
        rw [hctl, List.length_append]
        simpa using hlen
    | taken _ hctl _ _ | lost _ hctl _ _ | answered _ _ hctl _ _ _ _ => simp [hctl]
  · simp [hctl]

/-- What the callers of `play` can rely on. -/
structure PlayContract (s : Session V) : Prop where
  /-- A call makes at most one request, and a request gets at most one answer. -/
  once : ∀ c, s.log.countP (Occurrence.answers c) ≤ s.log.count (.requested c) ∧
    s.log.count (.requested c) ≤ 1
  /-- A call that returns a stream state received it after the worker had taken
  its request, and no other, had read the muxer for it and sent what it read. -/
  own : ∀ (c : Nat) st, s.calls[c]? = some (.returned (.played st)) →
    [.returned c (.played st), .sentPlay c, .received c st, .replied [c] st, .read [c] st, .took c,
      .requested c].Sublist s.log
  /-- No receiver lags. -/
  current : ∀ (c : Nat) rx, s.calls[c]? = some (.recv rx) → ∀ skipped rx',
    Broadcast.recv maxQueuedInfo s.streamStates rx ≠ some (.lagged skipped, rx')
  /-- A `Play` message follows the answer to the request of its own call. -/
  ordered : ∀ c, .sentPlay c ∈ s.log → ∃ st,
    [.sentPlay c, .received c st, .replied [c] st, .read [c] st, .took c,
      .requested c].Sublist s.log
  queued : ∀ c, (c, .play) ∈ s.control → .sentPlay c ∈ s.log
  tookPlay : ∀ c, .tookPlay c ∈ s.log → [.tookPlay c, .sentPlay c].Sublist s.log
  /-- The control channel holds at most two messages. -/
  short : s.control.length ≤ 2

theorem control_length (hs : Sound s) (hp : Paired s) : s.control.length ≤ 2 := by
  rcases hp.cases hs with ⟨-, hidle⟩ | ⟨c, pc, -, -, -, hphase⟩
  · exact Nat.le_succ_of_le hidle.length
  · exact hphase.control_length

/-- Concurrent PLAYs do not mix up their answers. -/
theorem play_answers (h : (system V).Reachable s) : PlayContract s where
  once c := by
    have := (counted_of_reachable h).answers c
    exact ⟨by omega, (counted_of_reachable h).requests c⟩
  own := (paired_of_reachable h).done
  current c rx hrx skipped rx' hlag := by
    have hw : Waiting s c rx :=
      (paired_of_reachable h).held c _ ((sound_of_reachable h).mutex.holder hrx rfl) hrx
    obtain ⟨st, heq, -⟩ := Paired.recv_of_waiting hw hlag
    cases heq
  ordered := (paired_of_reachable h).sentPlay
  queued := (paired_of_reachable h).queued
  tookPlay := (paired_of_reachable h).tookPlay
  short := control_length (sound_of_reachable h) (paired_of_reachable h)

/-- Two calls that find the session together. The second one asks while the
`Play` message of the first is still in the channel. -/
def twoPlays : List (Action .counting) :=
  [.poll, .find (.play none), .find (.play none),
    .call 0, .call 0, .call 0, .takeControl, .packet (.ok true), .reply, .call 0, .call 0, .call 0,
    .call 1, .call 1, .call 1, .takeControl, .takeControl, .packet (.ok true), .reply, .trySend .ok,
    .call 1, .call 1, .call 1]

theorem play_answers_twoPlays :
    ∃ s, Transition.run step (setupAndStart .rtpTcp (65535 : UInt16) true []) twoPlays = some s ∧
      s.calls = [.returned (.played ⟨0, 0⟩), .returned (.played ⟨1, 0⟩)] ∧
      PlayContract (V := .counting) s := by
  obtain ⟨s, hs, hcalls⟩ : ∃ s, Transition.run step
      (setupAndStart (V := .counting) .rtpTcp (65535 : UInt16) true []) twoPlays = some s ∧
      s.calls = [.returned (.played ⟨0, 0⟩), .returned (.played ⟨1, 0⟩)] := ⟨_, rfl, rfl⟩
  exact ⟨s, hs, hcalls, play_answers ⟨_, twoPlays, ⟨_, _, _, _, rfl⟩, hs⟩⟩

end Session

-- SUMMARY: What it takes to make a session play: a `Play` message of a call that returns a stream state.
import AtomRust.Session.Steps

/-!
# Playback

A session sends media only in the Playing state, is in that state only after a
`Play` message, and gets such a message only from a call of `play` that has its
stream state and returns it. `Calls` is what any step does to the calls and to
the log; the invariant `Started` follows from it.
-/

open List (getElem?_set_of_some)
open Media (RtpBuf StreamState Video)
open Runtime (StopSource TaskState)

namespace Session
variable {V : Video} {s s' : Session V} {c : Nat} {pc next : CallPc} {st : StreamState}
  {a : Action V}

/-! ## The worker -/

theorem Worker.afterMux_sending {w : Worker V} {bufs : Option (List RtpBuf)} {message : RtpBuf}
    {rest : List RtpBuf} (h : (w.afterMux bufs).pc = .send message rest) : w.state = .playing := by
  cases bufs with
  | none => cases h
  | some bufs =>
      simp only [afterMux] at h
      split at h
      next hplay => exact hplay
      next => cases h

/-- The worker turns to sending only in the Playing state. -/
theorem Worker.sending_step {w w' : Worker V} {e : Event V} {message : RtpBuf} {rest : List RtpBuf}
    (h : w.step e = some w') (hw : w'.pc = .send message rest)
    (hsending : ∀ message rest, w.pc = .send message rest → w.state = .playing) :
    w'.state = .playing := by
  match e with
  | .reset r =>
      obtain ⟨hpc, rfl⟩ := step_reset.mp h
      match r with
      | .ok (some _) | .ok none => simp [onReset, hpc] at hw
      | .error _ => simp [onReset] at hw
  | .packet (.ok packet) =>
      obtain ⟨hpc, rfl⟩ := step_packet.mp h
      simp only [onPacket] at hw ⊢
      split at hw
      · simp [hpc] at hw
      next hskip =>
        rw [if_neg hskip, mux_state]
        unfold mux at hw
        dsimp only at hw
        split at hw
        · cases hw
        · simpa using afterMux_sending hw
  | .packet (.error (.lagged _)) =>
      obtain ⟨hpc, rfl⟩ := step_packet.mp h
      simp [onPacket, hpc] at hw
  | .packet (.error .closed) =>
      obtain ⟨-, rfl⟩ := step_packet.mp h
      simp [onPacket] at hw
  | .control r =>
      obtain ⟨hpc, rfl⟩ := step_control.mp h
      cases r with
      | none => simp [onControl] at hw
      | some message => cases message <;> simp [onControl, hpc] at hw
  | .stop =>
      obtain ⟨-, rfl⟩ := step_stop.mp h
      simp at hw
  | .reply =>
      obtain ⟨st, packet, -, rfl⟩ := step_reply.mp h
      simpa using afterMux_sending hw
  | .trySend r =>
      obtain ⟨message', rest', hpc, rfl⟩ := step_trySend.mp h
      have hplay := hsending message' rest' hpc
      cases r with
      | ok => simpa [onTrySend] using hplay
      | full => exact hplay
      | closed => exact hplay

/-- Only a `Play` message changes the media state, and only to Playing. -/
theorem Worker.state_step {w w' : Worker V} {e : Event V} (h : w.step e = some w') :
    w'.state = w.state ∨ e = .control (some .play) := by
  match e with
  | .reset r =>
      obtain ⟨-, rfl⟩ := step_reset.mp h
      match r with
      | .ok (some _) | .ok none | .error _ => exact .inl rfl
  | .packet r =>
      obtain ⟨-, rfl⟩ := step_packet.mp h
      exact .inl (onPacket_state w r)
  | .control (some .play) => exact .inr rfl
  | .control (some .streamState) | .control none =>
      obtain ⟨-, rfl⟩ := step_control.mp h
      exact .inl rfl
  | .stop =>
      obtain ⟨-, rfl⟩ := step_stop.mp h
      exact .inl rfl
  | .reply =>
      obtain ⟨st, packet, -, rfl⟩ := step_reply.mp h
      exact .inl (afterMux_state _ _)
  | .trySend r =>
      obtain ⟨message, rest, -, rfl⟩ := step_trySend.mp h
      cases r with
      | ok => exact .inl (sendNext_state _ _)
      | full | closed => exact .inl rfl

/-! ## Calls of `play` -/

def Request.isPlay : Request → Bool
  | .play _ => true
  | .teardown => false

def Outcome.isPlay : Outcome → Bool
  | .played _ | .failed _ => true
  | .tornDown => false

/-- The call is one of `play`. -/
def CallPc.isPlay : CallPc → Bool
  | .lock r => r.isPlay
  | .subscribe | .request _ | .recv _ | .sendPlay _ => true
  | .stop | .takeHold | .wait => false
  | .ret outcome | .returned outcome => outcome.isPlay

/-- The call has sent `Play`, and returns `st` or has done so. -/
def CallPc.Played (st : StreamState) (pc : CallPc) : Prop :=
  pc = .ret (.played st) ∨ pc = .returned (.played st)

theorem CallPc.Played.isPlay (h : pc.Played st) : pc.isPlay := by
  rcases h with rfl | rfl <;> rfl

theorem enter_isPlay (request : Request) : (enter request).isPlay = request.isPlay := by
  match request with
  | .play none | .teardown => rfl
  | .play (some range) => simp only [enter]; split <;> rfl

/-- Call `c` moves on from `pc` to `next`. -/
structure Advance (s s' : Session V) (c : Nat) (pc next : CallPc) : Prop where
  caller : Caller s s' c
  calls : s'.calls = s.calls.set c next
  active : pc.active
  isPlay : next.isPlay = pc.isPlay
  played : ∀ st, pc.Played st → next.Played st
  sentPlay : ∀ d, .sentPlay d ∈ s'.log → .sentPlay d ∈ s.log ∨ d = c ∧ ∃ st, next.Played st

/-- A move to `next` that sends no `Play`. -/
theorem Advance.of_silent (h : Called s s' c pc) (hcalls : s'.calls = s.calls.set c next)
    (hactive : pc.active) (hplay : next.isPlay = pc.isPlay)
    (hplayed : ∀ st, pc.Played st → next.Played st)
    (hlog : ∀ d, .sentPlay d ∈ s'.log → .sentPlay d ∈ s.log) : Advance s s' c pc next :=
  ⟨h.caller, hcalls, hactive, hplay, hplayed, fun d hd => .inl (hlog d hd)⟩

theorem Called.advance (h : Called s s' c pc) : ∃ next, Advance s s' c pc next := by
  have hcalled := h
  cases h with
  | @lock request _ h =>
      subst h
      exact ⟨_, .of_silent hcalled rfl rfl (enter_isPlay request) (by simp [CallPc.Played])
        fun _ => id⟩
  | subscribe h | lagged _ h | closed _ _ h | stop _ h | wait _ h =>
      subst h
      exact ⟨_, .of_silent hcalled rfl rfl rfl (by simp [CallPc.Played]) fun _ => id⟩
  | request _ h | received _ h =>
      subst h
      refine ⟨_, .of_silent hcalled rfl rfl rfl (by simp [CallPc.Played]) fun d hd => ?_⟩
      simpa [setCall, note, send] using hd
  | @sendPlay st _ h =>
      subst h
      refine ⟨.ret (.played st), hcalled.caller, rfl, rfl, rfl, by simp [CallPc.Played],
        fun d hd => ?_⟩
      rcases List.mem_cons.mp hd with hd | hd
      · exact .inr ⟨by simpa using hd, st, .inl rfl⟩
      · exact .inl hd
  | broken hpc _ h =>
      subst h
      rcases hpc with ⟨rx, rfl⟩ | ⟨st, rfl⟩ <;>
        exact ⟨_, .of_silent hcalled rfl rfl rfl (by simp [CallPc.Played]) fun _ => id⟩
  | takeHold h =>
      subst h
      refine ⟨_, .of_silent hcalled rfl rfl ?_ (by simp [CallPc.Played]) fun _ => id⟩
      split <;> rfl
  | @ret outcome h =>
      subst h
      refine ⟨.returned outcome, .of_silent hcalled rfl rfl rfl (fun st hst => .inr ?_)
        fun d hd => ?_⟩
      · have : outcome = .played st := by simpa [CallPc.Played] using hst
        rw [this]
      · simpa [setCall, note] using hd

/-! ## Steps -/

/-- The event of the worker's loop that a step is. -/
theorem worker_of_step (h : s.step a = some s') :
    s'.worker = s.worker ∨ ∃ e, s.worker.step e = some s'.worker ∧
      (e = .control (some .play) → ∃ c, s'.log = .tookPlay c :: s.log) := by
  cases effect_of_step h with
  | find _ heq | disown _ heq | poll _ _ heq | stopAll heq | closeMedia _ heq =>
      subst heq
      exact .inl rfl
  | call _ hcalled => exact .inl hcalled.caller.worker
  | @exit e _ _ heq =>
      subst heq
      cases e <;> exact .inl rfl
  | reset _ hpc heq =>
      subst heq
      exact .inr ⟨_, Worker.step_reset.mpr ⟨hpc, rfl⟩, nofun⟩
  | packet _ hpc heq =>
      subst heq
      exact .inr ⟨_, Worker.step_packet.mpr ⟨hpc, rfl⟩, nofun⟩
  | took _ hpc _ heq =>
      subst heq
      exact .inr ⟨.control (some .streamState), Worker.step_control.mpr ⟨hpc, rfl⟩, nofun⟩
  | @tookPlay c _ _ hpc _ heq =>
      subst heq
      exact .inr ⟨.control (some .play), Worker.step_control.mpr ⟨hpc, rfl⟩, fun _ => ⟨c, rfl⟩⟩
  | deserted _ hpc _ heq =>
      subst heq
      exact .inr ⟨.control none, Worker.step_control.mpr ⟨hpc, rfl⟩, nofun⟩
  | waitForStop _ hpc _ heq =>
      subst heq
      exact .inr ⟨_, Worker.step_stop.mpr ⟨hpc, rfl⟩, nofun⟩
  | reply _ hpc heq =>
      subst heq
      exact .inr ⟨_, Worker.step_reply.mpr ⟨_, _, hpc, rfl⟩, nofun⟩
  | trySend _ hpc _ heq =>
      subst heq
      exact .inr ⟨_, Worker.step_trySend.mpr ⟨_, _, hpc, rfl⟩, nofun⟩

/-- What a step can do to the calls and to the log. -/
inductive Calls (s s' : Session V) : Action V → Prop where
  | find {request : Request} (calls : s'.calls = s.calls ++ [.lock request])
      (log : s'.log = s.log) : Calls s s' (.find request)
  | call {c : Nat} {pc next : CallPc} (hc : s.calls[c]? = some pc)
      (advance : Advance s s' c pc next) : Calls s s' (.call c)
  | other {a : Action V} (new : List Occurrence) (ha : ∀ request, a ≠ .find request)
      (calls : s'.calls = s.calls) (log : s'.log = new ++ s.log)
      (ofWorker : ∀ o ∈ new, o.ofWorker) : Calls s s' a

theorem Calls.step (h : s.step a = some s') : Calls s s' a := by
  cases effect_of_step h with
  | find _ heq =>
      subst heq
      exact .find rfl rfl
  | call hc hcalled =>
      obtain ⟨next, hadvance⟩ := hcalled.advance
      exact .call hc hadvance
  | disown _ heq | stopAll heq | closeMedia _ heq =>
      subst heq
      exact .other [] nofun rfl rfl nofun
  | poll | reset | packet | took | tookPlay | deserted | waitForStop | reply | trySend | exit =>
      have hown := Own.step rfl h
      obtain ⟨new, hlog, hnew⟩ := hown.log
      exact .other new nofun hown.calls hlog hnew

namespace Calls

/-- The log only grows. -/
theorem log (h : Calls s s' a) : s.log <:+ s'.log := by
  cases h with
  | find _ log => exact log ▸ List.suffix_rfl
  | call _ advance =>
      obtain ⟨new, hlog, -⟩ := advance.caller.log
      exact hlog ▸ List.suffix_append new s.log
  | other new _ _ log _ => exact log ▸ List.suffix_append new s.log

/-- What call `c` is after a step, if it was at `pc` before. -/
theorem moved (h : Calls s s' a) (hc : s.calls[c]? = some pc) :
    ∃ next, s'.calls[c]? = some next ∧ (next = pc ∨ Advance s s' c pc next) := by
  cases h with
  | find calls _ =>
      have hlt := (List.getElem?_eq_some_iff.mp hc).1
      exact ⟨pc, by rw [calls, List.getElem?_append_left hlt, hc], .inl rfl⟩
  | @call d old next hd advance =>
      rw [advance.calls, getElem?_set_of_some hd]
      split
      next heq =>
        subst heq
        obtain rfl : old = pc := Option.some.inj (hd.symm.trans hc)
        exact ⟨next, rfl, .inr advance⟩
      next => exact ⟨pc, hc, .inl rfl⟩
  | other _ _ calls _ _ => exact ⟨pc, by rw [calls, hc], .inl rfl⟩

/-- Where a call that is at `next` after a step comes from. -/
theorem origin (h : Calls s s' a) (hc : s'.calls[c]? = some next) :
    (∃ pc, s.calls[c]? = some pc ∧ (next = pc ∨ Advance s s' c pc next)) ∨
      ∃ request, a = .find request ∧ c = s.calls.length ∧ next = .lock request := by
  by_cases hlt : c < s.calls.length
  · have hget : s.calls[c]? = some s.calls[c] := List.getElem?_eq_getElem hlt
    obtain ⟨next', hnext, hmoved⟩ := h.moved hget
    obtain rfl : next = next' := Option.some.inj (hc.symm.trans hnext)
    exact .inl ⟨_, hget, hmoved⟩
  · cases h with
    | @find request calls _ =>
        rw [calls] at hc
        obtain ⟨hlength, hnext⟩ :=
          (List.getElem?_concat_eq_some hc).resolve_left fun h => hlt h.2
        exact .inr ⟨request, rfl, hlength, hnext⟩
    | call hd advance =>
        have := (List.getElem?_eq_some_iff.mp hc).1
        rw [advance.calls, List.length_set] at this
        exact absurd this hlt
    | other _ _ calls _ _ =>
        rw [calls] at hc
        exact absurd (List.getElem?_eq_some_iff.mp hc).1 hlt

/-- A `Play` message is sent by a call of `play` that returns a stream state. -/
theorem sentPlay (h : Calls s s' a) (hc : .sentPlay c ∈ s'.log) :
    .sentPlay c ∈ s.log ∨ ∃ pc next st, s.calls[c]? = some pc ∧ s'.calls[c]? = some next ∧
      Advance s s' c pc next ∧ next.Played st := by
  cases h with
  | find _ log => exact .inl (log ▸ hc)
  | @call d old next hd advance =>
      apply (advance.sentPlay c hc).imp_right
      rintro ⟨rfl, st, hst⟩
      exact ⟨old, next, st, hd, by rw [advance.calls, getElem?_set_of_some hd, if_pos rfl],
        advance, hst⟩
  | other _ _ _ log ofWorker =>
      rw [log] at hc
      refine .inl ((List.mem_append.mp hc).resolve_left fun hmem => ?_)
      cases ofWorker _ hmem

end Calls

/-- The session comes to the Playing state by taking a `Play` message. -/
theorem playing_of_step (h : s.step a = some s') (hplay : s'.worker.state = .playing) :
    s.worker.state = .playing ∨ ∃ c, s'.log = .tookPlay c :: s.log := by
  rcases worker_of_step h with hworker | ⟨e, he, hlog⟩
  · exact .inl (hworker ▸ hplay)
  · rcases Worker.state_step he with hstate | heq
    · exact .inl (hstate ▸ hplay)
    · exact .inr (hlog heq)

/-! ## The invariant -/

/-- What precedes the Playing state, and what follows a `Play` message. -/
structure Started (s : Session V) : Prop where
  playing : s.worker.state = .playing → ∃ c, .tookPlay c ∈ s.log
  sending : ∀ message rest, s.worker.pc = .send message rest → s.worker.state = .playing
  granted : ∀ c, .sentPlay c ∈ s.log → ∃ st pc, s.calls[c]? = some pc ∧ pc.Played st

theorem Started.step (hi : Started s) (h : s.step a = some s') : Started s' := by
  have hcalls := Calls.step h
  refine ⟨fun hplay => ?_, fun message rest hpc => ?_, fun c hc => ?_⟩
  · rcases playing_of_step h hplay with hplay | ⟨c, hlog⟩
    · obtain ⟨c, hc⟩ := hi.playing hplay
      exact ⟨c, hcalls.log.subset hc⟩
    · exact ⟨c, by simp [hlog]⟩
  · rcases worker_of_step h with hworker | ⟨e, he, -⟩
    · rw [hworker] at hpc ⊢
      exact hi.sending message rest hpc
    · exact Worker.sending_step he hpc hi.sending
  · rcases hcalls.sentPlay hc with hc | hsent
    · obtain ⟨st, pc, hget, hp⟩ := hi.granted c hc
      obtain ⟨next, hnext, rfl | hadvance⟩ := hcalls.moved hget
      · exact ⟨st, next, hnext, hp⟩
      · exact ⟨st, next, hnext, hadvance.played st hp⟩
    · obtain ⟨_, next, st, _, hnext, _, hp⟩ := hsent
      exact ⟨st, next, hnext, hp⟩

theorem started_of_reachable (h : (system V).Reachable s) : Started s := by
  refine h.invariant ?_ fun _ _ _ _ hi hs => hi.step hs
  rintro _ ⟨target, muxer, accepted, stopAll, rfl⟩
  exact ⟨nofun, nofun, nofun⟩

end Session

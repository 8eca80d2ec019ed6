-- SUMMARY: `SessionManager::stop`: what it leaves of the sessions and of the map, and that it stays so.
import AtomRust.Session.Registry

/-!
# Stopping the session manager

`stop` waits for the worker, and then tears down what is left in the map. A session may
have left the map before: on its own notice, or on that of an earlier session which had
the same id. Either way nobody holds it when `stop` returns, and a worker that nobody
holds leaves its loop at the next `select!`.
-/

open Media (Video)
open Runtime (StopSource TaskState)
open List (getElem?_append_of_some getElem?_concat_eq_some getElem?_set_of_some)

namespace Session
variable {V : Video} {s s' : Session V} {a : Action V} {c : Nat} {pc pc' : CallPc}

/-! ## Calls -/

/-- A call of `teardown`, wherever it stands. -/
def CallPc.tears : CallPc → Bool
  | .lock .teardown | .stop | .takeHold | .wait | .ret .tornDown | .returned .tornDown => true
  | _ => false

/-- A step changes the calls in one place at most, unless it is a new call. -/
theorem calls_of_step (h : s.step a = some s') :
    s'.calls = s.calls ∨ (∃ request, a = .find request ∧ s'.calls = s.calls ++ [.lock request]) ∨
      ∃ d old new, s.calls[d]? = some old ∧ old.active ∧ (old.tears → new.tears) ∧
        s'.calls = s.calls.set d new := by
  cases effect_of_step h with
  | find _ heq => exact .inr (.inl ⟨_, rfl, by rw [heq]⟩)
  | @call d pc hc hcalled =>
      refine .inr (.inr ⟨d, pc, ?_⟩)
      cases hcalled with
      | @lock request _ heq =>
          refine ⟨_, hc, rfl, ?_, by rw [heq]; rfl⟩
          cases request with
          | play => exact nofun
          | teardown => exact fun _ => rfl
      | subscribe heq | request _ heq | received _ heq | lagged _ heq | closed _ _ heq
      | sendPlay _ heq => exact ⟨_, hc, rfl, nofun, by rw [heq]; rfl⟩
      | broken hpc _ heq =>
          rcases hpc with ⟨rx, rfl⟩ | ⟨st, rfl⟩ <;> exact ⟨_, hc, rfl, nofun, by rw [heq]; rfl⟩
      | stop _ heq | wait _ heq => exact ⟨_, hc, rfl, fun _ => rfl, by rw [heq]; rfl⟩
      | takeHold heq =>
          refine ⟨_, hc, rfl, fun _ => ?_, by rw [heq]; rfl⟩
          split <;> rfl
      | @ret outcome heq =>
          refine ⟨_, hc, rfl, ?_, by rw [heq]; rfl⟩
          cases outcome with
          | tornDown => exact id
          | played | failed => exact nofun
  | disown _ heq | stopAll heq | closeMedia _ heq | poll _ _ heq =>
      exact .inl (by rw [heq])
  | reset | packet | took | tookPlay | deserted | waitForStop | reply | trySend =>
      exact .inl (Loop.step rfl h).calls
  | exit => exact .inl (Own.step rfl h).calls

theorem tears_of_step (h : s.step a = some s') (hc : s.calls[c]? = some pc) (htears : pc.tears) :
    ∃ pc', s'.calls[c]? = some pc' ∧ pc'.tears := by
  rcases calls_of_step h with heq | ⟨request, -, heq⟩ | ⟨d, old, new, hd, -, hnew, heq⟩
  · exact ⟨pc, by rw [heq, hc], htears⟩
  · exact ⟨pc, by rw [heq, getElem?_append_of_some hc], htears⟩
  · rw [heq, getElem?_set_of_some hd]
    by_cases hcd : c = d
    · subst hcd
      obtain rfl := Option.some.inj (hc.symm.trans hd)
      exact ⟨new, if_pos rfl, hnew htears⟩
    · exact ⟨pc, (if_neg hcd).trans hc, htears⟩

/-- A call in progress after a step was in progress before, unless the step began it. -/
theorem active_of_step (h : s.step a = some s') (ha : ∀ request, a ≠ .find request)
    (hc : s'.calls[c]? = some pc') (hactive : pc'.active) :
    ∃ pc, s.calls[c]? = some pc ∧ pc.active := by
  rcases calls_of_step h with heq | ⟨request, rfl, -⟩ | ⟨d, old, new, hd, hold, -, heq⟩
  · exact ⟨pc', by rw [← heq, hc], hactive⟩
  · exact absurd rfl (ha request)
  · rw [heq, getElem?_set_of_some hd] at hc
    by_cases hcd : c = d
    · exact ⟨old, hcd ▸ hd, hold⟩
    · exact ⟨pc', (if_neg hcd).symm.trans hc, hactive⟩

/-- A session that nobody owns is owned by nobody later. -/
theorem owner_of_run {as : List (Action V)} (h : Transition.run Session.step s as = some s')
    (howner : s.owner = false) : s'.owner = false := by
  refine Transition.run_invariant (I := fun t => t.owner = false) (fun t a t' ht hs => ?_) h howner
  cases effect_of_step hs with
  | find hown _ | disown hown _ => simp [ht] at hown
  | call _ hcalled => exact hcalled.caller.owner.trans ht
  | stopAll heq | closeMedia _ heq => rw [heq, ht]
  | poll | reset | packet | took | tookPlay | deserted | waitForStop | reply | trySend | exit =>
      exact (Own.step rfl hs).owner.trans ht

/-- A worker that has reported its end has ended. -/
theorem Sound.ended_of_stopped (hi : Sound s) (h : s.stopped = true) : s.Ended := by
  have hrefused : s.life ≠ .refused := fun heq => by simp [hi.refused heq] at h
  have howed := (hi.stopped hrefused).mp h
  unfold Session.owed at howed
  cases hlife : s.life with
  | refused => exact .inl hlife
  | exiting todo => exact .inr ⟨todo, hlife⟩
  | spawned | running =>
      rw [hlife] at howed
      cases htarget : s.target <;>
        simp [htarget, SessionSetupTarget.exit, tcpExit, udpExit] at howed

end Session

namespace SessionManager
variable {V : Video} {m m' : SessionManager V} {a : Action V} {as : List (Action V)}
  {id : SessionId} {i c : Nat} {u v : SetupCall V} {pc : StopPc}

/-! ## The call -/

/-- The steps of `stop`. -/
def Action.stops : Action V → Bool
  | .beginStop | .stop | .drain _ => true
  | _ => false

/-- The steps of the manager's worker and of `stop`. -/
def Action.manages : Action V → Bool
  | .recv | .remove | .waitForStop _ | .exit | .beginStop | .stop | .drain _ => true
  | _ => false

theorem onSession_frame {b : Session.Action V} (h : m.onSession i b = some m') :
    m'.worker = m.worker ∧ m'.workerPc = m.workerPc ∧ m'.stopPc = m.stopPc := by
  obtain ⟨u, s, -, -, rfl⟩ := onSession_eq_some.mp h
  exact ⟨rfl, rfl, rfl⟩

/-- Nobody else moves the worker or `stop` on. -/
theorem frame_of_step (h : m.step a = some m') (ha : a.manages = false) :
    m'.worker = m.worker ∧ m'.workerPc = m.workerPc ∧ m'.stopPc = m.stopPc := by
  cases a with
  | setup sample target muxer =>
      obtain ⟨-, h⟩ := Option.ite_none_right_eq_some.mp h
      cases h
      exact ⟨rfl, rfl, rfl⟩
  | refuse | stopAll =>
      cases h
      exact ⟨rfl, rfl, rfl⟩
  | register j =>
      obtain ⟨u, -, h⟩ := Option.bind_eq_some_iff.mp h
      obtain ⟨-, h⟩ := Option.ite_none_right_eq_some.mp h
      unfold register at h
      split at h
      · cases h
        exact ⟨rfl, rfl, rfl⟩
      · have hframe := onSession_frame h
        exact hframe
  | find id request =>
      obtain ⟨-, h⟩ := Option.ite_none_right_eq_some.mp h
      unfold find at h
      split at h
      · cases h
        exact ⟨rfl, rfl, rfl⟩
      · exact onSession_frame h
  | session j b => exact onSession_frame (Option.ite_none_right_eq_some.mp h).2
  | recv | remove | waitForStop | exit | beginStop | stop | drain => cases ha

/-- The worker does not move `stop` on either. -/
theorem stopPc_of_step (h : m.step a = some m') (ha : a.stops = false) :
    m'.stopPc = m.stopPc := by
  cases hmanages : a.manages with
  | false => exact (frame_of_step h hmanages).2.2
  | true =>
      cases a with
      | recv =>
          simp only [step, recv] at h
          split at h <;> cases h
          rfl
      | remove =>
          simp only [step, remove] at h
          split at h
          · split at h
            · cases h
              rfl
            · have hpc := (onSession_frame h).2.2
              exact hpc
          · cases h
      | waitForStop src =>
          obtain ⟨-, h⟩ := Option.ite_none_right_eq_some.mp h
          obtain ⟨worker, -, rfl⟩ := Option.map_eq_some_iff.mp h
          rfl
      | exit =>
          obtain ⟨-, h⟩ := Option.ite_none_right_eq_some.mp h
          cases h
          rfl
      | beginStop | stop | drain => cases ha
      | _ => cases hmanages

/-- What one step of `stop` does, the choice of the next session apart. -/
theorem stopStep_eq (h : m.stopStep pc = some m') :
    m'.setups = m.setups ∧ m'.sessions = m.sessions ∧ m'.log = m.log ∧
      m'.workerPc = m.workerPc ∧ (∀ j d, m'.stopPc ≠ some (.teardown j d)) ∧
      ∀ i c, pc = .teardown i c → ∃ (u : SetupCall V) (outcome : Session.Outcome),
        m.setups[i]? = some u ∧ u.session.calls[c]? = some (.returned outcome) := by
  cases pc with
  | stop =>
      obtain ⟨worker, -, rfl⟩ := Option.map_eq_some_iff.mp h
      exact ⟨rfl, rfl, rfl, rfl, nofun, nofun⟩
  | takeHold =>
      cases h
      refine ⟨rfl, rfl, rfl, rfl, fun j d => ?_, nofun⟩
      dsimp only
      split <;> exact nofun
  | wait | drain =>
      obtain ⟨-, h⟩ := Option.ite_none_right_eq_some.mp h
      cases h
      exact ⟨rfl, rfl, rfl, rfl, nofun, nofun⟩
  | teardown i c =>
      simp only [stopStep] at h
      split at h
      next outcome hc =>
        cases h
        obtain ⟨u, hu, hc⟩ := Option.bind_eq_some_iff.mp hc
        refine ⟨rfl, rfl, rfl, rfl, nofun, ?_⟩
        rintro _ _ ⟨rfl, rfl⟩
        exact ⟨u, outcome, hu, hc⟩
      next => cases h

/-- The next round of the loop. -/
theorem drain_eq (h : m.drain id = some m') :
    ∃ i u s t, m.sessions.lookup id = some i ∧ m.setups[i]? = some u ∧
      u.session.step (.find .teardown) = some s ∧ s.step .disown = some t ∧
      m'.setups = m.setups.set i { u with session := t } ∧ m'.sessions = m.sessions.erase id ∧
      m'.stopPc = some (.teardown i u.session.calls.length) ∧ m'.log = .drained id :: m.log ∧
      m'.worker = m.worker ∧ m'.workerPc = m.workerPc := by
  obtain ⟨i, hi, h⟩ := Option.bind_eq_some_iff.mp h
  obtain ⟨u, hu, h⟩ := Option.bind_eq_some_iff.mp h
  obtain ⟨m₁, h₁, h⟩ := Option.bind_eq_some_iff.mp h
  obtain ⟨m₂, h₂, rfl⟩ := Option.map_eq_some_iff.mp h
  obtain ⟨u', s, hu', hs, rfl⟩ := onSession_eq_some.mp h₁
  obtain rfl := Option.some.inj (hu.symm.trans hu')
  obtain ⟨v, t, hv, ht, rfl⟩ := onSession_eq_some.mp h₂
  rw [putSession_setups, getElem?_set_of_some hu, if_pos rfl] at hv
  cases hv
  exact ⟨i, u, s, t, hi, hu, hs, ht, by simp [note], rfl, rfl, rfl, rfl, rfl⟩

/-- `stop` has the manager to itself. -/
theorem stopPc_eq_none (h : m.step a = some m')
    (ha : (∃ sample target muxer, a = .setup sample target muxer) ∨
      ∃ id request, a = .find id request) : m.stopPc = none := by
  rcases ha with ⟨sample, target, muxer, rfl⟩ | ⟨id, request, rfl⟩
  · exact (Option.ite_none_right_eq_some.mp h).1.1
  · exact (Option.ite_none_right_eq_some.mp h).1

/-- While `stop` runs, every `setup` has returned, and so has every call but the teardown
of its own. -/
structure Quiet (m : SessionManager V) (pc : StopPc) : Prop where
  result : ∀ (i : Nat) (u : SetupCall V), m.setups[i]? = some u → u.result.isSome
  calls : ∀ (i : Nat) (u : SetupCall V), m.setups[i]? = some u →
    ∀ (c : Nat) q, u.session.calls[c]? = some q → q.active → pc = .teardown i c
  tears : ∀ i c, pc = .teardown i c → ∃ (u : SetupCall V) (q : Session.CallPc),
    m.setups[i]? = some u ∧ u.session.calls[c]? = some q ∧ q.tears

theorem quiet_of_quiet (h : m.quiet) : Quiet m .stop := by
  have hall : ∀ (i : Nat) (u : SetupCall V), m.setups[i]? = some u →
      u.result.isSome ∧ u.session.calls.any Session.CallPc.active = false := by
    intro i u hu
    simpa using List.all_eq_true.mp h u (List.mem_of_getElem? hu)
  refine ⟨fun i u hu => (hall i u hu).1, fun i u hu c q hq hactive => ?_, nofun⟩
  have hnone := List.any_eq_false.mp (hall i u hu).2 q (List.mem_of_getElem? hq)
  exact absurd hactive hnone

namespace Quiet

theorem of_eq (hq : Quiet m pc) (hsetups : m'.setups = m.setups) : Quiet m' pc :=
  ⟨hsetups ▸ hq.result, hsetups ▸ hq.calls, hsetups ▸ hq.tears⟩

/-- One session takes a step that is not a new call. -/
theorem of_set {b : Session.Action V} {s : Session V} (hq : Quiet m pc)
    (hu : m.setups[i]? = some u) (hs : u.session.step b = some s)
    (hb : ∀ request, b ≠ .find request)
    (hsetups : m'.setups = m.setups.set i { u with session := s }) : Quiet m' pc where
  result := forall_set (P := fun _ u => u.result.isSome) hq.result hu hsetups (hq.result i u hu)
  calls := by
    refine forall_set (P := fun j v => ∀ (c : Nat) q, v.session.calls[c]? = some q →
      q.active → pc = .teardown j c) hq.calls hu hsetups fun c q hc hactive => ?_
    obtain ⟨q', hq', hactive'⟩ := Session.active_of_step hs hb hc hactive
    exact hq.calls i u hu c q' hq' hactive'
  tears j c hpc := by
    obtain ⟨w, q, hw, hc, htears⟩ := hq.tears j c hpc
    rw [hsetups, getElem?_set_of_some hu]
    by_cases hji : j = i
    · subst hji
      obtain rfl := Option.some.inj (hw.symm.trans hu)
      obtain ⟨q', hq', htears'⟩ := Session.tears_of_step hs hc htears
      exact ⟨_, q', if_pos rfl, hq', htears'⟩
    · exact ⟨w, q, (if_neg hji).trans hw, hc, htears⟩

theorem signal (hq : Quiet m pc) (hsetups : m'.setups = m.setups.map SetupCall.signal) :
    Quiet m' pc := by
  have hback : ∀ (j : Nat) (v : SetupCall V), m'.setups[j]? = some v →
      ∃ u : SetupCall V, m.setups[j]? = some u ∧ u.signal = v := by
    intro j v hv
    rw [hsetups, List.getElem?_map] at hv
    exact Option.map_eq_some_iff.mp hv
  refine ⟨fun j v hv => ?_, fun j v hv => ?_, fun j c hpc => ?_⟩
  · obtain ⟨u, hu, rfl⟩ := hback j v hv
    exact hq.result j u hu
  · obtain ⟨u, hu, rfl⟩ := hback j v hv
    exact hq.calls j u hu
  · obtain ⟨u, q, hu, hrest⟩ := hq.tears j c hpc
    exact ⟨u.signal, q, by rw [hsetups, List.getElem?_map, hu]; rfl, hrest⟩

/-- The loop takes the next session out of the map, and tears it down. -/
theorem drained {s t : Session V} (hq : Quiet m .drain) (hu : m.setups[i]? = some u)
    (hs : u.session.step (.find .teardown) = some s) (ht : s.step .disown = some t)
    (hsetups : m'.setups = m.setups.set i { u with session := t }) :
    Quiet m' (.teardown i u.session.calls.length) := by
  have hcalls : t.calls = u.session.calls ++ [.lock .teardown] := by
    cases Session.effect_of_step hs with
    | find _ heq => rw [Registry.disown ht, heq]
  refine ⟨?_, ?_, ?_⟩
  · exact forall_set (P := fun _ u => u.result.isSome) hq.result hu hsetups (hq.result i u hu)
  · refine forall_set (P := fun j v => ∀ (c : Nat) q, v.session.calls[c]? = some q →
      q.active → StopPc.teardown i u.session.calls.length = .teardown j c)
      (fun j v hv c q hc hactive => ?_) hu hsetups fun c q hc hactive => ?_
    · exact absurd (hq.calls j v hv c q hc hactive) nofun
    · rw [hcalls] at hc
      rcases getElem?_concat_eq_some hc with ⟨hc, -⟩ | ⟨rfl, -⟩
      · exact absurd (hq.calls i u hu c q hc hactive) nofun
      · rfl
  · rintro _ _ ⟨rfl, rfl⟩
    refine ⟨{ u with session := t }, .lock .teardown, ?_, ?_, rfl⟩
    · rw [hsetups, getElem?_set_of_some hu, if_pos rfl]
    · simp [hcalls]

/-- The call goes on. -/
theorem stopStep (hq : Quiet m pc) (h : m.stopStep pc = some m') {pc' : StopPc}
    (hpc' : m'.stopPc = some pc') : Quiet m' pc' := by
  obtain ⟨hsetups, -, -, -, hnone, hreturned⟩ := stopStep_eq h
  refine ⟨hsetups ▸ hq.result, fun j v hv c q hc hactive => ?_, fun j c heq => ?_⟩
  · -- The teardown that was in progress has returned.
    rw [hsetups] at hv
    have hpc := hq.calls j v hv c q hc hactive
    obtain ⟨w, outcome, hw, hcall⟩ := hreturned j c hpc
    obtain rfl := Option.some.inj (hv.symm.trans hw)
    rw [hcall] at hc
    cases hc
    cases hactive
  · exact absurd (heq ▸ hpc') (hnone j c)

theorem step (hq : ∀ pc, m.stopPc = some pc → Quiet m pc) (h : m.step a = some m') :
    ∀ pc, m'.stopPc = some pc → Quiet m' pc := by
  intro pc hpc
  cases hstops : a.stops with
  | true =>
      cases a with
      | beginStop =>
          obtain ⟨⟨-, hquiet⟩, h⟩ := Option.ite_none_right_eq_some.mp h
          cases h
          cases hpc
          exact (quiet_of_quiet hquiet).of_eq rfl
      | stop =>
          obtain ⟨pc₀, hpc₀, h⟩ := Option.bind_eq_some_iff.mp h
          exact (hq pc₀ hpc₀).stopStep h hpc
      | drain id =>
          obtain ⟨hdrain, h⟩ := Option.ite_none_right_eq_some.mp h
          obtain ⟨i, u, s, t, -, hu, hs, ht, hsetups, -, hpc', -⟩ := drain_eq h
          cases hpc'.symm.trans hpc
          exact (hq .drain hdrain).drained hu hs ht hsetups
      | _ => cases hstops
  | false =>
      rw [stopPc_of_step h hstops] at hpc
      have hq := hq pc hpc
      have hnone : m.stopPc ≠ none := by simp [hpc]
      cases effect_of_step h with
      | setup => exact absurd (stopPc_eq_none h (.inl ⟨_, _, _, rfl⟩)) hnone
      | found => exact absurd (stopPc_eq_none h (.inr ⟨_, _, rfl⟩)) hnone
      | registered hu fresh | refused hu fresh =>
          have hsome := hq.result _ _ hu
          simp [fresh] at hsome
      | session hb hu hs setups =>
          refine hq.of_set hu hs ?_ setups
          rintro request rfl
          cases hb
      | dropped _ _ hu hs setups => exact hq.of_set hu hs nofun setups
      | removed _ _ setups | other _ setups => exact hq.of_eq setups
      | signalled setups => exact hq.signal setups
      | drained => cases hstops

end Quiet

theorem quiet_of_reachable (h : (system V).Reachable m) (hpc : m.stopPc = some pc) :
    Quiet m pc := by
  refine h.invariant (I := fun m => ∀ pc, m.stopPc = some pc → Quiet m pc) ?_ ?_ pc hpc
  · rintro _ ⟨accepted, stopAll, rfl⟩ pc hpc
    cases hpc
  · exact fun m a m' _ hq hs => Quiet.step hq hs

/-! ## The sessions -/

/-- Why a session is not in the map any more. -/
inductive Out (m : SessionManager V) (i : Nat) (u : SetupCall V) : Prop where
  | ended (h : u.session.Ended)
  /-- An earlier session that had the id reported its end. -/
  | mistaken {j : Nat} (hj : j ≠ i) (h : .removed u.id j ∈ m.log)
  /-- `stop` is tearing it down. -/
  | closing {c : Nat} (h : m.stopPc = some (.teardown i c))

/-- What a step does to an entry of the map. -/
theorem Effect.lookup (h : Effect m m' a) (hmap : m.sessions.lookup id = some i) :
    m'.sessions.lookup id = some i ∨
      ((∃ j, (id, j) ∈ m.flight ∧ .removed id j ∈ m'.log) ∨ a = .drain id) ∧
        ∀ v : SetupCall V, m'.setups[i]? = some v → v.session.owner = false := by
  cases h with
  | setup _ _ _ _ sessions | refused _ _ _ _ _ sessions | found _ _ _ _ sessions
  | session _ _ _ _ sessions | signalled _ sessions | other _ _ sessions =>
      exact .inl (sessions ▸ hmap)
  | @registered k w hw _ vacant _ sessions =>
      left
      have hne : id ≠ w.id := by
        rintro rfl
        simp [vacant] at hmap
      rw [sessions, AList.lookup_insert_ne hne, hmap]
  | @removed id' k _ _ vacant _ sessions =>
      left
      have hne : id ≠ id' := by
        rintro rfl
        simp [vacant] at hmap
      rw [sessions, AList.lookup_erase_ne hne, hmap]
  | @dropped id' k j rest w s hflight mapped hw hs setups sessions _ log =>
      by_cases hid : id = id'
      · subst hid
        obtain rfl := Option.some.inj (hmap.symm.trans mapped)
        refine .inr ⟨.inl ⟨k, ?_, ?_⟩, fun v hv => ?_⟩
        · rw [hflight]
          exact List.mem_cons_self
        · rw [log]
          exact List.mem_cons_self
        · rw [setups, getElem?_set_of_some hw, if_pos rfl] at hv
          cases hv
          rw [Registry.disown hs]
      · rw [sessions, AList.lookup_erase_ne hid, hmap]
        exact .inl rfl
  | @drained id' j w s t mapped hw hs ht setups sessions =>
      by_cases hid : id = id'
      · subst hid
        obtain rfl := Option.some.inj (hmap.symm.trans mapped)
        refine .inr ⟨.inr rfl, fun v hv => ?_⟩
        rw [setups, getElem?_set_of_some hw, if_pos rfl] at hv
        cases hv
        rw [Registry.disown ht]
      · rw [sessions, AList.lookup_erase_ne hid, hmap]
        exact .inl rfl

/-- A `setup` that returns puts its session into the map, or drops it. -/
theorem Effect.returned (h : Effect m m' a) (hu : m.setups[i]? = some u)
    (hv : m'.setups[i]? = some v) (hnone : u.result = none) :
    v.result = none ∨ v.result = some (.ok v.id) ∧ m'.sessions.lookup v.id = some i ∨
      v.result = some (.error .alreadyRegistered) ∧ v.session.owner = false := by
  have hset : ∀ {j : Nat} {w : SetupCall V} {s : Session V}, m.setups[j]? = some w →
      m'.setups = m.setups.set j { w with session := s } → v.result = none := by
    intro j w s hw setups
    rw [setups, getElem?_set_of_some hw] at hv
    split at hv
    next hij =>
      cases hv
      obtain rfl := Option.some.inj (hu.symm.trans (hij ▸ hw))
      exact hnone
    next =>
      obtain rfl := Option.some.inj (hu.symm.trans hv)
      exact hnone
  cases h with
  | setup w _ _ setups =>
      rw [setups, getElem?_append_of_some hu] at hv
      cases hv
      exact .inl hnone
  | @registered k w hw _ _ setups sessions =>
      rw [setups, getElem?_set_of_some hw] at hv
      split at hv
      next hik =>
        cases hv
        subst hik
        exact .inr (.inl ⟨rfl, by rw [sessions, AList.lookup_insert]⟩)
      next =>
        obtain rfl := Option.some.inj (hu.symm.trans hv)
        exact .inl hnone
  | @refused k _ w s hw _ _ hs setups =>
      rw [setups, getElem?_set_of_some hw] at hv
      split at hv
      next =>
        cases hv
        exact .inr (.inr ⟨rfl, by rw [Registry.disown hs]⟩)
      next =>
        obtain rfl := Option.some.inj (hu.symm.trans hv)
        exact .inl hnone
  | found _ hw _ setups | session _ hw _ setups | dropped _ _ hw _ setups
  | drained _ hw _ _ setups => exact .inl (hset hw setups)
  | removed _ _ setups | other _ setups =>
      rw [setups, hu] at hv
      cases hv
      exact .inl hnone
  | signalled setups =>
      rw [setups, List.getElem?_map, hu] at hv
      cases hv
      exact .inl hnone

/-- Each session is in the hands of its `setup` call, or in the map, or nobody owns it,
and if it was in the map there is a reason that it is not. -/
inductive Held (m : SessionManager V) (i : Nat) (u : SetupCall V) : Prop where
  | fresh (h : u.result = none)
  | mapped (h : m.sessions.lookup u.id = some i)
  | dropped (howner : u.session.owner = false)
      (h : u.result = some (.error .alreadyRegistered) ∨ Out m i u)

/-- What took a session out of the map still holds after a step. -/
theorem Out.step (hm : (system V).Reachable m) (h : Out m i u) (hu : m.setups[i]? = some u)
    (hs : m.step a = some m') (hv : m'.setups[i]? = some v) : Out m' i v := by
  have heffect := effect_of_step hs
  obtain ⟨v', hv', hf⟩ := heffect.follows hu
  obtain rfl := Option.some.inj (hv'.symm.trans hv)
  obtain ⟨bs, hbs, -⟩ := hf.run
  cases h with
  | ended h => exact .ended (h.run hbs).1
  | mistaken hj h => exact .mistaken hj (hf.id ▸ (Notified.flight heffect).2 _ h)
  | @closing c h =>
      cases hstops : a.stops with
      | false => exact .closing ((stopPc_of_step hs hstops).trans h)
      | true =>
          cases a with
          | beginStop =>
              have hnone := (Option.ite_none_right_eq_some.mp hs).1.1
              simp [h] at hnone
          | drain id =>
              have hdrain := (Option.ite_none_right_eq_some.mp hs).1
              simp [h] at hdrain
          | stop =>
              -- The teardown has returned, so the worker is behind its loop.
              obtain ⟨pc, hpc, hs⟩ := Option.bind_eq_some_iff.mp hs
              cases hpc.symm.trans h
              obtain ⟨-, -, -, -, -, hreturned⟩ := stopStep_eq hs
              obtain ⟨w, outcome, hw, hc⟩ := hreturned i c rfl
              obtain rfl := Option.some.inj (hu.symm.trans hw)
              obtain ⟨w, q, hw, hq, htears⟩ := (quiet_of_reachable hm h).tears i c rfl
              obtain rfl := Option.some.inj (hu.symm.trans hw)
              cases hc.symm.trans hq
              have htorn : (Session.CallPc.returned outcome).tornDown := by
                cases outcome <;> first | rfl | cases htears
              have hsound := Session.sound_of_reachable (session_of_reachable hm hu)
              exact .ended ((hsound.ended (List.mem_of_getElem? hc) htorn).run hbs).1
          | _ => cases hstops

theorem Held.step (hm : (system V).Reachable m) (h : Held m i u) (hu : m.setups[i]? = some u)
    (hs : m.step a = some m') (hv : m'.setups[i]? = some v) : Held m' i v := by
  have heffect := effect_of_step hs
  obtain ⟨v', hv', hf⟩ := heffect.follows hu
  obtain rfl := Option.some.inj (hv'.symm.trans hv)
  obtain ⟨bs, hbs, -⟩ := hf.run
  cases h with
  | fresh h =>
      rcases heffect.returned hu hv h with hnone | ⟨-, hmap⟩ | ⟨herror, howner⟩
      · exact .fresh hnone
      · exact .mapped hmap
      · exact .dropped howner (.inl herror)
  | dropped howner h =>
      exact .dropped (Session.owner_of_run hbs howner)
        (h.imp (hf.result _) fun hout => hout.step hm hu hs hv)
  | mapped h =>
      rcases heffect.lookup h with hmap | ⟨hwhy, howner⟩
      · exact .mapped (hf.id ▸ hmap)
      · refine .dropped (howner v' hv) (.inr ?_)
        rcases hwhy with ⟨j, hflight, hlog⟩ | rfl
        · by_cases hji : j = i
          · subst hji
            obtain ⟨w, hw, -, hstopped⟩ := (notified_of_reachable hm).stopped _ _ hflight
            obtain rfl := Option.some.inj (hu.symm.trans hw)
            have hsound := Session.sound_of_reachable (session_of_reachable hm hu)
            exact .ended ((hsound.ended_of_stopped hstopped).run hbs).1
          · exact .mistaken hji (hf.id ▸ hlog)
        · obtain ⟨-, hs⟩ := Option.ite_none_right_eq_some.mp hs
          obtain ⟨j, w, -, -, hmap, hw, -, -, -, -, hpc, -⟩ := drain_eq hs
          obtain rfl := Option.some.inj (h.symm.trans hmap)
          exact .closing hpc

theorem held_of_reachable (h : (system V).Reachable m) (hu : m.setups[i]? = some u) :
    Held m i u := by
  refine h.invariant (I := fun m => ∀ i u, m.setups[i]? = some u → Held m i u) ?_ ?_ i u hu
  · rintro _ ⟨accepted, stopAll, rfl⟩ i u hu
    simp [start] at hu
  · intro m a m' hm hi hs i v hv
    cases hu : m.setups[i]? with
    | none => exact .fresh ((effect_of_step hs).init hu hv).1
    | some u => exact (hi i u hu).step hm hu hs hv

/-! ## What is left -/

/-- Nobody can ask for a session any more, and none is kept. -/
structure Emptied (m : SessionManager V) : Prop where
  missing : ∀ id, m.sessions.lookup id = none
  returned : ∀ (i : Nat) (u : SetupCall V), m.setups[i]? = some u → u.result.isSome
  dropped : ∀ (i : Nat) (u : SetupCall V), m.setups[i]? = some u → u.session.handle = false
  /-- The workers of the sessions that `stop` found in the map, or that had reported
  their end, are behind their loops. -/
  ended : ∀ (i : Nat) (u : SetupCall V), m.setups[i]? = some u → u.result = some (.ok u.id) →
    u.session.Ended ∨ ∃ j, j ≠ i ∧ .removed u.id j ∈ m.log

/-- Any other worker leaves its loop as soon as it looks for a stop. -/
theorem Emptied.leaves (h : Emptied m) (hu : m.setups[i]? = some u)
    (hlife : u.session.life = .running) (hpc : u.session.worker.pc = .select) :
    ∃ s, u.session.step (.waitForStop .stop) = some s ∧ s.worker.pc = .left := by
  obtain ⟨task, htask⟩ := Option.isSome_iff_exists.mp
    (TaskState.waitForStop_of_dropped u.session.task u.session.stopAll)
  have hevent : u.session.event .stop = some { u.session with worker := u.session.worker.leave } :=
    Session.event_eq_some.mpr ⟨hlife, _, Session.Worker.step_stop.mpr ⟨hpc, rfl⟩, rfl⟩
  refine ⟨{ u.session with worker := u.session.worker.leave, task }, ?_, rfl⟩
  rw [Session.step, Session.waitForStop, h.dropped i u hu, htask]
  simp [hevent]

/-- The loop of `stop` is over. -/
theorem emptied_of_stop (hm : (system V).Reachable m) (hpc : m.stopPc = some .drain)
    (hs : m.step .stop = some m') : Emptied m' := by
  have hquiet := quiet_of_reachable hm hpc
  have hstep : m.stopStep .drain = some m' := by
    simpa [step, hpc] using hs
  obtain ⟨hempty, -⟩ := Option.ite_none_right_eq_some.mp hstep
  obtain ⟨hsetups, hsessions, hlog, -⟩ := stopStep_eq hstep
  have hnil : m.sessions = ∅ := AList.ext (List.isEmpty_iff.mp hempty)
  have hnone : ∀ id, m.sessions.lookup id = none := fun id => by rw [hnil, AList.lookup_empty]
  have hheld : ∀ (i : Nat) (u : SetupCall V), m.setups[i]? = some u →
      u.session.owner = false ∧ (u.result = some (.error .alreadyRegistered) ∨ Out m i u) := by
    intro i u hu
    cases held_of_reachable hm hu with
    | fresh h => simpa [h] using hquiet.result i u hu
    | mapped h => simp [hnone] at h
    | dropped howner h => exact ⟨howner, h⟩
  refine
    { missing := fun id => hsessions ▸ hnone id
      returned := hsetups ▸ hquiet.result
      dropped := fun i u hu => ?_
      ended := fun i u hu hresult => ?_ }
  · rw [hsetups] at hu
    rw [Session.handle, (hheld i u hu).1, Bool.false_or, List.any_eq_false]
    intro q hq hactive
    obtain ⟨c, hc⟩ := List.mem_iff_getElem?.mp hq
    cases hquiet.calls i u hu c q hc hactive
  · rw [hsetups] at hu
    rcases (hheld i u hu).2 with herror | hout
    · cases herror.symm.trans hresult
    · cases hout with
      | ended h => exact .inl h
      | mistaken hj h => exact .inr ⟨_, hj, hlog ▸ h⟩
      | closing h => cases h.symm.trans hpc

/-- Without a new call nobody comes to hold the session. -/
theorem handle_of_step {b : Session.Action V} {s s' : Session V} (h : s.step b = some s')
    (hb : ∀ request, b ≠ .find request) (hhandle : s.handle = false) : s'.handle = false := by
  obtain ⟨howner, hcalls⟩ := Bool.or_eq_false_iff.mp hhandle
  have howner' := Session.owner_of_run ((Transition.run_singleton s b).trans h) howner
  rw [Session.handle, howner', Bool.false_or, List.any_eq_false]
  intro q hq hactive
  obtain ⟨c, hc⟩ := List.mem_iff_getElem?.mp hq
  obtain ⟨q', hq', hactive'⟩ := Session.active_of_step h hb hc hactive
  exact List.any_eq_false.mp hcalls q' (List.mem_of_getElem? hq') hactive'

namespace Emptied

/-- The sessions are as they were, or have taken a step of their own. -/
theorem setups (h : Emptied m) (hs : m.step a = some m') (ha : a.sets = false)
    (hv : m'.setups[i]? = some v) :
    ∃ u : SetupCall V, m.setups[i]? = some u ∧ v.id = u.id ∧ v.result = u.result ∧
      v.session.handle = false ∧ (u.session.Ended → v.session.Ended) := by
  have hsame : m'.setups = m.setups → ∃ u : SetupCall V, m.setups[i]? = some u ∧ v.id = u.id ∧
      v.result = u.result ∧ v.session.handle = false ∧ (u.session.Ended → v.session.Ended) := by
    intro setups
    rw [setups] at hv
    exact ⟨v, hv, rfl, rfl, h.dropped i v hv, id⟩
  cases effect_of_step hs with
  | setup => cases ha
  | registered hw fresh | refused hw fresh =>
      have hsome := h.returned _ _ hw
      simp [fresh] at hsome
  | found mapped | dropped _ mapped | drained mapped => simp [h.missing] at mapped
  | @session k b w s hb hw hstep setups =>
      by_cases hik : i = k
      · subst hik
        rw [setups, getElem?_set_of_some hw, if_pos rfl] at hv
        cases hv
        have hfind : ∀ request, b ≠ .find request := by
          rintro request rfl
          cases hb
        exact ⟨w, hw, rfl, rfl, handle_of_step hstep hfind (h.dropped i w hw),
          fun hended => (hended.step hstep).1⟩
      · rw [setups, getElem?_set_of_some hw, if_neg hik] at hv
        exact ⟨v, hv, rfl, rfl, h.dropped i v hv, id⟩
  | removed _ _ setups | other _ setups => exact hsame setups
  | signalled setups =>
      rw [setups, List.getElem?_map, Option.map_eq_some_iff] at hv
      obtain ⟨u, hu, rfl⟩ := hv
      exact ⟨u, hu, rfl, rfl, h.dropped i u hu, id⟩

/-- The map has no entry that a step could bring back. -/
theorem sessions (h : Emptied m) (hs : m.step a = some m') (ha : a.sets = false)
    (id : SessionId) : m'.sessions.lookup id = none := by
  cases effect_of_step hs with
  | setup => cases ha
  | registered hw fresh | refused hw fresh =>
      have hsome := h.returned _ _ hw
      simp [fresh] at hsome
  | found mapped | dropped _ mapped | drained mapped => simp [h.missing] at mapped
  | session _ _ _ _ sessions | signalled _ sessions | other _ _ sessions =>
      exact sessions ▸ h.missing id
  | @removed id' _ _ _ _ _ sessions =>
      rw [sessions]
      by_cases hid : id = id'
      · rw [hid, AList.lookup_erase]
      · rw [AList.lookup_erase_ne hid, h.missing]

/-- Only a new `setup` could change what `stop` leaves. -/
theorem step (h : Emptied m) (hs : m.step a = some m') (ha : a.sets = false) : Emptied m' := by
  have hlog := (Notified.flight (effect_of_step hs)).2
  refine
    { missing := h.sessions hs ha
      returned := fun i v hv => ?_
      dropped := fun i v hv => ?_
      ended := fun i v hv hresult => ?_ }
  · obtain ⟨u, hu, -, hresult, -⟩ := h.setups hs ha hv
    exact hresult ▸ h.returned i u hu
  · obtain ⟨u, -, -, -, hhandle, -⟩ := h.setups hs ha hv
    exact hhandle
  · obtain ⟨u, hu, hid, hresult', -, hended⟩ := h.setups hs ha hv
    rw [hid, hresult'] at hresult
    rw [hid]
    rcases h.ended i u hu hresult with hend | ⟨j, hj, hmem⟩
    · exact .inl (hended hend)
    · exact .inr ⟨j, hj, hlog _ hmem⟩

end Emptied

/-- When `stop` returns, the map is empty, nobody holds a session, and the worker of every
session that was in the map is behind its loop unless the notice of an earlier session
with the same id had removed it. It stays so until the next `setup`. -/
theorem stop_empties {m₁ : SessionManager V} (hm : (system V).Reachable m)
    (hpc : m.stopPc = some .drain) (hstop : m.step .stop = some m₁)
    (hrun : Transition.run step m₁ as = some m') (hsets : ∀ a ∈ as, a.sets = false) :
    Emptied m' :=
  Transition.run_invariant_of (P := fun a => a.sets = false)
    (fun _ _ _ ha hi hs => hi.step hs ha) hsets hrun (emptied_of_stop hm hpc hstop)

/-- A client sets up a session, a second `setup` happens to sample its id, and then the
program stops. -/
def closingRun : List (Action .counting) :=
  [.setup 10000000 .rtpTcp (0 : UInt16), .register 0, .session 0 .poll,
    .setup 10000000 .rtpTcp (0 : UInt16), .session 1 .poll, .register 1, .beginStop, .stop, .stop,
    .waitForStop .stop, .exit, .stop, .drain (.generate 10000000), .session 0 (.call 0),
    .session 0 (.call 0), .session 0 (.call 0), .session 0 (.waitForStop .stop), .session 0 .exit,
    .session 0 (.call 0), .session 0 (.call 0), .stop]

/-- The abandoned session leaves only now. -/
def afterClosing : List (Action .counting) :=
  [.find (.generate 10000000) .teardown, .session 1 (.waitForStop .stop)]

theorem stop_empties_closingRun :
    ∃ m m₁ m', Transition.run step (start (V := .counting) true []) closingRun = some m ∧
      m.step .stop = some m₁ ∧ Transition.run step m₁ afterClosing = some m' ∧
      m'.setups.length = 2 ∧ Emptied m' := by
  obtain ⟨m, m₁, m', hm, hpc, hstop, hrun, hlength⟩ :
      ∃ m m₁ m', Transition.run step (start (V := .counting) true []) closingRun = some m ∧
        m.stopPc = some .drain ∧ m.step .stop = some m₁ ∧
        Transition.run step m₁ afterClosing = some m' ∧ m'.setups.length = 2 :=
    ⟨_, _, _, rfl, rfl, rfl, rfl, rfl⟩
  have hsets : ∀ a ∈ afterClosing, a.sets = false := by simp [afterClosing, Action.sets]
  exact ⟨m, m₁, m', hm, hstop, hrun, hlength,
    stop_empties ⟨_, closingRun, ⟨_, _, rfl⟩, hm⟩ hpc hstop hrun hsets⟩

end SessionManager

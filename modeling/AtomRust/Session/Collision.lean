-- SUMMARY: What a `setup` call that fails because its id is taken does to the session that has the id.
import AtomRust.Session.Closing

/-!
# Collisions

`setup` starts its session before it looks at the map. If the id is taken, the
call drops the session it has started, whose worker then ends and reports so to
the manager, by its id. The manager's worker takes that for the end of the
session in the map, be it the first one or one that has got the id since.
-/

open Media (Video)
open List (getElem?_concat_eq_some getElem?_set_of_some)

namespace SessionManager
variable {V : Video} {m m' : SessionManager V} {a : Action V} {as : List (Action V)}
  {id : SessionId} {i j : Nat} {u v : SetupCall V}

/-- The steps that come from session `i`: its own, and the removal on its notice. -/
def CausedBy (m : SessionManager V) (i : Nat) : Action V → Prop
  | .session j _ => j = i
  | .remove => ∃ id, m.workerPc = .remove id i
  | _ => False

/-- The map, and every session but session `i`, is as it was. -/
structure Undisturbed (i : Nat) (m m' : SessionManager V) : Prop where
  map : ∀ id, m'.sessions.lookup id = m.sessions.lookup id
  others : ∀ j, j ≠ i → m'.setups[j]? = m.setups[j]?

/-- `setup` call `i` leaves everything else alone as it fails, and so do all steps
that its session causes, whenever they come. -/
structure Harmless (m m' : SessionManager V) (i : Nat) : Prop where
  failed : m'.setups[i]?.map SetupCall.result = some (some (.error .alreadyRegistered))
  now : Undisturbed i m m'
  later : ∀ as m₁ a m₂, Transition.run step m' as = some m₁ → CausedBy m₁ i a →
    m₁.step a = some m₂ → Undisturbed i m₁ m₂

/-- The manager will not act on a notice of session `i`: its worker has left its loop,
the session's worker was never started, or the notice was acted on before. -/
def Spent (m : SessionManager V) (i : Nat) (u : SetupCall V) : Prop :=
  m.workerPc = .left ∨ m.workerPc = .ended ∨ u.session.life = .refused ∨
    u.session.stopped ∧ ∀ id, (id, i) ∉ m.flight

/-! ## Sessions with nothing left to say -/

/-- A worker that has left its loop does not come back. -/
theorem workerPc_of_left (h : m.step a = some m')
    (hpc : m.workerPc = .left ∨ m.workerPc = .ended) :
    m'.workerPc = .left ∨ m'.workerPc = .ended := by
  cases hmanages : a.manages with
  | false => exact (frame_of_step h hmanages).2.1 ▸ hpc
  | true =>
      cases a with
      | recv | remove => rcases hpc with hpc | hpc <;> simp [step, recv, remove, hpc] at h
      | waitForStop src =>
          obtain ⟨hselect, -⟩ := Option.ite_none_right_eq_some.mp h
          rcases hpc with hpc | hpc <;> simp [hpc] at hselect
      | exit =>
          obtain ⟨-, h⟩ := Option.ite_none_right_eq_some.mp h
          cases h
          exact .inr rfl
      | beginStop =>
          obtain ⟨-, h⟩ := Option.ite_none_right_eq_some.mp h
          cases h
          exact hpc
      | stop =>
          obtain ⟨pc, -, h⟩ := Option.bind_eq_some_iff.mp h
          obtain ⟨-, -, -, hsame, -⟩ := stopStep_eq h
          exact hsame ▸ hpc
      | drain id =>
          obtain ⟨-, h⟩ := Option.ite_none_right_eq_some.mp h
          obtain ⟨_, _, _, _, -, -, -, -, -, -, -, -, -, hsame⟩ := drain_eq h
          exact hsame ▸ hpc
      | _ => cases hmanages

theorem Spent.step (h : m.step a = some m') (hu : m.setups[i]? = some u) (hs : Spent m i u) :
    ∃ v, m'.setups[i]? = some v ∧ Spent m' i v := by
  have heffect := effect_of_step h
  obtain ⟨v, hv, hf⟩ := heffect.follows hu
  obtain ⟨as, has, -⟩ := hf.run
  refine ⟨v, hv, ?_⟩
  rcases hs with hleft | hended | hrefused | ⟨hstopped, hflight⟩
  · exact (workerPc_of_left h (.inl hleft)).imp id .inl
  · exact (workerPc_of_left h (.inr hended)).imp id .inl
  · exact .inr (.inr (.inl (Session.refused_run has hrefused)))
  · refine .inr (.inr (.inr ⟨Session.stopped_run has hstopped, fun id hmem => hflight id ?_⟩))
    cases heffect with
    | setup _ _ _ _ _ flight | registered _ _ _ _ _ flight | refused _ _ _ _ _ _ flight
    | found _ _ _ _ _ flight | drained _ _ _ _ _ _ flight | signalled _ _ flight
    | other _ _ _ flight => exact flight ▸ hmem
    | removed hcons _ _ _ flight | dropped hcons _ _ _ _ _ flight =>
        exact hcons ▸ List.mem_cons_of_mem _ (flight ▸ hmem)
    | @session k b w s _ hw _ _ _ flight =>
        rw [flight] at hmem
        rcases List.mem_append.mp hmem with hmem | hmem
        · exact hmem
        · -- The notice is new, so it is another session's.
          split at hmem
          next hnew =>
            obtain ⟨rfl, rfl⟩ : id = w.id ∧ i = k := by simpa using hmem
            obtain rfl : u = w := Option.some.inj (hu.symm.trans hw)
            simp [hstopped] at hnew
          next => cases hmem

/-- A step that comes from session `i` when it has no say disturbs nobody. -/
theorem Spent.undisturbed (hm : (system V).Reachable m) (hu : m.setups[i]? = some u)
    (hs : Spent m i u) (ha : CausedBy m i a) (h : m.step a = some m') : Undisturbed i m m' := by
  cases a with
  | session k b =>
      obtain rfl : k = i := ha
      obtain ⟨-, h⟩ := Option.ite_none_right_eq_some.mp h
      obtain ⟨w, s, hw, -, rfl⟩ := onSession_eq_some.mp h
      refine ⟨fun _ => rfl, fun j hj => ?_⟩
      rw [putSession_setups, getElem?_set_of_some hw, if_neg hj]
  | remove =>
      obtain ⟨id, hpc⟩ := ha
      have hmem : (id, i) ∈ m.flight := by simp [flight, hpc]
      obtain ⟨w, hw, -, hstopped⟩ := (notified_of_reachable hm).stopped id i hmem
      obtain rfl : u = w := Option.some.inj (hu.symm.trans hw)
      have hsound := Session.sound_of_reachable (session_of_reachable hm hu)
      rcases hs with hleft | hended | hrefused | ⟨-, hflight⟩
      · simp [hpc] at hleft
      · simp [hpc] at hended
      · simp [hsound.refused hrefused] at hstopped
      · exact absurd hmem (hflight id)
  | _ => cases ha

theorem Spent.later (hm : (system V).Reachable m) (hu : m.setups[i]? = some u) (hs : Spent m i u)
    {m₁ m₂ : SessionManager V} (h : Transition.run SessionManager.step m as = some m₁)
    (ha : CausedBy m₁ i a) (h₂ : m₁.step a = some m₂) : Undisturbed i m₁ m₂ := by
  obtain ⟨v, hv, hspent⟩ : ∃ v, m₁.setups[i]? = some v ∧ Spent m₁ i v :=
    Transition.run_invariant (I := fun m => ∃ v, m.setups[i]? = some v ∧ Spent m i v)
      (fun _ _ _ ⟨_, hu, hs⟩ h => Spent.step h hu hs) h ⟨u, hu, hs⟩
  exact Spent.undisturbed (hm.run h) hv hspent ha h₂

/-! ## Sessions that still have -/

/-- The manager's worker takes the first notice in flight. -/
theorem exists_run_front {x : SessionId × Nat} {rest : List (SessionId × Nat)}
    (hpc : m.workerPc ≠ .left ∧ m.workerPc ≠ .ended) (hflight : m.flight = x :: rest) :
    ∃ (as : List (Action V)) (m' : SessionManager V), Transition.run step m as = some m' ∧
      (∀ a ∈ as, a.stops = false) ∧ m'.workerPc = .remove x.1 x.2 ∧ m'.notices = rest := by
  unfold flight at hflight
  cases hat : m.workerPc with
  | left => exact absurd hat hpc.1
  | ended => exact absurd hat hpc.2
  | remove id k =>
      rw [hat] at hflight
      cases hflight
      exact ⟨[], m, rfl, nofun, hat, rfl⟩
  | select =>
      rw [hat] at hflight
      refine ⟨[.recv], { m with workerPc := .remove x.1 x.2, notices := rest }, ?_,
        by simp [Action.stops], rfl, rfl⟩
      rw [Transition.run_singleton]
      simp only [step, recv, hat, hflight]

/-- The manager's worker gets to every notice in flight. -/
theorem exists_run_remove {pre post : List (SessionId × Nat)} (hm : (system V).Reachable m)
    (hpc : m.workerPc ≠ .left ∧ m.workerPc ≠ .ended)
    (hflight : m.flight = pre ++ (id, i) :: post) :
    ∃ (as : List (Action V)) (m' : SessionManager V), Transition.run step m as = some m' ∧
      (∀ a ∈ as, a.stops = false) ∧ m'.workerPc = .remove id i := by
  induction pre generalizing m with
  | nil =>
      obtain ⟨as, m', hrun, has, hpc', -⟩ := exists_run_front hpc hflight
      exact ⟨as, m', hrun, has, hpc'⟩
  | cons x pre ih =>
      obtain ⟨as, m₁, hrun₁, has, hpc₁, hnotices₁⟩ := exists_run_front hpc hflight
      obtain ⟨m₂, h₂, hpc₂, hnotices₂, -⟩ := exists_remove (hm.run hrun₁) hpc₁
      obtain ⟨bs, m', hrun₂, hbs, hpc'⟩ := ih ((hm.run hrun₁).step (a := .remove) h₂)
        (by simp [hpc₂]) (by simp [flight, hpc₂, hnotices₂, hnotices₁])
      refine ⟨as ++ .remove :: bs, m', Transition.run_append_eq_some.mpr
        ⟨m₁, hrun₁, Transition.run_cons_eq_some.mpr ⟨m₂, h₂, hrun₂⟩⟩, fun a ha => ?_, hpc'⟩
      rcases List.mem_append.mp ha with ha | ha
      · exact has a ha
      · rcases List.mem_cons.mp ha with rfl | ha
        · rfl
        · exact hbs a ha

/-- Session `i`, which nobody has a handle of, sends its notice if it has not yet. -/
theorem exists_run_notice (hm : (system V).Reachable m) (hu : m.setups[i]? = some u)
    (hhandle : u.session.handle = false) (hrefused : u.session.life ≠ .refused)
    (hsaid : u.session.stopped → ∃ id, (id, i) ∈ m.flight) :
    ∃ (as : List (Action V)) (m' : SessionManager V), Transition.run step m as = some m' ∧
      (∀ a ∈ as, a.stops = false) ∧ m'.workerPc = m.workerPc ∧ (u.id, i) ∈ m'.flight := by
  cases hstopped : u.session.stopped with
  | true =>
      obtain ⟨id, hmem⟩ := hsaid hstopped
      obtain ⟨w, hw, rfl, -⟩ := (notified_of_reachable hm).stopped id i hmem
      obtain rfl : u = w := Option.some.inj (hu.symm.trans hw)
      exact ⟨[], m, rfl, nofun, rfl, hmem⟩
  | false =>
      have hsound := Session.sound_of_reachable (session_of_reachable hm hu)
      obtain ⟨bs, s, hbs, hrun, hs⟩ := Session.exists_departure hsound hhandle hrefused hstopped
      obtain ⟨m₁, h₁, -, -, hpc, hnotices⟩ :=
        exists_run_session (fun b hb => ofSession_of_ofWorker (hbs b hb)) hu hrun
      refine ⟨bs.map (.session i), m₁, h₁, fun a ha => ?_, hpc, ?_⟩
      · obtain ⟨b, -, rfl⟩ := List.mem_map.mp ha
        rfl
      · rw [hstopped, show s.stopped = true from hs] at hnotices
        unfold flight
        rw [hpc, hnotices]
        cases m.workerPc <;> simp

/-- Every id is one that the generator may return. -/
theorem sampled_of_reachable (hm : (system V).Reachable m) (hu : m.setups[i]? = some u) :
    ∃ sample, SessionId.sampled sample ∧ u.id = .generate sample := by
  refine hm.invariant (I := fun m => ∀ (i : Nat) (u : SetupCall V), m.setups[i]? = some u →
    ∃ sample, SessionId.sampled sample ∧ u.id = .generate sample) ?_ ?_ i u hu
  · rintro _ ⟨accepted, stopAll, rfl⟩ i u hu
    simp [start] at hu
  · intro m a m' _ hi hs i v hv
    cases hu : m.setups[i]? with
    | some u =>
        obtain ⟨w, hw, hf⟩ := (effect_of_step hs).follows hu
        obtain rfl : v = w := Option.some.inj (hv.symm.trans hw)
        rw [hf.id]
        exact hi i u hu
    | none =>
        cases hsets : a.sets with
        | false =>
            have hlength := setups_length_of_step hs hsets
            have hle := List.getElem?_eq_none_iff.mp hu
            simp [List.getElem?_eq_none (hlength ▸ hle)] at hv
        | true =>
            cases a with
            | setup sample target muxer =>
                obtain ⟨⟨-, hsampled⟩, hs⟩ := Option.ite_none_right_eq_some.mp hs
                cases hs
                rcases getElem?_concat_eq_some hv with ⟨hold, -⟩ | ⟨-, rfl⟩
                · simp [hu] at hold
                · exact ⟨sample, hsampled, rfl⟩
            | _ => cases hsets

/-- Somebody sets up a session under the id, if there is none. -/
theorem exists_run_mapped (m : SessionManager V) (muxer : V.RtpMuxer) {sample : Nat}
    (hstop : m.stopPc = none) (hsampled : SessionId.sampled sample) :
    ∃ (as : List (Action V)) (m' : SessionManager V), Transition.run step m as = some m' ∧
      m'.workerPc = m.workerPc ∧ m'.sessions.lookup (.generate sample) ≠ none := by
  cases hlookup : m.sessions.lookup (.generate sample) with
  | some j => exact ⟨[], m, rfl, rfl, by simp [hlookup]⟩
  | none =>
      let u : SetupCall V :=
        { id := .generate sample
          session := .setupAndStart .rtpTcp muxer m.accepting m.stopAll
          result := none }
      have hsetup : m.step (.setup sample .rtpTcp muxer) =
          some { m with setups := m.setups ++ [u] } := if_pos ⟨hstop, hsampled⟩
      obtain ⟨m', h, hpc, hmapped⟩ : ∃ m', step { m with setups := m.setups ++ [u] }
          (.register m.setups.length) = some m' ∧ m'.workerPc = m.workerPc ∧
            m'.sessions.lookup (.generate sample) = some m.setups.length := by
        simp [step, register, u, hlookup, note, AList.lookup_insert]
      refine ⟨[.setup sample .rtpTcp muxer, .register m.setups.length], m', ?_, hpc,
        by simp [hmapped]⟩
      rw [Transition.run_cons_eq_some]
      exact ⟨_, hsetup, (Transition.run_singleton _ _).trans h⟩

/-- Session `i` is not spent: its notice may empty the id. -/
theorem exists_removal (hm : (system V).Reachable m) (hu : m.setups[i]? = some u)
    (hhandle : u.session.handle = false) (hstop : m.stopPc = none) (hspent : ¬ Spent m i u) :
    ∃ as m', Transition.run step m as = some m' ∧ m'.workerPc = .remove u.id i ∧
      m'.sessions.lookup u.id ≠ none := by
  unfold Spent at hspent
  simp only [not_or] at hspent
  obtain ⟨hleft, hended, hrefused, hflight⟩ := hspent
  have hsaid : u.session.stopped → ∃ id, (id, i) ∈ m.flight := by simpa using hflight
  obtain ⟨as, m₁, hrun₁, has, hpc₁, hmem⟩ := exists_run_notice hm hu hhandle hrefused hsaid
  obtain ⟨pre, post, heq⟩ := List.append_of_mem hmem
  obtain ⟨bs, m₂, hrun₂, hbs, hpc₂⟩ :=
    exists_run_remove (hm.run hrun₁) (hpc₁ ▸ ⟨hleft, hended⟩) heq
  have hstop₂ : m₂.stopPc = none := by
    refine Transition.run_invariant_of (P := fun b : Action V => b.stops = false)
      (I := fun m => m.stopPc = none) (fun _ _ _ hb hs h => (stopPc_of_step h hb).trans hs)
      (fun b hb => ?_) (Transition.run_append_eq_some.mpr ⟨m₁, hrun₁, hrun₂⟩) hstop
    exact (List.mem_append.mp hb).elim (has b) (hbs b)
  -- Should the id be free by now, another client gets it.
  obtain ⟨sample, hsampled, hid⟩ := sampled_of_reachable hm hu
  obtain ⟨cs, m₃, hrun₃, hpc₃, hmapped⟩ :=
    exists_run_mapped m₂ u.session.worker.muxer hstop₂ hsampled
  exact ⟨as ++ (bs ++ cs), m₃, Transition.run_append_eq_some.mpr
    ⟨m₁, hrun₁, Transition.run_append_eq_some.mpr ⟨m₂, hrun₂, hrun₃⟩⟩, hpc₃.trans hpc₂,
    hid ▸ hmapped⟩

/-! ## The failing call -/

theorem register_failed (hu : m.setups[i]? = some u) (hj : m.sessions.lookup u.id = some j)
    (h : m.step (.register i) = some m') :
    u.result = none ∧ m'.setups = m.setups.set i { u with
      session := { u.session with owner := false }
      result := some (.error .alreadyRegistered) } ∧
      m'.sessions = m.sessions ∧ m'.workerPc = m.workerPc ∧ m'.flight = m.flight := by
  obtain ⟨w, hw, h⟩ := Option.bind_eq_some_iff.mp h
  obtain rfl : u = w := Option.some.inj (hu.symm.trans hw)
  obtain ⟨hfresh, h⟩ := Option.ite_none_right_eq_some.mp h
  simp only [register, hj] at h
  obtain ⟨v, s, hv, hs, rfl⟩ := onSession_eq_some.mp h
  rw [getElem?_set_of_some hu, if_pos rfl] at hv
  cases hv
  obtain rfl := Registry.disown hs
  refine ⟨Option.isNone_iff_eq_none.mp hfresh, ?_, rfl, rfl,
    putSession_flight_of_foreign _ i _ rfl hs⟩
  rw [putSession_setups, List.set_set]

/-- `stop` waits for all calls. -/
theorem stopPc_of_pending (hm : (system V).Reachable m) (hu : m.setups[i]? = some u)
    (hfresh : u.result = none) : m.stopPc = none := by
  cases hpc : m.stopPc with
  | none => rfl
  | some pc =>
      have hreturned := (quiet_of_reachable hm hpc).result i u hu
      simp [hfresh] at hreturned

/-- A `setup` call that fails is harmless exactly if its session has nothing left
to say. -/
theorem setup_harmless_iff (hm : (system V).Reachable m) (hu : m.setups[i]? = some u)
    (hj : m.sessions.lookup u.id = some j) (h : m.step (.register i) = some m') :
    Harmless m m' i ↔ Spent m i u := by
  obtain ⟨hfresh, hsetups, hsessions, hpc, hflight⟩ := register_failed hu hj h
  have hm' : (system V).Reachable m' := hm.step (a := .register i) h
  obtain ⟨v, hv, hid, hsession, hresult⟩ : ∃ v, m'.setups[i]? = some v ∧ v.id = u.id ∧
      v.session = { u.session with owner := false } ∧
      v.result = some (.error .alreadyRegistered) := by
    rw [hsetups, getElem?_set_of_some hu, if_pos rfl]
    exact ⟨_, rfl, rfl, rfl, rfl⟩
  have hspent : Spent m' i v ↔ Spent m i u := by
    unfold Spent
    rw [hpc, hsession, hflight]
  rw [← hspent]
  constructor
  · intro hharmless
    by_contra hnot
    obtain ⟨howner, hcalls⟩ := ((registry_of_reachable hm').owns i v hv).refused _ hresult
    have hhandle : v.session.handle = false := by simp [Session.handle, howner, hcalls]
    have hstop : m'.stopPc = none :=
      (stopPc_of_step h rfl).trans (stopPc_of_pending hm hu hfresh)
    obtain ⟨as, m₁, hrun, hpc₁, hmapped⟩ := exists_removal hm' hv hhandle hstop hnot
    obtain ⟨m₂, h₂, -, -, hsessions₂⟩ := exists_remove (hm'.run hrun) hpc₁
    -- The worker removes the session that has the id.
    have hmap := (hharmless.later as m₁ .remove m₂ hrun ⟨_, hpc₁⟩ h₂).map v.id
    rw [hsessions₂, AList.lookup_erase] at hmap
    exact hmapped hmap.symm
  · intro hs
    refine ⟨by rw [hv, Option.map_some, hresult], ⟨fun id => by rw [hsessions], fun k hk => ?_⟩,
      fun as m₁ a m₂ hrun ha h₂ => Spent.later hm' hv hs hrun ha h₂⟩
    rw [hsetups, getElem?_set_of_some hu, if_neg hk]

/-! ## Two clients -/

/-- Two clients send SETUP, and the generator returns the same number for both.
The first session is registered. -/
def sameId : List (Action .counting) :=
  [.setup 10000000 .rtpTcp (0 : UInt16), .register 0, .session 0 .poll,
    .setup 10000000 .rtpTcp (0 : UInt16)]

/-- The worker of the second session finds its control channel closed, and the
manager's worker acts on its notice. -/
def farewell : List (Action .counting) :=
  [.session 1 .poll, .session 1 .takeControl, .session 1 .exit, .session 1 .exit,
    .session 1 .exit, .session 1 .exit, .recv]

theorem setup_harmless_iff_sameId :
    ∃ m m' u, Transition.run step (start true []) sameId = some m ∧ m.setups[1]? = some u ∧
      Transition.run step m [.register 1] = some m' ∧
      (Harmless (V := .counting) m m' 1 ↔ Spent m 1 u) := by
  obtain ⟨m, m', u, hm, hu, hj, h⟩ :
      ∃ m m' u, Transition.run step (start (V := .counting) true []) sameId = some m ∧
        m.setups[1]? = some u ∧ m.sessions.lookup u.id = some 0 ∧
        Transition.run step m [.register 1] = some m' := ⟨_, _, _, rfl, rfl, rfl, rfl⟩
  exact ⟨m, m', u, hm, hu, h, setup_harmless_iff ⟨_, sameId, ⟨_, _, rfl⟩, hm⟩ hu hj
    ((Transition.run_singleton m _).symm.trans h)⟩

/-- The second client is refused, and the first one loses its session: the
manager drops it, so its worker finds its own control channel closed. -/
theorem not_harmless_sameId :
    ∃ m m', (system .counting).Reachable m ∧ m.sessions.lookup (.generate 10000000) = some 0 ∧
      m.step (.register 1) = some m' ∧ ¬ Harmless m m' 1 ∧
      ∃ m₁ m₂, Transition.run step m' farewell = some m₁ ∧
        Transition.run step m₁ [.remove] = some m₂ ∧
        m₂.sessions.lookup (.generate 10000000) = none ∧
        m₂.setups[0]?.map (fun u => (u.session.handle, u.session.life)) = some (false, .running) := by
  obtain ⟨m, m', m₁, m₂, hm, hj, h, h₁, h₂, hpc, hj₁, hj₂, hlost⟩ :
      ∃ m m' m₁ m₂, Transition.run step (start (V := .counting) true []) sameId = some m ∧
        m.sessions.lookup (.generate 10000000) = some 0 ∧
        Transition.run step m [.register 1] = some m' ∧
        Transition.run step m' farewell = some m₁ ∧ Transition.run step m₁ [.remove] = some m₂ ∧
        m₁.workerPc = .remove (.generate 10000000) 1 ∧
        m₁.sessions.lookup (.generate 10000000) = some 0 ∧
        m₂.sessions.lookup (.generate 10000000) = none ∧
        m₂.setups[0]?.map (fun u => (u.session.handle, u.session.life)) = some (false, .running) :=
    ⟨_, _, _, _, rfl, rfl, rfl, rfl, rfl, rfl, rfl, rfl, rfl⟩
  refine ⟨m, m', ⟨_, sameId, ⟨_, _, rfl⟩, hm⟩, hj, (Transition.run_singleton m _).symm.trans h,
    fun hharmless => ?_, m₁, m₂, h₁, h₂, hj₂, hlost⟩
  have hmap := (hharmless.later farewell m₁ .remove m₂ h₁ ⟨_, hpc⟩
    ((Transition.run_singleton m₁ _).symm.trans h₂)).map (.generate 10000000)
  rw [hj₁, hj₂] at hmap
  cases hmap

end SessionManager

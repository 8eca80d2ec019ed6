-- SUMMARY: What callers of `teardown` can rely on: the session they found is silent, and out of the map once the manager hears of its end.
import AtomRust.Session.Registry

/-!
# Teardowns

A `teardown` call comes back when the worker's context is gone, and so after the
loop. The entry in the map is another matter: the manager's worker removes it,
when it gets to the `Stopped` notice that the session's worker sends behind the
loop. Until then requests still find the dead session.
-/

open Media (Video)
open List (getElem?_set_of_some)

namespace SessionManager
variable {V : Video} {m m' : SessionManager V} {a : Action V} {as : List (Action V)}
  {id : SessionId} {i c : Nat} {u : SetupCall V}

/-! ## The worker -/

/-- The worker of the session that a `teardown` found does nothing any more once
the call has returned: what it has sent, taken and muxed is what it will ever
have. -/
theorem teardown_silences (hm : (system V).Reachable m) (hu : m.setups[i]? = some u)
    (hc : u.session.calls[c]? = some (.returned .tornDown))
    (h : Transition.run step m as = some m') :
    ∃ v : SetupCall V, m'.setups[i]? = some v ∧ v.session.worker = u.session.worker ∧
      ∀ o : Session.Occurrence, o.ofWorker → v.session.log.count o = u.session.log.count o := by
  have hs := Session.sound_of_reachable (session_of_reachable hm hu)
  have hended := hs.ended (List.mem_of_getElem? hc) rfl
  obtain ⟨v, hv, hf⟩ := run_session h hu
  obtain ⟨bs, hbs, -⟩ := hf.run
  obtain ⟨-, hworker, hlog⟩ := hended.run hbs
  refine ⟨v, hv, hworker, fun o ho => ?_⟩
  rw [← List.count_filter (p := Session.Occurrence.ofWorker) ho, hlog, List.count_filter ho]

/-- The worker leaves its loop with the `Play` message of an earlier call still in
its control channel. -/
def queuedPlay : List (Action .counting) :=
  [.setup 10000000 .rtpTcp (0 : UInt16), .register 0, .session 0 .poll,
    .find (.generate 10000000) (.play none), .find (.generate 10000000) .teardown,
    .session 0 (.call 0), .session 0 (.call 0), .session 0 (.call 0), .session 0 .takeControl,
    .session 0 (.packet (.ok true)), .session 0 .reply, .session 0 (.call 0),
    .session 0 (.call 0), .session 0 (.call 0), .session 0 (.call 1), .session 0 (.call 1),
    .session 0 (.call 1), .session 0 (.waitForStop .stop), .session 0 .exit,
    .session 0 (.call 1), .session 0 (.call 1)]

theorem teardown_silences_queuedPlay :
    ∃ m m' u v, Transition.run step (start true []) queuedPlay = some m ∧
      m.setups[0]? = some u ∧ u.session.control = [(0, .play)] ∧
      Transition.run step m [.session 0 .exit, .session 0 .exit, .session 0 .exit] = some m' ∧
      m'.setups[0]? = some v ∧ v.session.worker = u.session.worker ∧
      ∀ o : Session.Occurrence, o.ofWorker →
        v.session.log.count o = (u : SetupCall .counting).session.log.count o := by
  obtain ⟨m, m', u, hm, hu, hcontrol, hc, h⟩ :
      ∃ m m' u, Transition.run step (start (V := .counting) true []) queuedPlay = some m ∧
        m.setups[0]? = some u ∧ u.session.control = [(0, .play)] ∧
        u.session.calls[1]? = some (.returned .tornDown) ∧
        Transition.run step m [.session 0 .exit, .session 0 .exit, .session 0 .exit] = some m' :=
    ⟨_, _, _, rfl, rfl, rfl, rfl, rfl⟩
  obtain ⟨v, hv, hworker, hlog⟩ :=
    teardown_silences ⟨_, queuedPlay, ⟨_, _, rfl⟩, hm⟩ hu hc h
  exact ⟨m, m', u, v, hm, hu, hcontrol, h, hv, hworker, hlog⟩

/-! ## The map -/

/-- A request for `id` finds nothing: `play` returns `None`, `teardown` returns
`false`, and nothing else happens. -/
def Missing (m : SessionManager V) (id : SessionId) : Prop :=
  ∀ request m', m.step (.find id request) = some m' → m' = m.note (.missed id request)

theorem missing_of_lookup (h : m.sessions.lookup id = none) : Missing m id := by
  intro request m' hs
  simp only [step] at hs
  split at hs
  · simp only [find, h] at hs
    exact (Option.some.inj hs).symm
  · cases hs

/-- What is no longer in the map. -/
def Record.removes (id : SessionId) : Record → Bool
  | .removed id' _ | .drained id' => id' = id
  | .registered .. | .missed .. => false

/-- A session is registered once at most, by its `setup` call. -/
theorem log_step (h : m.step a = some m') (hu : m.setups[i]? = some u) (hresult : u.result.isSome) :
    ∃ new, m'.log = new ++ m.log ∧ ∀ id, .registered id i ∉ new := by
  cases effect_of_step h with
  | setup _ _ _ _ _ _ log | refused _ _ _ _ _ _ _ log | found _ _ _ _ _ _ log
  | session _ _ _ _ _ _ log | signalled _ _ _ log => exact ⟨[], log, by simp⟩
  | @registered k w hw fresh _ _ _ _ log =>
      refine ⟨[_], log, fun id hmem => ?_⟩
      obtain ⟨-, rfl⟩ : id = w.id ∧ i = k := by simpa using hmem
      obtain rfl : u = w := Option.some.inj (hu.symm.trans hw)
      simp [fresh] at hresult
  | removed _ _ _ _ _ log | dropped _ _ _ _ _ _ _ log | drained _ _ _ _ _ _ _ log =>
      exact ⟨[_], log, by simp⟩
  | other _ _ _ _ log =>
      rcases log with log | ⟨id, request, log⟩
      · exact ⟨[], log, by simp⟩
      · exact ⟨[_], log, by simp⟩

theorem log_run (h : Transition.run step m as = some m') (hu : m.setups[i]? = some u)
    (hresult : u.result.isSome) :
    ∃ new, m'.log = new ++ m.log ∧ ∀ id, .registered id i ∉ new := by
  induction as generalizing m u with
  | nil =>
      obtain rfl : m = m' := Option.some.inj h
      exact ⟨[], rfl, by simp⟩
  | cons a as ih =>
      obtain ⟨m₁, ha, h⟩ := Transition.run_cons_eq_some.mp h
      obtain ⟨v, hv, hf⟩ := (effect_of_step ha).follows hu
      obtain ⟨r, hr⟩ := Option.isSome_iff_exists.mp hresult
      obtain ⟨new, hlog, hnew⟩ := log_step ha hu hresult
      obtain ⟨new', hlog', hnew'⟩ := ih h hv (by simp [hf.result r hr])
      refine ⟨new' ++ new, by rw [hlog', hlog, List.append_assoc], fun id hmem => ?_⟩
      exact (List.mem_append.mp hmem).elim (hnew' id) (hnew id)

/-- Without a new registration, the map forgets the id for good. -/
theorem current_append {new log : List Record} (hnew : .registered id i ∉ new)
    (hnewest : newest id (new ++ log) = some i) :
    current id (new ++ log) = if new.any (Record.removes id) then none else current id log := by
  induction new with
  | nil => rfl
  | cons r new ih =>
      have hnew' : .registered id i ∉ new := fun h => hnew (List.mem_cons_of_mem _ h)
      cases r with
      | registered id' j =>
          have hid : id' ≠ id := by
            rintro rfl
            obtain rfl : j = i := by simpa [newest] using hnewest
            exact hnew List.mem_cons_self
          rw [List.cons_append, newest, if_neg hid] at hnewest
          rw [List.cons_append, current, if_neg hid, ih hnew' hnewest]
          rfl
      | removed id' j | drained id' =>
          rw [List.cons_append, current, List.any_cons]
          by_cases hid : id' = id
          · simp [hid, Record.removes]
          · rw [if_neg hid, ih hnew' hnewest]
            simp [hid, Record.removes]
      | missed => exact ih hnew' hnewest

/-- What requests find at `m'` under the id of session `i`, which a teardown had
ended by the time of `m`. -/
structure TornDown (m m' : SessionManager V) (i : Nat) (v : SetupCall V) : Prop where
  /-- The dead session, if any. -/
  found : ∀ j, m'.sessions.lookup v.id = some j → j = i
  ended : v.session.Ended
  /-- Its notice is on its way, or was acted on, if the worker ever ran. -/
  notice : v.session.life = .refused ∨ .sendStopped ∈ v.session.owed ∨ (v.id, i) ∈ m'.flight ∨
    .removed v.id i ∈ m'.log
  /-- Nothing, once the id has been removed. -/
  gone : ∀ new, m'.log = new ++ m.log →
    m.sessions.lookup v.id = none ∨ new.any (Record.removes v.id) → Missing m' v.id

/-- As long as no other session is registered under its id, a torn-down session
is all that a request can find, and no request finds it after the manager's
worker has acted on its notice. -/
theorem teardown_gone (hm : (system V).Reachable m) (hu : m.setups[i]? = some u)
    (hc : u.session.calls[c]? = some (.returned .tornDown))
    (h : Transition.run step m as = some m') (hnewest : newest u.id m'.log = some i) :
    ∃ v : SetupCall V, m'.setups[i]? = some v ∧ v.id = u.id ∧ TornDown m m' i v := by
  have hm' := hm.run h
  have hresult : u.result.isSome := by
    by_contra hnone
    have hcalls := (((registry_of_reachable hm).owns i u hu).fresh (by simpa using hnone)).2
    simp [hcalls] at hc
  obtain ⟨v, hv, hf⟩ := run_session h hu
  have hid : v.id = u.id := hf.id
  have hended : v.session.Ended := by
    have hs := Session.sound_of_reachable (session_of_reachable hm hu)
    obtain ⟨bs, hbs, -⟩ := hf.run
    exact ((hs.ended (List.mem_of_getElem? hc) rfl).run hbs).1
  have hs' := Session.sound_of_reachable (session_of_reachable hm' hv)
  refine ⟨v, hv, hid, ?_, hended, ?_, fun new hlog hgone => ?_⟩
  · intro j hj
    rw [hid, lookup_eq_current hm'] at hj
    exact Option.some.inj ((newest_of_current hj).symm.trans hnewest)
  · by_cases hlife : v.session.life = .refused
    · exact .inl hlife
    by_cases howed : .sendStopped ∈ v.session.owed
    · exact .inr (.inl howed)
    · exact .inr (.inr ((notified_of_reachable hm').sent i v hv ((hs'.stopped hlife).mpr howed)))
  · obtain ⟨new', hlog', hnew⟩ := log_run h hu hresult
    obtain rfl : new = new' := List.append_cancel_right (hlog.symm.trans hlog')
    apply missing_of_lookup
    rw [hlog] at hnewest
    rw [lookup_eq_current hm', hid, hlog, current_append (hnew u.id) hnewest,
      ← lookup_eq_current hm, ← hid]
    rcases hgone with hgone | hgone <;> simp [hgone]

/-! ## A teardown that is repeated -/

/-- A client sets up a session and tears it down. Its worker has left its loop
and not yet sent its notice. -/
def tearDown : List (Action .counting) :=
  [.setup 10000000 .rtpTcp (0 : UInt16), .register 0, .session 0 .poll,
    .find (.generate 10000000) .teardown, .session 0 (.call 0), .session 0 (.call 0),
    .session 0 (.call 0), .session 0 (.waitForStop .stop), .session 0 .exit,
    .session 0 (.call 0), .session 0 (.call 0)]

/-- The client asks again. -/
def tearDownAgain : List (Action .counting) :=
  [.find (.generate 10000000) .teardown, .session 0 (.call 1), .session 0 (.call 1),
    .session 0 (.call 1), .session 0 (.call 1)]

/-- The notice reaches the manager. -/
def removal : List (Action .counting) :=
  [.session 0 .exit, .session 0 .exit, .session 0 .exit, .recv, .remove]

theorem teardown_gone_removal :
    ∃ m m' u v, Transition.run step (start true []) tearDown = some m ∧
      m.setups[0]? = some u ∧ Transition.run step m (tearDownAgain ++ removal) = some m' ∧
      m'.setups[0]? = some v ∧ TornDown (V := .counting) m m' 0 v ∧ Missing m' v.id := by
  obtain ⟨m, m', u, hm, hu, hc, h, hnewest, hlookup⟩ :
      ∃ m m' u, Transition.run step (start (V := .counting) true []) tearDown = some m ∧
        m.setups[0]? = some u ∧ u.session.calls[0]? = some (.returned .tornDown) ∧
        Transition.run step m (tearDownAgain ++ removal) = some m' ∧
        newest u.id m'.log = some 0 ∧ m'.sessions.lookup u.id = none :=
    ⟨_, _, _, rfl, rfl, rfl, rfl, rfl, rfl⟩
  obtain ⟨v, hv, hid, hdown⟩ :=
    teardown_gone ⟨_, tearDown, ⟨_, _, rfl⟩, hm⟩ hu hc h hnewest
  exact ⟨m, m', u, v, hm, hu, h, hv, hdown, hid ▸ missing_of_lookup hlookup⟩

/-- Between the return of a teardown and the notice, a second one finds the
session and returns `true` like the first. -/
theorem not_missing_tearDown :
    ∃ m u, (system .counting).Reachable m ∧ m.setups[0]? = some u ∧
      u.session.calls = [.returned .tornDown] ∧ newest u.id m.log = some 0 ∧
      ¬ Missing m u.id ∧ ∃ m', Transition.run step m tearDownAgain = some m' ∧
        (m'.setups.map fun v => v.session.calls) =
          [[.returned .tornDown, .returned .tornDown]] := by
  obtain ⟨m, u, m₁, m', hm, hu, hc, hid, hnewest, hfind, hlog, hm', hcalls⟩ :
      ∃ m u m₁ m', Transition.run step (start (V := .counting) true []) tearDown = some m ∧
        m.setups[0]? = some u ∧ u.session.calls = [.returned .tornDown] ∧
        u.id = .generate 10000000 ∧ newest u.id m.log = some 0 ∧
        Transition.run step m [.find (.generate 10000000) .teardown] = some m₁ ∧
        m₁.log = m.log ∧ Transition.run step m tearDownAgain = some m' ∧
        (m'.setups.map fun v => v.session.calls) = [[.returned .tornDown, .returned .tornDown]] :=
    ⟨_, _, _, _, rfl, rfl, rfl, rfl, rfl, rfl, rfl, rfl, rfl⟩
  refine ⟨m, u, ⟨_, tearDown, ⟨_, _, rfl⟩, hm⟩, hu, hc, hnewest, fun hmissing => ?_, m', hm', hcalls⟩
  rw [hid] at hmissing
  have hnote := hmissing .teardown m₁ ((Transition.run_singleton m _).symm.trans hfind)
  rw [hnote] at hlog
  simpa [note] using congrArg List.length hlog

end SessionManager

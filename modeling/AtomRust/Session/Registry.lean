-- SUMMARY: What every step of the session manager does to its sessions, its map and its notices, and what therefore always holds of them.
import AtomRust.Session.Departure
import AtomRust.Session.SessionManager

/-!
# The registry

`Effect` lists what a step can change: the sessions, the map, the notices in
flight and the log. Every fact about reachable managers comes from it. First
among them, a session of a manager is a session: it runs as `Session.system`
says, so what holds of all reachable sessions holds of each one here.
-/

open Media (StreamState Video)
open Runtime (StopSource TaskState)
open List (getElem?_set_of_some)

namespace SessionManager
variable {V : Video} {m m' : SessionManager V} {a : Action V} {id : SessionId} {i j : Nat}
  {u v : SetupCall V}

/-- The notices that the worker has not acted on, oldest first. -/
def flight (m : SessionManager V) : List (SessionId × Nat) :=
  match m.workerPc with
  | .remove id i => (id, i) :: m.notices
  | .select | .left | .ended => m.notices

/-- The steps of the worker of session `i`. -/
def Action.ofWorker (i : Nat) : Action V → Bool
  | .session j a => j = i && a.ofWorker
  | _ => false

/-! ## Steps -/

/-- The ways in which a step leads from `m` to `m'`. -/
inductive Effect (m m' : SessionManager V) : Action V → Prop where
  | setup {sample : Nat} {target : Session.SessionSetupTarget} {muxer : V.RtpMuxer}
      (u : SetupCall V) (fresh : u.result = none)
      (init : u.session = .setupAndStart target muxer m.accepting m.stopAll)
      (setups : m'.setups = m.setups ++ [u]) (sessions : m'.sessions = m.sessions)
      (flight : m'.flight = m.flight) (log : m'.log = m.log) :
      Effect m m' (.setup sample target muxer)
  | registered {i : Nat} {u : SetupCall V} (hu : m.setups[i]? = some u) (fresh : u.result = none)
      (vacant : m.sessions.lookup u.id = none)
      (setups : m'.setups = m.setups.set i { u with result := some (.ok u.id) })
      (sessions : m'.sessions = m.sessions.insert u.id i)
      (flight : m'.flight = m.flight) (log : m'.log = .registered u.id i :: m.log) :
      Effect m m' (.register i)
  | refused {i j : Nat} {u : SetupCall V} {s : Session V} (hu : m.setups[i]? = some u)
      (fresh : u.result = none) (occupied : m.sessions.lookup u.id = some j)
      (hs : u.session.step .disown = some s)
      (setups : m'.setups = m.setups.set i
        { u with session := s, result := some (.error .alreadyRegistered) })
      (sessions : m'.sessions = m.sessions) (flight : m'.flight = m.flight)
      (log : m'.log = m.log) : Effect m m' (.register i)
  | found {id : SessionId} {request : Session.Request} {i : Nat} {u : SetupCall V} {s : Session V}
      (mapped : m.sessions.lookup id = some i) (hu : m.setups[i]? = some u)
      (hs : u.session.step (.find request) = some s)
      (setups : m'.setups = m.setups.set i { u with session := s })
      (sessions : m'.sessions = m.sessions) (flight : m'.flight = m.flight)
      (log : m'.log = m.log) : Effect m m' (.find id request)
  | session {i : Nat} {a : Session.Action V} {u : SetupCall V} {s : Session V} (ha : ofSession a)
      (hu : m.setups[i]? = some u) (hs : u.session.step a = some s)
      (setups : m'.setups = m.setups.set i { u with session := s })
      (sessions : m'.sessions = m.sessions)
      (flight : m'.flight =
        m.flight ++ if s.stopped && !u.session.stopped then [(u.id, i)] else [])
      (log : m'.log = m.log) : Effect m m' (.session i a)
  | removed {id : SessionId} {i : Nat} {rest : List (SessionId × Nat)}
      (hflight : m.flight = (id, i) :: rest) (vacant : m.sessions.lookup id = none)
      (setups : m'.setups = m.setups) (sessions : m'.sessions = m.sessions.erase id)
      (flight : m'.flight = rest) (log : m'.log = .removed id i :: m.log) : Effect m m' .remove
  | dropped {id : SessionId} {i j : Nat} {rest : List (SessionId × Nat)} {u : SetupCall V}
      {s : Session V} (hflight : m.flight = (id, i) :: rest)
      (mapped : m.sessions.lookup id = some j) (hu : m.setups[j]? = some u)
      (hs : u.session.step .disown = some s)
      (setups : m'.setups = m.setups.set j { u with session := s })
      (sessions : m'.sessions = m.sessions.erase id) (flight : m'.flight = rest)
      (log : m'.log = .removed id i :: m.log) : Effect m m' .remove
  | drained {id : SessionId} {i : Nat} {u : SetupCall V} {s t : Session V}
      (mapped : m.sessions.lookup id = some i) (hu : m.setups[i]? = some u)
      (hs : u.session.step (.find .teardown) = some s) (ht : s.step .disown = some t)
      (setups : m'.setups = m.setups.set i { u with session := t })
      (sessions : m'.sessions = m.sessions.erase id) (flight : m'.flight = m.flight)
      (log : m'.log = .drained id :: m.log) : Effect m m' (.drain id)
  | signalled (setups : m'.setups = m.setups.map SetupCall.signal)
      (sessions : m'.sessions = m.sessions) (flight : m'.flight = m.flight)
      (log : m'.log = m.log) : Effect m m' .stopAll
  | other {a : Action V} (ha : ∀ i, a.ofWorker i = false) (setups : m'.setups = m.setups)
      (sessions : m'.sessions = m.sessions) (flight : m'.flight = m.flight)
      (log : m'.log = m.log ∨ ∃ id request, m'.log = .missed id request :: m.log) :
      Effect m m' a

theorem onSession_eq_some {b : Session.Action V} :
    m.onSession i b = some m' ↔
      ∃ u s, m.setups[i]? = some u ∧ u.session.step b = some s ∧ m' = m.putSession i u s := by
  simp only [onSession, Option.bind_eq_some_iff, Option.map_eq_some_iff]
  constructor
  · rintro ⟨u, hu, s, hs, rfl⟩
    exact ⟨u, s, hu, hs, rfl⟩
  · rintro ⟨u, s, hu, hs, rfl⟩
    exact ⟨u, hu, s, hs, rfl⟩

@[simp] theorem putSession_setups (m : SessionManager V) (i : Nat) (u : SetupCall V)
    (s : Session V) : (m.putSession i u s).setups = m.setups.set i { u with session := s } := rfl

theorem putSession_flight (m : SessionManager V) (i : Nat) (u : SetupCall V) (s : Session V) :
    (m.putSession i u s).flight =
      m.flight ++ if s.stopped && !u.session.stopped then [(u.id, i)] else [] := by
  have hnotices : (m.putSession i u s).notices =
      m.notices ++ if s.stopped && !u.session.stopped then [(u.id, i)] else [] := by
    unfold putSession
    dsimp only
    split <;> simp
  have hpc : (m.putSession i u s).workerPc = m.workerPc := rfl
  unfold flight
  rw [hnotices, hpc]
  cases m.workerPc <;> rfl

/-- Nobody but its worker can make a session report its end. -/
theorem putSession_flight_of_foreign (m : SessionManager V) (i : Nat) (u : SetupCall V)
    {s : Session V} {b : Session.Action V} (hb : b.ofWorker = false)
    (hs : u.session.step b = some s) : (m.putSession i u s).flight = m.flight := by
  rw [putSession_flight, (Session.Foreign.step hb hs).stopped]
  cases u.session.stopped <;> simp

theorem effect_of_step (h : m.step a = some m') : Effect m m' a := by
  cases a with
  | setup sample target muxer =>
      simp only [step] at h
      split at h <;> cases h
      exact .setup _ rfl rfl rfl rfl rfl rfl
  | register i =>
      obtain ⟨u, hu, h⟩ := Option.bind_eq_some_iff.mp h
      split at h
      next hresult =>
        have hfresh : u.result = none := by simpa using hresult
        unfold register at h
        split at h
        next hvacant =>
          cases h
          exact .registered hu hfresh hvacant rfl rfl rfl rfl
        next j hj =>
          obtain ⟨v, s, hv, hs, rfl⟩ := onSession_eq_some.mp h
          rw [getElem?_set_of_some hu, if_pos rfl] at hv
          cases hv
          refine .refused hu hfresh hj hs ?_ rfl ?_ rfl
          · simp
          · exact putSession_flight_of_foreign _ i _ rfl hs
      next => cases h
  | find id request =>
      simp only [step] at h
      split at h
      next =>
        unfold find at h
        split at h
        next =>
          cases h
          exact .other (fun _ => rfl) rfl rfl rfl (.inr ⟨id, request, rfl⟩)
        next i hi =>
          obtain ⟨u, s, hu, hs, rfl⟩ := onSession_eq_some.mp h
          exact .found hi hu hs rfl rfl (putSession_flight_of_foreign m i u rfl hs) rfl
      next => cases h
  | session i b =>
      simp only [step] at h
      split at h
      next hb =>
        obtain ⟨u, s, hu, hs, rfl⟩ := onSession_eq_some.mp h
        exact .session hb hu hs rfl rfl (putSession_flight m i u s) rfl
      next => cases h
  | recv =>
      simp only [step, recv] at h
      split at h
      next id i notices hpc hnotices =>
        cases h
        refine .other (fun _ => rfl) rfl rfl ?_ (.inl rfl)
        simp [flight, hpc, hnotices]
      next => cases h
  | remove =>
      simp only [step, remove] at h
      split at h
      next id i hpc =>
        have hflight : m.flight = (id, i) :: m.notices := by simp [flight, hpc]
        split at h
        next hvacant =>
          cases h
          exact .removed hflight hvacant rfl rfl rfl rfl
        next j hj =>
          obtain ⟨u, s, hu, hs, rfl⟩ := onSession_eq_some.mp h
          exact .dropped hflight hj hu hs rfl rfl (putSession_flight_of_foreign _ j u rfl hs) rfl
      next => cases h
  | waitForStop src =>
      simp only [step, waitForStop] at h
      split at h
      next hpc =>
        obtain ⟨worker, -, rfl⟩ := Option.map_eq_some_iff.mp h
        refine .other (fun _ => rfl) rfl rfl ?_ (.inl rfl)
        simp [flight, hpc]
      next => cases h
  | exit =>
      simp only [step, exit] at h
      split at h <;> cases h
      next hpc =>
        refine .other (fun _ => rfl) rfl rfl ?_ (.inl rfl)
        simp [flight, hpc]
  | beginStop =>
      simp only [step] at h
      split at h <;> cases h
      exact .other (fun _ => rfl) rfl rfl rfl (.inl rfl)
  | stop =>
      obtain ⟨pc, -, h⟩ := Option.bind_eq_some_iff.mp h
      have hother : m'.setups = m.setups → m'.sessions = m.sessions → m'.flight = m.flight →
          m'.log = m.log → Effect m m' .stop :=
        fun hu hs hf hl => .other (fun _ => rfl) hu hs hf (.inl hl)
      cases pc with
      | stop =>
          obtain ⟨worker, -, rfl⟩ := Option.map_eq_some_iff.mp h
          exact hother rfl rfl rfl rfl
      | takeHold =>
          cases h
          exact hother rfl rfl rfl rfl
      | wait | drain =>
          simp only [stopStep] at h
          split at h <;> cases h
          exact hother rfl rfl rfl rfl
      | teardown i c =>
          simp only [stopStep] at h
          split at h <;> cases h
          exact hother rfl rfl rfl rfl
  | drain id =>
      simp only [step] at h
      split at h
      next =>
        obtain ⟨i, hi, h⟩ := Option.bind_eq_some_iff.mp h
        obtain ⟨u, hu, h⟩ := Option.bind_eq_some_iff.mp h
        obtain ⟨m₁, h₁, h⟩ := Option.bind_eq_some_iff.mp h
        obtain ⟨m₂, h₂, rfl⟩ := Option.map_eq_some_iff.mp h
        obtain ⟨u', s, hu', hs, rfl⟩ := onSession_eq_some.mp h₁
        obtain rfl : u = u' := Option.some.inj (hu.symm.trans hu')
        obtain ⟨v, t, hv, ht, rfl⟩ := onSession_eq_some.mp h₂
        rw [putSession_setups, getElem?_set_of_some hu, if_pos rfl] at hv
        cases hv
        refine .drained hi hu hs ht ?_ rfl ?_ rfl
        · simp [note]
        · have hflight := putSession_flight_of_foreign (m.putSession i u s) i
            { u with session := s } rfl ht
          rw [putSession_flight_of_foreign m i u rfl hs] at hflight
          exact hflight
      next => cases h
  | refuse =>
      cases h
      exact .other (fun _ => rfl) rfl rfl rfl (.inl rfl)
  | stopAll =>
      cases h
      exact .signalled rfl rfl rfl rfl

/-- Only `setup` adds a session. -/
def Action.sets : Action V → Bool
  | .setup .. => true
  | _ => false

theorem setups_length_of_step (h : m.step a = some m') (ha : a.sets = false) :
    m'.setups.length = m.setups.length := by
  cases effect_of_step h with
  | setup => cases ha
  | registered _ _ _ setups | refused _ _ _ _ setups | found _ _ _ setups | session _ _ _ setups
  | removed _ _ setups | dropped _ _ _ _ setups | drained _ _ _ _ setups | signalled setups
  | other _ setups => simp [setups]

/-! ## The sessions of a manager run as sessions -/

/-- `v` is what became of `u`, whose worker took `n` steps. -/
structure Follows (u v : SetupCall V) (n : Nat) : Prop where
  id : v.id = u.id
  result : ∀ r, u.result = some r → v.result = some r
  run : ∃ as, Transition.run Session.step u.session as = some v.session ∧
    as.countP Session.Action.ofWorker = n

namespace Follows

theorem refl (u : SetupCall V) : Follows u u 0 := ⟨rfl, fun _ h => h, [], rfl, rfl⟩

theorem trans {w : SetupCall V} {n k : Nat} (h : Follows u v n) (h' : Follows v w k) :
    Follows u w (n + k) := by
  obtain ⟨hid, hresult, as, has, hn⟩ := h
  obtain ⟨hid', hresult', bs, hbs, hk⟩ := h'
  refine ⟨hid'.trans hid, fun r hr => hresult' r (hresult r hr), as ++ bs, ?_, ?_⟩
  · exact Transition.run_append_eq_some.mpr ⟨v.session, has, hbs⟩
  · rw [List.countP_append, hn, hk]

theorem of_step {b : Session.Action V} (hid : v.id = u.id)
    (hresult : ∀ r, u.result = some r → v.result = some r)
    (hs : u.session.step b = some v.session) : Follows u v b.ofWorker.toNat := by
  refine ⟨hid, hresult, [b], (Transition.run_singleton _ _).trans hs, ?_⟩
  cases h : b.ofWorker <;> simp [h]

theorem of_set {w : SetupCall V} {n : Nat} (hw : m.setups[j]? = some w)
    (hset : m'.setups = m.setups.set j v) (hf : Follows w v n) (hu : m.setups[i]? = some u) :
    ∃ v', m'.setups[i]? = some v' ∧ Follows u v' (if i = j then n else 0) := by
  rw [hset, getElem?_set_of_some hw]
  by_cases hij : i = j
  · subst hij
    obtain rfl : w = u := Option.some.inj (hw.symm.trans hu)
    exact ⟨v, if_pos rfl, (if_pos rfl).symm ▸ hf⟩
  · exact ⟨u, (if_neg hij).trans hu, (if_neg hij).symm ▸ .refl u⟩

end Follows

theorem Effect.follows (h : Effect m m' a) (hu : m.setups[i]? = some u) :
    ∃ v, m'.setups[i]? = some v ∧ Follows u v (a.ofWorker i).toNat := by
  cases h with
  | setup w _ _ setups =>
      refine ⟨u, ?_, .refl u⟩
      rw [setups, List.getElem?_append_of_some hu]
  | registered hw fresh _ setups =>
      simpa [Action.ofWorker] using Follows.of_set hw setups
        ⟨rfl, fun r hr => by simp [fresh] at hr, [], rfl, rfl⟩ hu
  | refused hw fresh _ hs setups =>
      simpa [Action.ofWorker, Session.Action.ofWorker] using Follows.of_set hw setups
        (.of_step rfl (fun r hr => by simp [fresh] at hr) hs) hu
  | found _ hw hs setups =>
      simpa [Action.ofWorker, Session.Action.ofWorker] using Follows.of_set hw setups
        (.of_step rfl (fun _ hr => hr) hs) hu
  | @session k b w s _ hw hs setups =>
      have := Follows.of_set hw setups (.of_step rfl (fun _ hr => hr) hs) hu
      by_cases hk : i = k
      · simpa [Action.ofWorker, hk] using this
      · simpa [Action.ofWorker, hk, Ne.symm hk] using this
  | removed _ _ setups => exact ⟨u, setups ▸ hu, .refl u⟩
  | other ha setups => exact ⟨u, setups ▸ hu, by simpa [ha i] using Follows.refl u⟩
  | dropped _ _ hw hs setups =>
      simpa [Action.ofWorker, Session.Action.ofWorker] using Follows.of_set hw setups
        (.of_step rfl (fun _ hr => hr) hs) hu
  | @drained id k w s t _ hw hs ht setups =>
      have hfound : Follows w { w with session := s } 0 :=
        .of_step (b := .find .teardown) rfl (fun _ hr => hr) hs
      have hdropped : Follows { w with session := s } { w with session := t } 0 :=
        .of_step (b := .disown) rfl (fun _ hr => hr) ht
      simpa [Action.ofWorker] using Follows.of_set hw setups (hfound.trans hdropped) hu
  | signalled setups =>
      refine ⟨u.signal, by rw [setups, List.getElem?_map, hu]; rfl, ?_⟩
      exact .of_step rfl (fun _ hr => hr) (b := .stopAll) rfl

theorem run_session {as : List (Action V)} (h : Transition.run step m as = some m')
    (hu : m.setups[i]? = some u) :
    ∃ v, m'.setups[i]? = some v ∧ Follows u v (as.countP (Action.ofWorker i)) := by
  induction as generalizing m u with
  | nil =>
      obtain rfl : m = m' := Option.some.inj h
      exact ⟨u, hu, .refl u⟩
  | cons a as ih =>
      obtain ⟨m₁, ha, h⟩ := Transition.run_cons_eq_some.mp h
      obtain ⟨v, hv, hf⟩ := (effect_of_step ha).follows hu
      obtain ⟨w, hw, hf'⟩ := ih h hv
      refine ⟨w, hw, ?_⟩
      have hcount : (a :: as).countP (Action.ofWorker i) =
          (a.ofWorker i).toNat + as.countP (Action.ofWorker i) := by
        rw [List.countP_cons, Nat.add_comm]
        cases a.ofWorker i <;> rfl
      exact hcount ▸ hf.trans hf'

theorem session_step {b : Session.Action V} (hu : m.setups[i]? = some u)
    (h : m.step (.session i b) = some m') :
    ∃ s, u.session.step b = some s ∧ m'.setups[i]? = some { u with session := s } := by
  simp only [step] at h
  split at h
  next =>
    obtain ⟨w, s, hw, hs, rfl⟩ := onSession_eq_some.mp h
    obtain rfl : u = w := Option.some.inj (hu.symm.trans hw)
    exact ⟨s, hs, by rw [putSession_setups, getElem?_set_of_some hw, if_pos rfl]⟩
  next => cases h

theorem ofSession_of_ofWorker {b : Session.Action V} (h : b.ofWorker) : ofSession b := by
  cases b <;> first | rfl | cases h

/-- Steps that a session can take by itself, the manager lets it take. -/
theorem exists_step_session {b : Session.Action V} {s : Session V} (hb : ofSession b)
    (hu : m.setups[i]? = some u) (hs : u.session.step b = some s) :
    ∃ m', m.step (.session i b) = some m' ∧ m'.setups[i]? = some { u with session := s } ∧
      m'.sessions = m.sessions ∧ m'.workerPc = m.workerPc ∧ m'.notices =
        m.notices ++ if s.stopped && !u.session.stopped then [(u.id, i)] else [] := by
  refine ⟨m.putSession i u s, ?_, ?_, rfl, rfl, ?_⟩
  · simp only [step, hb, if_true]
    exact onSession_eq_some.mpr ⟨u, s, hu, hs, rfl⟩
  · rw [putSession_setups, getElem?_set_of_some hu, if_pos rfl]
  · unfold putSession
    dsimp only
    split <;> simp

theorem exists_run_session {bs : List (Session.Action V)} {s : Session V}
    (hbs : ∀ b ∈ bs, ofSession b) (hu : m.setups[i]? = some u)
    (h : Transition.run Session.step u.session bs = some s) :
    ∃ m', Transition.run step m (bs.map (.session i)) = some m' ∧
      m'.setups[i]? = some { u with session := s } ∧ m'.sessions = m.sessions ∧
      m'.workerPc = m.workerPc ∧ m'.notices =
        m.notices ++ if s.stopped && !u.session.stopped then [(u.id, i)] else [] := by
  induction bs generalizing m u with
  | nil =>
      obtain rfl : u.session = s := Option.some.inj h
      exact ⟨m, rfl, hu, rfl, rfl, by cases u.session.stopped <;> simp⟩
  | cons b bs ih =>
      obtain ⟨t, ht, h⟩ := Transition.run_cons_eq_some.mp h
      obtain ⟨m₁, h₁, hu₁, hsessions₁, hpc₁, hnotices₁⟩ :=
        exists_step_session (hbs b List.mem_cons_self) hu ht
      obtain ⟨m₂, h₂, hu₂, hsessions₂, hpc₂, hnotices₂⟩ :=
        ih (fun b hb => hbs b (List.mem_cons_of_mem _ hb)) hu₁ h
      refine ⟨m₂, Transition.run_cons_eq_some.mpr ⟨m₁, h₁, h₂⟩, hu₂,
        hsessions₂.trans hsessions₁, hpc₂.trans hpc₁, ?_⟩
      rw [hnotices₂, hnotices₁]
      have hmono : u.session.stopped → t.stopped := Session.stopped_step ht
      have hmono' : t.stopped → s.stopped := Session.stopped_run h
      cases hu' : u.session.stopped <;> cases ht' : t.stopped <;> cases hs' : s.stopped <;>
        simp_all

/-- Only `setup` adds a session, and it is a new one. -/
theorem Effect.init (h : Effect m m' a) (hnone : m.setups[i]? = none)
    (hv : m'.setups[i]? = some v) : v.result = none ∧ (Session.system V).init v.session := by
  have hset : ∀ {j} {w w' : SetupCall V}, m.setups[j]? = some w →
      m'.setups = m.setups.set j w' → v.result = none ∧ (Session.system V).init v.session := by
    intro j w w' hw setups
    rw [setups, getElem?_set_of_some hw] at hv
    split at hv
    next hij => simp [hij, hw] at hnone
    next => simp [hv] at hnone
  cases h with
  | setup w fresh init setups =>
      rw [setups] at hv
      rcases List.getElem?_concat_eq_some hv with ⟨hold, -⟩ | ⟨-, rfl⟩
      · simp [hnone] at hold
      · exact ⟨fresh, _, _, _, _, init⟩
  | registered hw _ _ setups | refused hw _ _ _ setups | found _ hw _ setups
  | session _ hw _ setups | dropped _ _ hw _ setups | drained _ hw _ _ setups =>
      exact hset hw setups
  | removed _ _ setups | other _ setups => simp [← setups, hv] at hnone
  | signalled setups => simp [setups, hnone] at hv

/-- Every session of a reachable manager is a reachable session. -/
theorem session_of_reachable (h : (system V).Reachable m) (hu : m.setups[i]? = some u) :
    (Session.system V).Reachable u.session := by
  refine h.invariant (I := fun m => ∀ i u, m.setups[i]? = some u →
    (Session.system V).Reachable u.session) ?_ ?_ i u hu
  · rintro _ ⟨accepted, stopAll, rfl⟩ i u hu
    simp [start] at hu
  · intro m a m' _ hi ha i v hv
    have heffect := effect_of_step ha
    cases hu : m.setups[i]? with
    | none => exact .init (heffect.init hu hv).2
    | some u =>
        obtain ⟨v', hv', hf⟩ := heffect.follows hu
        obtain rfl : v' = v := Option.some.inj (hv'.symm.trans hv)
        obtain ⟨as, has, -⟩ := hf.run
        exact (hi i u hu).run has

/-! ## Who owns the sessions -/

theorem ofSession_frame {b : Session.Action V} {s s' : Session V} (hb : ofSession b)
    (h : s.step b = some s') : s'.owner = s.owner ∧ (s.calls = [] → s'.calls = []) := by
  cases Session.effect_of_step h with
  | call hc hcalled => exact ⟨hcalled.caller.owner, fun hnil => by simp [hnil] at hc⟩
  | closeMedia _ heq =>
      subst heq
      exact ⟨rfl, id⟩
  | find | disown | stopAll => cases hb
  | poll | reset | packet | took | tookPlay | deserted | waitForStop | reply | trySend | exit =>
      have hown := Session.Own.step rfl h
      exact ⟨hown.owner, fun hc => hown.calls.trans hc⟩

/-- The `setup` call owns its session until it has registered it, and leaves
nothing of a session that it could not register. -/
structure SetupCall.Owns (u : SetupCall V) : Prop where
  fresh : u.result = none → u.session.owner = true ∧ u.session.calls = []
  refused : ∀ e, u.result = some (.error e) → u.session.owner = false ∧ u.session.calls = []

theorem forall_set {P : Nat → SetupCall V → Prop}
    (hi : ∀ i u, m.setups[i]? = some u → P i u) (hw : m.setups[j]? = some u)
    (hset : m'.setups = m.setups.set j v) (hv : P j v) :
    ∀ i u, m'.setups[i]? = some u → P i u := by
  intro i w hw'
  rw [hset, getElem?_set_of_some hw] at hw'
  split at hw'
  next hij =>
    cases hw'
    exact hij ▸ hv
  next => exact hi i w hw'

structure Registry (m : SessionManager V) : Prop where
  owns : ∀ (i : Nat) (u : SetupCall V), m.setups[i]? = some u → u.Owns
  mapped : ∀ id i, m.sessions.lookup id = some i →
    ∃ u : SetupCall V, m.setups[i]? = some u ∧ u.id = id ∧ u.result = some (.ok id) ∧
      u.session.owner = true

namespace Registry

theorem disown {s s' : Session V} (h : s.step .disown = some s') :
    s' = { s with owner := false } := by
  cases Session.effect_of_step h with
  | disown _ heq => exact heq

/-- A session that is not in the map is not one that was registered. -/
theorem ne_of_mapped (hi : Registry m) (hu : m.setups[i]? = some u)
    (hid : u.result ≠ some (.ok id)) :
    m.sessions.lookup id ≠ some i := by
  intro h
  obtain ⟨v, hv, -, hresult, -⟩ := hi.mapped id i h
  obtain rfl : u = v := Option.some.inj (hu.symm.trans hv)
  exact hid hresult

theorem mapped_set (hi : Registry m) (hw : m.setups[j]? = some u)
    (hset : m'.setups = m.setups.set j v) (hv : ∀ id, m.sessions.lookup id = some j →
      m'.sessions.lookup id = some j → v.id = u.id ∧ v.result = u.result ∧ v.session.owner = true)
    (hlookup : ∀ id i, m'.sessions.lookup id = some i → m.sessions.lookup id = some i) :
    ∀ id i, m'.sessions.lookup id = some i →
      ∃ u : SetupCall V, m'.setups[i]? = some u ∧ u.id = id ∧ u.result = some (.ok id) ∧
        u.session.owner = true := by
  intro id i h
  obtain ⟨w, hw', hid, hresult, howner⟩ := hi.mapped id i (hlookup id i h)
  rw [hset, getElem?_set_of_some hw]
  by_cases hij : i = j
  · subst hij
    obtain rfl : u = w := Option.some.inj (hw.symm.trans hw')
    obtain ⟨hid', hresult', howner'⟩ := hv id (hlookup id i h) h
    exact ⟨v, if_pos rfl, hid'.trans hid, hresult'.trans hresult, howner'⟩
  · exact ⟨w, (if_neg hij).trans hw', hid, hresult, howner⟩

/-- What is in the map before and after a step that changes one session. -/
theorem lookup_of_erase {id id' : SessionId} (sessions : m'.sessions = m.sessions.erase id)
    (h : m'.sessions.lookup id' = some i) : id' ≠ id ∧ m.sessions.lookup id' = some i := by
  have hne : id' ≠ id := by
    rintro rfl
    simp [sessions, AList.lookup_erase] at h
  rw [sessions, AList.lookup_erase_ne hne] at h
  exact ⟨hne, h⟩

/-- The session that has the id is taken out of the map. -/
theorem taken {s : Session V} (hi : Registry m) (hmapped : m.sessions.lookup id = some j)
    (hu : m.setups[j]? = some u) (setups : m'.setups = m.setups.set j { u with session := s })
    (sessions : m'.sessions = m.sessions.erase id) : Registry m' := by
  obtain ⟨w, hw, -, hresult, -⟩ := hi.mapped id j hmapped
  obtain rfl : u = w := Option.some.inj (hu.symm.trans hw)
  constructor
  · exact forall_set (P := fun _ u => u.Owns) hi.owns hu setups
      ⟨by simp [hresult], by simp [hresult]⟩
  · refine hi.mapped_set hu setups (fun id' h h' => ?_) fun _ _ h => (lookup_of_erase sessions h).2
    have hne : id ≠ id' := (lookup_of_erase sessions h').1.symm
    exact absurd h (hi.ne_of_mapped hu (by simp [hresult, hne]))

theorem step (hi : Registry m) (h : m.step a = some m') : Registry m' := by
  cases effect_of_step h with
  | setup w fresh init setups sessions =>
      constructor
      · intro i u hu
        rw [setups] at hu
        rcases List.getElem?_concat_eq_some hu with ⟨hu, -⟩ | ⟨-, rfl⟩
        · exact hi.owns i u hu
        · exact ⟨fun _ => by simp [init, Session.setupAndStart], fun e he => by simp [fresh] at he⟩
      · intro id i hlookup
        rw [sessions] at hlookup
        obtain ⟨u, hu, hrest⟩ := hi.mapped id i hlookup
        refine ⟨u, ?_, hrest⟩
        rw [setups, List.getElem?_append_of_some hu]
  | @registered k w hw fresh vacant setups sessions =>
      obtain ⟨howner, hcalls⟩ := (hi.owns k w hw).fresh fresh
      constructor
      · exact forall_set (P := fun _ u => u.Owns) hi.owns hw setups ⟨by simp, by simp⟩
      · intro id i hlookup
        rw [sessions] at hlookup
        by_cases hid : id = w.id
        · subst hid
          obtain rfl : k = i := by simpa [AList.lookup_insert] using hlookup
          refine ⟨{ w with result := some (.ok w.id) }, ?_, rfl, rfl, howner⟩
          rw [setups, getElem?_set_of_some hw, if_pos rfl]
        · rw [AList.lookup_insert_ne hid] at hlookup
          obtain ⟨u, hu, hrest⟩ := hi.mapped id i hlookup
          have hne : i ≠ k := by
            rintro rfl
            exact hi.ne_of_mapped hw (by simp [fresh]) hlookup
          exact ⟨u, by rw [setups, getElem?_set_of_some hw, if_neg hne, hu], hrest⟩
  | @refused k _ w s hw fresh _ hs setups sessions =>
      obtain rfl := disown hs
      obtain ⟨-, hcalls⟩ := (hi.owns k w hw).fresh fresh
      constructor
      · exact forall_set (P := fun _ u => u.Owns) hi.owns hw setups
          ⟨by simp, fun _ _ => ⟨rfl, hcalls⟩⟩
      · refine hi.mapped_set hw setups (fun id hlookup => ?_) fun id i => by
          rw [sessions]; exact fun h => h
        exact absurd hlookup (hi.ne_of_mapped hw (by simp [fresh]))
  | @found id _ k w s mapped hw hs setups sessions =>
      obtain ⟨w', hw', -, hresult, howner⟩ := hi.mapped id k mapped
      obtain rfl : w = w' := Option.some.inj (hw.symm.trans hw')
      have howner' : s.owner = true := by
        cases Session.effect_of_step hs with
        | find _ heq => rw [heq, howner]
      constructor
      · exact forall_set (P := fun _ u => u.Owns) hi.owns hw setups
          ⟨by simp [hresult], by simp [hresult]⟩
      · exact hi.mapped_set hw setups (fun _ _ _ => ⟨rfl, rfl, howner'⟩) fun _ _ h => sessions ▸ h
  | @session k b w s hb hw hs setups sessions =>
      obtain ⟨howner, hcalls⟩ := ofSession_frame hb hs
      have howns := hi.owns k w hw
      constructor
      · refine forall_set (P := fun _ u => u.Owns) hi.owns hw setups ⟨fun hr => ?_, fun e hr => ?_⟩
        · obtain ⟨ho, hc⟩ := howns.fresh hr
          exact ⟨howner.trans ho, hcalls hc⟩
        · obtain ⟨ho, hc⟩ := howns.refused e hr
          exact ⟨howner.trans ho, hcalls hc⟩
      · refine hi.mapped_set hw setups (fun id h _ => ⟨rfl, rfl, ?_⟩) fun _ _ h => sessions ▸ h
        obtain ⟨w', hw', -, -, ho⟩ := hi.mapped id k h
        obtain rfl : w = w' := Option.some.inj (hw.symm.trans hw')
        exact howner.trans ho
  | removed _ _ setups sessions =>
      exact ⟨setups ▸ hi.owns, fun id i h =>
        setups ▸ hi.mapped id i (lookup_of_erase sessions h).2⟩
  | dropped _ mapped hw _ setups sessions | drained mapped hw _ _ setups sessions =>
      exact hi.taken mapped hw setups sessions
  | signalled setups sessions =>
      constructor
      · intro i u hu
        rw [setups, List.getElem?_map, Option.map_eq_some_iff] at hu
        obtain ⟨w, hw, rfl⟩ := hu
        exact ⟨(hi.owns i w hw).fresh, (hi.owns i w hw).refused⟩
      · intro id i h
        obtain ⟨w, hw, hrest⟩ := hi.mapped id i (sessions ▸ h)
        exact ⟨w.signal, by rw [setups, List.getElem?_map, hw]; rfl, hrest⟩
  | other _ setups sessions => exact ⟨setups ▸ hi.owns, setups ▸ sessions ▸ hi.mapped⟩

end Registry

theorem registry_of_reachable (h : (system V).Reachable m) : Registry m :=
  h.invariant
    (by
      rintro _ ⟨accepted, stopAll, rfl⟩
      exact ⟨by simp [start], by simp [start]⟩)
    fun _ _ _ _ hi hs => hi.step hs

/-- The worker can act on the notice it has taken. -/
theorem exists_remove {k : Nat} (hm : (system V).Reachable m) (hpc : m.workerPc = .remove id k) :
    ∃ m', m.step .remove = some m' ∧ m'.workerPc = .select ∧ m'.notices = m.notices ∧
      m'.sessions = m.sessions.erase id := by
  cases hj : m.sessions.lookup id with
  | none =>
      refine ⟨{ m with workerPc := .select, sessions := m.sessions.erase id }.note (.removed id k),
        ?_, rfl, rfl, rfl⟩
      simp [step, remove, hpc, hj]
  | some j =>
      obtain ⟨u, hu, -, -, howner⟩ := (registry_of_reachable hm).mapped id j hj
      have hs : u.session.step .disown = some { u.session with owner := false } := by
        simp [Session.step, howner]
      refine ⟨({ m with workerPc := .select, sessions := m.sessions.erase id }.note
        (.removed id k)).putSession j u { u.session with owner := false }, ?_, rfl, ?_, rfl⟩
      · simp only [step, remove, hpc, hj]
        exact onSession_eq_some.mpr ⟨u, _, hu, hs, rfl⟩
      · simp [putSession, note]

/-! ## Notices -/

/-- The notice of session `i`, if the session has stopped, is in flight or acted
on. -/
def Reported (m : SessionManager V) (i : Nat) (u : SetupCall V) : Prop :=
  u.session.stopped = true → (u.id, i) ∈ m.flight ∨ .removed u.id i ∈ m.log

structure Notified (m : SessionManager V) : Prop where
  stopped : ∀ id i, (id, i) ∈ m.flight →
    ∃ u : SetupCall V, m.setups[i]? = some u ∧ u.id = id ∧ u.session.stopped = true
  sent : ∀ (i : Nat) (u : SetupCall V), m.setups[i]? = some u → Reported m i u

namespace Notified

/-- A step takes a notice out of the flight only to act on it. -/
theorem flight (h : Effect m m' a) :
    (∀ x ∈ m.flight, x ∈ m'.flight ∨ .removed x.1 x.2 ∈ m'.log) ∧ ∀ r ∈ m.log, r ∈ m'.log := by
  cases h with
  | setup _ _ _ _ _ flight log | refused _ _ _ _ _ _ flight log
  | found _ _ _ _ _ flight log | signalled _ _ flight log =>
      exact ⟨fun x hx => .inl (flight ▸ hx), fun r hr => log ▸ hr⟩
  | registered _ _ _ _ _ flight log | drained _ _ _ _ _ _ flight log =>
      exact ⟨fun x hx => .inl (flight ▸ hx), fun r hr => log ▸ List.mem_cons_of_mem _ hr⟩
  | session _ _ _ _ _ flight log =>
      exact ⟨fun x hx => .inl (flight ▸ List.mem_append_left _ hx), fun r hr => log ▸ hr⟩
  | removed hflight _ _ _ flight log | dropped hflight _ _ _ _ _ flight log =>
      refine ⟨fun x hx => ?_, fun r hr => log ▸ List.mem_cons_of_mem _ hr⟩
      rw [hflight] at hx
      rcases List.mem_cons.mp hx with rfl | hx
      · exact .inr (log ▸ List.mem_cons_self)
      · exact .inl (flight ▸ hx)
  | other _ _ _ flight log =>
      refine ⟨fun x hx => .inl (flight ▸ hx), fun r hr => ?_⟩
      rcases log with log | ⟨id, request, log⟩
      · exact log ▸ hr
      · exact log ▸ List.mem_cons_of_mem _ hr

theorem step (hi : Notified m) (h : m.step a = some m') : Notified m' := by
  have heffect := effect_of_step h
  obtain ⟨hflight, hlog⟩ := flight heffect
  have hsent : ∀ (i : Nat) (u : SetupCall V), m.setups[i]? = some u → Reported m' i u :=
    fun i u hu hs => (hi.sent i u hu hs).elim (hflight _) fun h => .inr (hlog _ h)
  -- A notice that was in flight is of a session that is still there, and still stopped.
  have hstopped : ∀ id i, (id, i) ∈ m.flight →
      ∃ u : SetupCall V, m'.setups[i]? = some u ∧ u.id = id ∧ u.session.stopped = true := by
    intro id i hmem
    obtain ⟨u, hu, hid, hs⟩ := hi.stopped id i hmem
    obtain ⟨v, hv, hf⟩ := heffect.follows hu
    obtain ⟨as, has, -⟩ := hf.run
    exact ⟨v, hv, hf.id.trans hid, Session.stopped_run has hs⟩
  have hset : ∀ {j : Nat} {w w' : SetupCall V}, m.setups[j]? = some w →
      m'.setups = m.setups.set j w' → w'.id = w.id →
      w'.session.stopped = w.session.stopped → ∀ (i : Nat) (u : SetupCall V),
        m'.setups[i]? = some u → Reported m' i u := by
    intro j w w' hw setups hid hs
    refine forall_set hsent hw setups fun h => ?_
    rw [hid]
    exact hsent j w hw (hs ▸ h)
  cases heffect with
  | setup w _ init setups _ flight log =>
      refine ⟨fun id i h => hstopped id i (flight ▸ h), fun i u hu => ?_⟩
      rw [setups] at hu
      rcases List.getElem?_concat_eq_some hu with ⟨hu, -⟩ | ⟨-, rfl⟩
      · exact hsent i u hu
      · intro hs
        simp [init, Session.setupAndStart] at hs
  | registered hw _ _ setups _ flight log =>
      exact ⟨fun id i h => hstopped id i (flight ▸ h), hset hw setups rfl rfl⟩
  | refused hw _ _ hs setups _ flight log | found _ hw hs setups _ flight log =>
      exact ⟨fun id i h => hstopped id i (flight ▸ h),
        hset hw setups rfl (Session.Foreign.step rfl hs).stopped⟩
  | @session k b w s _ hw hs setups _ flight log =>
      constructor
      · intro id i hmem
        rw [flight] at hmem
        rcases List.mem_append.mp hmem with hmem | hmem
        · exact hstopped id i hmem
        · split at hmem
          next hnew =>
            obtain ⟨rfl, rfl⟩ : id = w.id ∧ i = k := by simpa using hmem
            refine ⟨{ w with session := s }, ?_, rfl, (Bool.and_eq_true_iff.mp hnew).1⟩
            rw [setups, getElem?_set_of_some hw, if_pos rfl]
          next => cases hmem
      · refine forall_set hsent hw setups fun h => ?_
        cases hold : w.session.stopped with
        | true => exact hsent k w hw hold
        | false =>
            left
            rw [flight]
            exact List.mem_append_right _ (by simp [show s.stopped = true from h, hold])
  | removed hflight _ setups _ flight log =>
      refine ⟨fun id i h => hstopped id i ?_, setups ▸ hsent⟩
      exact hflight ▸ List.mem_cons_of_mem _ (flight ▸ h)
  | dropped hflight _ hw hs setups _ flight log =>
      refine ⟨fun id i h => hstopped id i ?_,
        hset hw setups rfl (Session.Foreign.step rfl hs).stopped⟩
      exact hflight ▸ List.mem_cons_of_mem _ (flight ▸ h)
  | drained _ hw hs ht setups _ flight log =>
      refine ⟨fun id i h => hstopped id i (flight ▸ h), hset hw setups rfl ?_⟩
      exact (Session.Foreign.step rfl ht).stopped.trans (Session.Foreign.step rfl hs).stopped
  | signalled setups _ flight log =>
      refine ⟨fun id i h => hstopped id i (flight ▸ h), fun i u hu => ?_⟩
      rw [setups, List.getElem?_map, Option.map_eq_some_iff] at hu
      obtain ⟨w, hw, rfl⟩ := hu
      exact hsent i w hw
  | other _ setups _ flight log =>
      exact ⟨fun id i h => hstopped id i (flight ▸ h), setups ▸ hsent⟩

end Notified

theorem notified_of_reachable (h : (system V).Reachable m) : Notified m :=
  h.invariant
    (by
      rintro _ ⟨accepted, stopAll, rfl⟩
      refine ⟨fun id i h => ?_, by simp [start]⟩
      cases accepted <;> simp [start, flight] at h)
    fun _ _ _ _ hi hs => hi.step hs

/-! ## The map and the log -/

/-- The session that the map should hold under `id`. -/
def current (id : SessionId) : List Record → Option Nat
  | [] => none
  | .registered id' i :: log => if id' = id then some i else current id log
  | .removed id' _ :: log | .drained id' :: log => if id' = id then none else current id log
  | .missed .. :: log => current id log

/-- The last session registered under `id`. -/
def newest (id : SessionId) : List Record → Option Nat
  | [] => none
  | .registered id' i :: log => if id' = id then some i else newest id log
  | .removed .. :: log | .drained .. :: log | .missed .. :: log => newest id log

theorem newest_of_current {log : List Record} (h : current id log = some i) :
    newest id log = some i := by
  induction log with
  | nil => cases h
  | cons r log ih =>
      cases r with
      | registered id' j =>
          unfold current at h
          unfold newest
          split at h
          next hid => rw [if_pos hid, h]
          next hid => rw [if_neg hid, ih h]
      | removed id' j | drained id' =>
          unfold current at h
          split at h
          · cases h
          · exact ih h
      | missed => exact ih h

theorem lookup_eq_current (h : (system V).Reachable m) (id : SessionId) :
    m.sessions.lookup id = current id m.log := by
  refine h.invariant (I := fun m => m.sessions.lookup id = current id m.log) ?_ ?_
  · rintro _ ⟨accepted, stopAll, rfl⟩
    rfl
  · intro m a m' _ hi ha
    cases effect_of_step ha with
    | setup _ _ _ _ sessions _ log | refused _ _ _ _ _ sessions _ log
    | found _ _ _ _ sessions _ log | session _ _ _ _ sessions _ log
    | signalled _ sessions _ log => rw [sessions, log, hi]
    | @registered i u _ _ _ _ sessions _ log =>
        rw [sessions, log, current]
        by_cases hid : u.id = id
        · rw [if_pos hid, ← hid, AList.lookup_insert]
        · rw [if_neg hid, AList.lookup_insert_ne (Ne.symm hid), hi]
    | @removed id' i _ _ _ _ sessions _ log | @dropped id' i _ _ _ _ _ _ _ _ _ sessions _ log
    | @drained id' i _ _ _ _ _ _ _ _ sessions _ log =>
        rw [sessions, log, current]
        by_cases hid : id' = id
        · rw [if_pos hid, ← hid, AList.lookup_erase]
        · rw [if_neg hid, AList.lookup_erase_ne (Ne.symm hid), hi]
    | other _ _ sessions _ log =>
        rw [sessions, hi]
        rcases log with log | ⟨id', request, log⟩ <;> rw [log]
        rfl

end SessionManager

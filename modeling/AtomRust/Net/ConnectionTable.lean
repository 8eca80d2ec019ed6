-- SUMMARY: Which connections the manager's map holds when nothing is under way, and how an entry comes to stay in it.
import AtomRust.Net.Roster

/-!
# The connection table

`spawn` starts the worker before it inserts the entry, and the worker reports its
end by itself. If the manager acts on that report first, there is nothing to remove
yet, and the entry that comes after it stays. `Late` says so of the log, and `Table`
says that there is no other way for the map and the workers to differ.
-/

namespace ConnectionManager
variable {μ κ ρ : Type} {m m' : ConnectionManager μ κ ρ} {a : Action μ κ ρ} {id : ConnectionId}
  {i j : Nat} {u v : SpawnCall μ κ ρ}

/-- The steps of `spawn`, of the connection workers and of the manager's worker, as
long as nobody stops anything. -/
def Action.serves : Action μ κ ρ → Bool
  | .spawn | .insert | .poll _ | .conn .. | .connStop .. | .connExit _ | .finish _ | .recv
  | .remove => true
  | .waitForStop _ | .exit | .beginStop | .stop | .drain _ | .refuse | .stopAll => false

/-- The map holds the ids of the workers that have not sent their notice. -/
def Exact (m : ConnectionManager μ κ ρ) : Prop :=
  ∀ id, id ∈ m.connections ↔
    ∃ u ∈ m.spawns, SpawnCall.id u = id ∧ u.life ≠ .refused ∧ u.sent = false

/-- `spawn` inserted the connection after the worker had acted on its notice. -/
def Late (id : ConnectionId) : List Record → Prop
  | [] => False
  | .inserted id' :: log => id' = id ∧ .removed id ∈ log ∨ Late id log
  | .removed _ :: log => Late id log

theorem Late.inserted {log : List Record} (h : Late id log) : .inserted id ∈ log := by
  induction log with
  | nil => exact h.elim
  | cons r log ih =>
      cases r with
      | inserted id' =>
          rcases h with ⟨rfl, -⟩ | h
          · exact List.mem_cons_self
          · exact List.mem_cons_of_mem _ (ih h)
      | removed id' => exact List.mem_cons_of_mem _ (ih h)

theorem Late.removed {log : List Record} (h : Late id log) : .removed id ∈ log := by
  induction log with
  | nil => exact h.elim
  | cons r log ih =>
      cases r with
      | inserted id' =>
          rcases h with ⟨-, h⟩ | h
          · exact List.mem_cons_of_mem _ h
          · exact List.mem_cons_of_mem _ (ih h)
      | removed id' => exact List.mem_cons_of_mem _ (ih h)

/-! ## The invariant -/

structure Table (m : ConnectionManager μ κ ρ) : Prop where
  accepting : m.accepting = true
  workerPc : m.workerPc = .select ∨ ∃ id, m.workerPc = .remove id
  started : ∀ u ∈ m.spawns, SpawnCall.life u ≠ .refused
  inserted : ∀ (i : Nat) (u : SpawnCall μ κ ρ), m.spawns[i]? = some u →
    (.inserted u.id ∈ m.log ↔ m.spawning ≠ some i)
  sent : ∀ (i : Nat) (u : SpawnCall μ κ ρ), m.spawns[i]? = some u →
    (u.sent ↔ u.id ∈ m.flight ∨ .removed u.id ∈ m.log)
  flight : m.flight.Nodup
  once : ∀ id ∈ m.flight, .removed id ∉ m.log
  logged : ∀ id, .inserted id ∈ m.log ∨ .removed id ∈ m.log → ∃ u ∈ m.spawns, SpawnCall.id u = id
  mapped : ∀ id, id ∈ m.connections ↔
    .inserted id ∈ m.log ∧ (.removed id ∉ m.log ∨ Late id m.log)

namespace Table

theorem start (stopAll : List Unit) :
    Table (ConnectionManager.start true stopAll : ConnectionManager μ κ ρ) := by
  constructor <;> simp [ConnectionManager.start, ConnectionManager.flight]

/-! ## Steps -/

theorem spawn (hm : Roster m) (ht : Table m) (hquiet : m.quiet) (h : m.spawn = some m') :
    Table m' := by
  have hnone : m.spawning = none := by simp_all [quiet]
  obtain rfl := eq_of_spawn h
  -- Nothing has been heard of the new id.
  have hnew : ∀ w ∈ m.spawns, w.id ≠ ⟨m.generator.next⟩ := by
    intro w hw h
    obtain ⟨j, hj⟩ := List.mem_iff_getElem?.mp hw
    have hlt := (List.getElem?_eq_some_iff.mp hj).1
    rw [hm.ids j w hj, hm.generator] at h
    exact absurd (ConnectionId.mk.inj h) (by omega)
  have hlog : ¬ (.inserted ⟨m.generator.next⟩ ∈ m.log ∨
      .removed ⟨m.generator.next⟩ ∈ m.log) := fun h => by
    obtain ⟨w, hw, hid⟩ := ht.logged _ h
    exact hnew w hw hid
  have hflight : ⟨m.generator.next⟩ ∉ m.flight := fun h => by
    obtain ⟨w, hw, -⟩ := hm.flight _ h
    have hlt := (List.getElem?_eq_some_iff.mp hw).1
    simp [hm.generator] at hlt
  refine ⟨ht.accepting, ht.workerPc, ?_, ?_, ?_, ht.flight, ht.once, ?_, ht.mapped⟩
  · intro w hw
    rcases List.mem_append.mp hw with hw | hw
    · exact ht.started w hw
    · rw [List.mem_singleton.mp hw]
      exact life_started m _ ht.accepting
  · intro j w hw
    rcases List.getElem?_concat_eq_some hw with ⟨hw, hlt⟩ | ⟨rfl, rfl⟩
    · have hin : .inserted w.id ∈ m.log := (ht.inserted j w hw).mpr (by simp [hnone])
      exact iff_of_true hin fun h => absurd (Option.some.inj h) (by omega)
    · exact iff_of_false (fun h => hlog (.inl h)) (not_not_intro rfl)
  · intro j w hw
    rcases List.getElem?_concat_eq_some hw with ⟨hw, -⟩ | ⟨rfl, rfl⟩
    · exact ht.sent j w hw
    · exact iff_of_false (by simp) fun h => h.elim hflight fun h => hlog (.inr h)
  · intro id h
    obtain ⟨w, hw, hid⟩ := ht.logged id h
    exact ⟨w, List.mem_append_left _ hw, hid⟩

/-- A connection changes, but not whether it has sent its notice. -/
theorem setSpawn (ht : Table m) (hu : m.spawns[i]? = some u) (hid : v.id = u.id)
    (hlife : v.life ≠ .refused) (hsent : v.sent = u.sent) : Table (m.setSpawn i v) := by
  have hget := getElem?_setSpawn hu v
  refine { ht with started := ?_, inserted := ?_, sent := ?_, logged := ?_ }
  · intro w hw
    rcases List.mem_or_eq_of_mem_set hw with hw | rfl
    · exact ht.started w hw
    · exact hlife
  · intro j w hw
    rw [hget] at hw
    split at hw
    next h => cases hw; subst h; exact hid ▸ ht.inserted j u hu
    next => exact ht.inserted j w hw
  · intro j w hw
    rw [hget] at hw
    split at hw
    next h => cases hw; subst h; exact hsent ▸ hid ▸ ht.sent j u hu
    next => exact ht.sent j w hw
  · intro id h
    obtain ⟨w, hw, hid'⟩ := ht.logged id h
    obtain ⟨j, hj⟩ := List.mem_iff_getElem?.mp hw
    by_cases h : j = i
    · subst h
      obtain rfl : u = w := Option.some.inj (hu.symm.trans hj)
      exact ⟨v, List.mem_of_getElem? (by rw [hget, if_pos rfl]), hid.trans hid'⟩
    · exact ⟨w, List.mem_of_getElem? (by rw [hget, if_neg h, hj]), hid'⟩

theorem dropConnection (ht : Table m) (k : Option Nat) : Table (m.dropConnection k) := by
  rcases dropConnection_eq m k with h | ⟨i, u, hu, h⟩
  · exact h.symm ▸ ht
  · exact h.symm ▸ ht.setSpawn hu rfl (ht.started u (List.mem_of_getElem? hu)) rfl

theorem insertEntry (ht : Table m) (hi : m.spawning = some i)
    (hu : m.spawns[i]? = some u) :
    Table ({ m with spawning := none, connections := m.connections.insert u.id i }.note
      (.inserted u.id)) := by
  refine ⟨ht.accepting, ht.workerPc, ht.started, ?_, ?_, ht.flight, ?_, ?_, ?_⟩
  · intro j w hw
    refine iff_of_true ?_ nofun
    by_cases hj : j = i
    · subst hj
      obtain rfl : u = w := Option.some.inj (hu.symm.trans hw)
      exact List.mem_cons_self
    · exact List.mem_cons_of_mem _ ((ht.inserted j w hw).mpr (by simpa [hi] using Ne.symm hj))
  · exact fun j w hw => (ht.sent j w hw).trans (or_congr_right (by simp [note]))
  · exact fun id hid => by simpa [note] using ht.once id hid
  · intro id h
    rcases h with h | h
    · rcases List.mem_cons.mp h with h | h
      · cases h
        exact ⟨u, List.mem_of_getElem? hu, rfl⟩
      · exact ht.logged id (.inl h)
    · exact ht.logged id (.inr (by simpa [note] using h))
  · intro id
    have hmapped := ht.mapped id
    simp only [note, AList.mem_insert, List.mem_cons, Late, Record.inserted.injEq, reduceCtorEq,
      false_or]
    by_cases hid : id = u.id
    · subst hid
      simp only [true_or, true_and, true_iff]
      exact Classical.or_iff_not_imp_left.mpr fun h => .inl (not_not.mp h)
    · simp [hid, Ne.symm hid, hmapped]

theorem insert (ht : Table m) (h : m.insert = some m') : Table m' := by
  obtain ⟨i, hi, h⟩ := Option.bind_eq_some_iff.mp h
  obtain ⟨u, hu, rfl⟩ := Option.map_eq_some_iff.mp h
  obtain ⟨v, hv, hevolves⟩ := Follows.of_drop (k := m.connections.lookup u.id) rfl i u hu
  have hinsert := (ht.dropConnection (m.connections.lookup u.id)).insertEntry
    (by simpa using hi) hv
  rw [hevolves.same, dropConnection_connections] at hinsert
  exact hinsert

/-- The notice of connection `i` is sent. -/
theorem notice {disconnected : Bool} (hm : Roster m) (ht : Table m) (hu : m.spawns[i]? = some u)
    (hid : v.id = u.id) (hlife : v.life ≠ .refused) (hold : u.sent = false) (hnew : v.sent) :
    Table ({ m.setSpawn i v with notices := m.notices ++ [(u.id, disconnected)] } :
      ConnectionManager μ κ ρ) := by
  have hget := getElem?_setSpawn hu v
  have hfresh : ¬ (u.id ∈ m.flight ∨ .removed u.id ∈ m.log) := fun h => by
    simp [(ht.sent i u hu).mpr h] at hold
  obtain ⟨hflight, hlog⟩ := not_or.mp hfresh
  have happend : ConnectionManager.flight ({ m.setSpawn i v with
      notices := m.notices ++ [(u.id, disconnected)] } : ConnectionManager μ κ ρ) =
      m.flight ++ [u.id] := by
    unfold ConnectionManager.flight ConnectionManager.setSpawn
    cases m.workerPc <;> simp
  refine ⟨ht.accepting, ht.workerPc, ?_, ?_, ?_, ?_, ?_, ?_, ht.mapped⟩
  · intro w hw
    rcases List.mem_or_eq_of_mem_set hw with hw | rfl
    · exact ht.started w hw
    · exact hlife
  · intro j w hw
    rw [hget] at hw
    split at hw
    next h => cases hw; subst h; exact hid ▸ ht.inserted j u hu
    next => exact ht.inserted j w hw
  · intro j w hw
    rw [hget] at hw
    rw [happend]
    split at hw
    next h => cases hw; exact iff_of_true hnew (.inl (by simp [hid]))
    next h =>
      have hne : w.id ≠ u.id := fun heq => h (hm.eq_of_id hw hu heq)
      exact (ht.sent j w hw).trans (or_congr_left (by simp [hne]))
  · rw [happend]
    exact List.nodup_append_comm.mp (List.nodup_cons.mpr ⟨hflight, ht.flight⟩)
  · intro id' hid'
    rw [happend] at hid'
    rcases List.mem_append.mp hid' with h | h
    · exact ht.once id' h
    · rw [List.mem_singleton.mp h]
      exact hlog
  · intro id' h
    obtain ⟨w, hw, hid'⟩ := ht.logged id' h
    obtain ⟨j, hj⟩ := List.mem_iff_getElem?.mp hw
    obtain ⟨w', hw', hsame⟩ : ∃ w', (m.setSpawn i v).spawns[j]? = some w' ∧ w'.id = w.id := by
      rw [hget]
      split
      next h =>
        subst h
        obtain rfl : u = w := Option.some.inj (hu.symm.trans hj)
        exact ⟨v, rfl, hid⟩
      next => exact ⟨w, hj, rfl⟩
    exact ⟨w', List.mem_of_getElem? hw', hsame.trans hid'⟩

theorem worked {new : List (ConnectionId × Bool)} (hm : Roster m) (ht : Table m)
    (h : Worked m m' i u v new) : Table m' := by
  have hlife : v.life ≠ .refused := fun hlife =>
    ht.started u (List.mem_of_getElem? h.before) (h.evolves.refused hlife)
  have hnew := h.notice
  rw [h.after]
  split at hnew
  next hsent =>
    obtain ⟨⟨id, disconnected⟩, rfl, rfl⟩ : ∃ x, new = [x] ∧ x.1 = u.id := by
      obtain ⟨x, rest, rfl, hx, hrest⟩ := List.map_eq_cons_iff.mp hnew
      exact ⟨x, by rw [List.map_eq_nil_iff.mp hrest], hx⟩
    exact ht.notice hm h.before h.evolves.same hlife (by simp_all) (by simp_all)
  next hsent =>
    rw [List.map_eq_nil_iff.mp hnew, List.append_nil]
    apply ht.setSpawn h.before h.evolves.same hlife
    have hkeep := h.evolves.sent
    cases hu : u.sent <;> simp_all

theorem removeEntry (hm : Roster m) (ht : Table m) (hpc : m.workerPc = .remove id) :
    Table ({ m with workerPc := .select, connections := m.connections.erase id }.note
      (.removed id)) := by
  have hflight : m.flight = id :: m.notices.map Prod.fst := by
    simp [ConnectionManager.flight, hpc]
  have hnodup := ht.flight
  rw [hflight] at hnodup
  obtain ⟨hnotin, hnodup⟩ := List.nodup_cons.mp hnodup
  have hfresh : .removed id ∉ m.log := ht.once id (hflight ▸ List.mem_cons_self)
  refine ⟨ht.accepting, .inl rfl, ht.started, ?_, ?_, hnodup, ?_, ?_, ?_⟩
  · exact fun j w hw => Iff.trans (by simp [note]) (ht.inserted j w hw)
  · intro j w hw
    apply (ht.sent j w hw).trans
    rw [hflight]
    simp only [note, List.mem_cons, Record.removed.injEq]
    exact or_assoc.trans (or_left_comm.trans (by rfl))
  · intro id' hid'
    have hne : id' ≠ id := fun h => hnotin (h ▸ hid')
    simpa [note, hne] using ht.once id' (hflight ▸ List.mem_cons_of_mem _ hid')
  · intro id' h
    by_cases hid : id' = id
    · subst hid
      obtain ⟨u, hu, -⟩ := hm.flight id' (hflight ▸ List.mem_cons_self)
      exact ⟨u, List.mem_of_getElem? hu, hm.ids _ u hu⟩
    · exact ht.logged id' (by simpa [note, hid] using h)
  · intro id'
    have hmapped := ht.mapped id'
    simp only [note, AList.mem_erase, List.mem_cons, Late, Record.removed.injEq, reduceCtorEq,
      false_or]
    by_cases hid : id' = id
    · subst hid
      simp only [ne_eq, not_true_eq_false, false_and, true_or, false_or, false_iff, not_and]
      exact fun _ hlate => hfresh hlate.removed
    · simp [hid, hmapped]

theorem remove (hm : Roster m) (ht : Table m) (h : m.remove = some m') : Table m' := by
  unfold ConnectionManager.remove at h
  split at h <;> cases h
  next id hpc =>
    have hremove :=
      (ht.dropConnection (m.connections.lookup id)).removeEntry (hm.dropConnection _)
        (by simpa using hpc)
    rw [dropConnection_connections] at hremove
    exact hremove

theorem recv (ht : Table m) (h : m.recv = some m') : Table m' := by
  unfold ConnectionManager.recv at h
  split at h <;> cases h
  next id disconnected notices hpc hnotices =>
    have hflight : m.flight = id :: notices.map Prod.fst := by
      simp [ConnectionManager.flight, hpc, hnotices]
    have hsent := ht.sent
    have hnodup := ht.flight
    have honce := ht.once
    rw [hflight] at hsent hnodup honce
    exact { ht with workerPc := .inr ⟨id, rfl⟩, sent := hsent, flight := hnodup, once := honce }

theorem step (hm : Roster m) (ht : Table m) (ha : a.serves) (h : m.step a = some m') :
    Table m' := by
  by_cases hworker : a.ofWorker
  · obtain ⟨i, u, v, new, hw⟩ := worked_of_step hworker h
    exact ht.worked hm hw
  cases a with
  | poll | conn | connStop | connExit | finish => exact absurd rfl hworker
  | spawn =>
      obtain ⟨hquiet, h⟩ := Option.ite_none_right_eq_some.mp h
      exact ht.spawn hm hquiet h
  | insert => exact ht.insert h
  | recv => exact ht.recv h
  | remove => exact ht.remove hm h
  | waitForStop | exit | beginStop | stop | drain | refuse | stopAll => cases ha

theorem run {as : List (Action μ κ ρ)} (hm : Roster m) (ht : Table m)
    (ha : ∀ a ∈ as, a.serves) (h : Transition.run ConnectionManager.step m as = some m') :
    Roster m' ∧ Table m' :=
  Transition.run_invariant_of (P := fun a : Action μ κ ρ => a.serves = true)
    (I := fun m => Roster m ∧ Table m)
    (fun _ _ _ ha ⟨hm, ht⟩ hs => ⟨hm.step hs, ht.step hm ha hs⟩) ha h ⟨hm, ht⟩

/-! ## When nothing is under way -/

/-- A worker whose notice the manager has in hand is still in the map. -/
theorem select_of_exact (hm : Roster m) (ht : Table m) (hnone : m.spawning = none)
    (h : Exact m) : m.workerPc = .select := by
  apply ht.workerPc.resolve_right
  rintro ⟨id, hpc⟩
  have hid : id ∈ m.flight := by simp [ConnectionManager.flight, hpc]
  obtain ⟨u, hu, hsent⟩ := hm.flight id hid
  have hinserted : .inserted id ∈ m.log := by
    have hlog := (ht.inserted _ u hu).mpr (by simp [hnone])
    rwa [hm.ids _ u hu] at hlog
  obtain ⟨w, hw, hwid, -, hnot⟩ :=
    (h id).mp ((ht.mapped id).mpr ⟨hinserted, .inl (ht.once id hid)⟩)
  obtain ⟨j, hj⟩ := List.mem_iff_getElem?.mp hw
  obtain rfl : j = id.value := by rw [← hwid, hm.ids j w hj]
  obtain rfl : u = w := Option.some.inj (hu.symm.trans hj)
  simp [hsent] at hnot

/-- A worker whose entry came too late is still in the map. -/
theorem not_late_of_exact (ht : Table m) (h : Exact m) : ¬ Late id m.log := by
  intro hlate
  obtain ⟨u, hu, hid, -, hnot⟩ := (h id).mp ((ht.mapped id).mpr ⟨hlate.inserted, .inr hlate⟩)
  obtain ⟨i, hi⟩ := List.mem_iff_getElem?.mp hu
  have hsent := (ht.sent i u hi).mpr (.inr (hid ▸ hlate.removed))
  simp [hsent] at hnot

theorem exact_of_select (ht : Table m) (hnone : m.spawning = none) (hnotices : m.notices = [])
    (hpc : m.workerPc = .select) (hlate : ∀ id, ¬ Late id m.log) : Exact m := by
  have hflight : m.flight = [] := by simp [ConnectionManager.flight, hpc, hnotices]
  have hsent : ∀ (i : Nat) (u : SpawnCall μ κ ρ), m.spawns[i]? = some u →
      (u.sent = false ↔ .removed u.id ∉ m.log) := by
    intro i u hu
    simpa [hflight] using not_congr (ht.sent i u hu)
  intro id
  refine (ht.mapped id).trans ⟨?_, ?_⟩
  · rintro ⟨hinserted, hremoved⟩
    obtain ⟨u, hu, rfl⟩ := ht.logged id (.inl hinserted)
    obtain ⟨i, hi⟩ := List.mem_iff_getElem?.mp hu
    exact ⟨u, hu, rfl, ht.started u hu, (hsent i u hi).mpr (hremoved.resolve_right (hlate _))⟩
  · rintro ⟨u, hu, rfl, -, hnot⟩
    obtain ⟨i, hi⟩ := List.mem_iff_getElem?.mp hu
    exact ⟨(ht.inserted i u hi).mpr (by simp [hnone]), .inl ((hsent i u hi).mp hnot)⟩

end Table

/-- With no `spawn` call in progress and the state channel empty, the map is exact
just when the manager's worker has acted on the notice it took last, and no entry was
inserted after the worker had acted on its notice. -/
theorem table_exact_iff {stopAll : List Unit} {as : List (Action μ κ ρ)}
    (hrun : Transition.run step (start true stopAll) as = some m) (hserves : ∀ a ∈ as, a.serves)
    (hnone : m.spawning = none) (hnotices : m.notices = []) :
    Exact m ↔ m.workerPc = .select ∧ ∀ id, ¬ Late id m.log := by
  obtain ⟨hm, ht⟩ := (Table.start stopAll).run (.start true stopAll) hserves hrun
  constructor
  · exact fun h => ⟨ht.select_of_exact hm hnone h, fun _ => ht.not_late_of_exact h⟩
  · exact fun ⟨hpc, hlate⟩ => ht.exact_of_select hnone hnotices hpc hlate

/-- One client stays connected, the other one comes and goes. -/
def settledRun : List (Action Nat Nat Nat) :=
  [.spawn, .insert, .poll 0, .spawn, .insert, .poll 1, .conn 1 (.next .eof), .connExit 1, .recv,
    .remove, .finish 1]

theorem table_exact_iff_settledRun :
    ∃ m : ConnectionManager Nat Nat Nat,
      Transition.run step (start true []) settledRun = some m ∧ m.connections.keys = [⟨0⟩] ∧
      (Exact m ↔ m.workerPc = .select ∧ ∀ id, ¬ Late id m.log) := by
  obtain ⟨m, hrun, hkeys, hnone, hnotices⟩ :
      ∃ m : ConnectionManager Nat Nat Nat,
        Transition.run step (start true []) settledRun = some m ∧
        m.connections.keys = [⟨0⟩] ∧ m.spawning = none ∧ m.notices = [] :=
    ⟨_, rfl, rfl, rfl, rfl⟩
  exact ⟨m, hrun, hkeys, table_exact_iff hrun (by decide) hnone hnotices⟩

/-- A client disconnects at once, and the manager hears of it before `spawn` has the
lock of the map. -/
def hastyRun : List (Action Nat Nat Nat) :=
  [.spawn, .poll 0, .conn 0 (.next .eof), .connExit 0, .finish 0, .recv, .remove, .insert]

theorem not_exact_hastyRun :
    ∃ m : ConnectionManager Nat Nat Nat,
      Transition.run step (start true []) hastyRun = some m ∧ (∀ a ∈ hastyRun, a.serves) ∧
      m.spawning = none ∧ m.notices = [] ∧ m.workerPc = .select ∧ ¬ Exact m := by
  refine ⟨_, rfl, by decide, rfl, rfl, rfl, fun h => ?_⟩
  obtain ⟨u, hu, -, -, hsent⟩ := (h ⟨0⟩).mp (by decide)
  obtain rfl := List.mem_singleton.mp hu
  cases hsent

end ConnectionManager

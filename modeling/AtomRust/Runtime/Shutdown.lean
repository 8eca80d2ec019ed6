-- SUMMARY: Runtime shutdown: once a `stop` call has signalled, every context can stop; once it has returned, there is none left and none will come.
import AtomRust.Runtime.TaskManager

/-!
# Shutdown

`TaskManager::stop` takes `hold_tx`, broadcasts the stop signal and waits until
the hold channel has no sender left. `Inv` collects what makes this work: the
lock keeps a `spawn` that owns a clone of `hold_tx` apart from a `stop` that
takes it, so every context subscribed before the first signal, and the sender
count is exactly the number of owners.
-/

namespace Runtime

/-! ## What a call holds -/

/-- The call holds the guard of `hold_tx`. -/
@[grind] def SpawnPc.locks : SpawnPc → Bool
  | .clone | .subscribe | .spawn _ | .ret _ => true
  | .lock | .returned _ => false

/-- The call owns a clone of `hold_tx`. -/
@[grind] def SpawnPc.owns : SpawnPc → Bool
  | .subscribe | .spawn _ => true
  | .lock | .clone | .ret _ | .returned _ => false

/-- The call holds the guard of `hold_tx`. -/
@[grind] def StopPc.locks : StopPc → Bool
  | .take | .unlock => true
  | .lock | .send | .lockRx | .recv | .ret | .returned => false

/-- The call has emptied `hold_tx`. -/
@[grind] def StopPc.taken : StopPc → Bool
  | .lock | .take => false
  | .unlock | .send | .lockRx | .recv | .ret | .returned => true

/-- The call has sent its signal. -/
@[grind] def StopPc.signalled : StopPc → Bool
  | .lockRx | .recv | .ret | .returned => true
  | .lock | .take | .unlock | .send => false

/-- The call has seen the hold channel break. -/
@[grind] def StopPc.drained : StopPc → Bool
  | .ret | .returned => true
  | .lock | .take | .unlock | .send | .lockRx | .recv => false

theorem SpawnPc.locks_of_owns {pc : SpawnPc} (h : pc.owns) : pc.locks := by
  cases pc <;> simp_all [SpawnPc.owns, SpawnPc.locks]

theorem StopPc.taken_of_drained {pc : StopPc} (h : pc.drained) : pc.taken := by
  cases pc <;> simp_all [StopPc.drained, StopPc.taken]

namespace TaskManager

@[simp, grind =] theorem setSpawn_spawns (m : TaskManager) (c : Nat) (pc : SpawnPc) (d : Nat) :
    (m.setSpawn c pc).spawns d = if d = c then pc else m.spawns d := by
  simp [setSpawn, Function.update_apply]

@[simp, grind =] theorem setStop_stops (m : TaskManager) (c : Nat) (pc : StopPc) (d : Nat) :
    (m.setStop c pc).stops d = if d = c then pc else m.stops d := by
  simp [setStop, Function.update_apply]

/-- The clones of `hold_tx` owned by `spawn` calls. Only the holder of the lock
can own one. -/
@[grind =] def inFlight (m : TaskManager) : Nat :=
  match m.holdTxLock with
  | some (.spawn c) => (m.spawns c).owns.toNat
  | _ => 0

/-- The contexts that have not been dropped. -/
def contexts (m : TaskManager) : Nat := m.tasks.countP (·.state.context)

/-! ## The invariant -/

structure Inv (m : TaskManager) : Prop where
  spawnLock : ∀ c, (m.spawns c).locks → m.holdTxLock = some (.spawn c)
  stopLock : ∀ c, (m.stops c).locks → m.holdTxLock = some (.stop c)
  holds : m.holds = m.holdTx.toNat + m.inFlight + m.contexts
  owns : ∀ c, (m.spawns c).owns → m.holdTx
  taken : ∀ c, (m.stops c).taken → m.holdTx = false
  silent : m.holdTx → m.stopTx = []
  position : ∀ c k, m.spawns c = .spawn k → k = 0
  signalled : ∀ c, (m.stops c).signalled → m.stopTx ≠ []
  consumed : ∀ t ∈ m.tasks, t.state.stopAllRx ≠ 0 → t.consumed
  drained : ∀ c, (m.stops c).drained → m.holds = 0

theorem inv_new : Inv new := by
  constructor <;> simp [new, SpawnPc.locks, SpawnPc.owns, StopPc.locks, StopPc.taken,
    StopPc.signalled, StopPc.drained, inFlight, contexts]

theorem Inv.spawnStep {m m' : TaskManager} {c : Nat} (hi : Inv m)
    (h : m.spawnStep c = some m') : Inv m' := by
  obtain ⟨hspawn, hstop, hholds, howns, htaken, hsilent, hpos, hsig, hcons, hdrain⟩ := id hi
  unfold TaskManager.spawnStep at h
  split at h
  next hpc =>
    split at h <;> cases h
    next hfree =>
      refine { hi with spawnLock := ?_, stopLock := ?_, holds := ?_, owns := ?_, position := ?_ }
        <;> grind [setSpawn, contexts]
  next hpc =>
    split at h <;> cases h
    next hopen =>
      -- `hold_tx` is still there, so no `stop` can have seen the channel break.
      have hbefore : ∀ d, (m.stops d).drained → m.holds + 1 = 0 := fun d hd => by
        simp [htaken d (StopPc.taken_of_drained hd)] at hopen
      refine { hi with
        spawnLock := ?_, holds := ?_, owns := ?_, position := ?_, drained := hbefore }
        <;> grind [setSpawn, contexts]
    next hshut =>
      refine { hi with spawnLock := ?_, holds := ?_, owns := ?_, position := ?_ }
        <;> grind [setSpawn, contexts]
  next hpc =>
    cases h
    -- The guard is still held, so no `stop` has taken `hold_tx`: nothing was broadcast yet.
    have hempty : m.stopTx = [] := hsilent (howns c (by simp [hpc, SpawnPc.owns]))
    refine { hi with spawnLock := ?_, holds := ?_, owns := ?_, position := ?_ }
      <;> grind [setSpawn, contexts, Broadcast.subscribe]
  next k hpc =>
    cases h
    have hk : k = 0 := hpos c k hpc
    refine { hi with spawnLock := ?_, holds := ?_, owns := ?_, position := ?_, consumed := ?_ }
      <;> grind [setSpawn, contexts, TaskState.new]
  next task hpc =>
    cases h
    refine { hi with spawnLock := ?_, stopLock := ?_, holds := ?_, owns := ?_, position := ?_ }
      <;> grind [setSpawn, contexts]
  next => cases h

theorem Inv.stopStep {m m' : TaskManager} {c : Nat} (hi : Inv m)
    (h : m.stopStep c = some m') : Inv m' := by
  obtain ⟨hspawn, hstop, hholds, howns, htaken, hsilent, hpos, hsig, hcons, hdrain⟩ := id hi
  unfold TaskManager.stopStep at h
  split at h
  next hpc =>
    split at h <;> cases h
    next hfree =>
      refine { hi with
        spawnLock := ?_, stopLock := ?_, holds := ?_, taken := ?_, signalled := ?_, drained := ?_ }
        <;> grind [setStop, contexts]
  next hpc =>
    have hlock : m.holdTxLock = some (.stop c) := hstop c (by simp [hpc, StopPc.locks])
    split at h <;> cases h
    next hopen =>
      -- The lock is ours, so no `spawn` owns a clone that would outlive `hold_tx` unseen.
      have hnone : ∀ d, (m.spawns d).owns → false = true := fun d hd => by
        simp [hlock] at hspawn
        exact absurd (SpawnPc.locks_of_owns hd) (by simp [hspawn d])
      refine { hi with
        stopLock := ?_, holds := ?_, owns := hnone, taken := ?_,
        silent := fun htx => Bool.noConfusion htx, signalled := ?_, drained := ?_ }
        <;> grind [setStop, contexts]
    next hshut =>
      refine { hi with stopLock := ?_, taken := ?_, signalled := ?_, drained := ?_ }
        <;> grind [setStop]
  next hpc =>
    cases h
    refine { hi with
      spawnLock := ?_, stopLock := ?_, holds := ?_, taken := ?_, signalled := ?_, drained := ?_ }
      <;> grind [setStop, contexts]
  next hpc =>
    cases h
    have hshut : m.holdTx = false := htaken c (by rw [hpc]; rfl)
    refine { hi with
      stopLock := ?_, taken := ?_, silent := fun h => absurd h (by simp [setStop, hshut]),
      signalled := fun _ _ => by simp [setStop], drained := ?_ } <;> grind [setStop]
  next hpc =>
    split at h <;> cases h
    refine { hi with stopLock := ?_, taken := ?_, signalled := ?_, drained := ?_ } <;> grind [setStop]
  next hpc =>
    split at h <;> cases h
    refine { hi with stopLock := ?_, taken := ?_, signalled := ?_, drained := ?_ } <;> grind [setStop]
  next hpc =>
    cases h
    refine { hi with stopLock := ?_, taken := ?_, signalled := ?_, drained := ?_ } <;> grind [setStop]
  next => cases h

/-- Replacing a task by one with the same context keeps the number of contexts. -/
theorem contexts_setTask {m : TaskManager} {i : Nat} {t t' : TaskEntry}
    (ht : m.tasks[i]? = some t) (hctx : t'.state.context = t.state.context) :
    (m.setTask i t').contexts = m.contexts := by
  obtain ⟨hlt, rfl⟩ := List.getElem?_eq_some_iff.mp ht
  simp only [contexts, setTask, List.countP_set hlt, hctx]
  have hle := List.boole_getElem_le_countP (p := (·.state.context)) (l := m.tasks) hlt
  omega

/-- A change of one task's own state that keeps its context. -/
theorem Inv.setTask {m : TaskManager} {i : Nat} {t t' : TaskEntry} (hi : Inv m)
    (ht : m.tasks[i]? = some t) (hctx : t'.state.context = t.state.context)
    (hcons : t'.state.stopAllRx ≠ 0 → t'.consumed) : Inv (m.setTask i t') := by
  refine { hi with holds := ?_, consumed := ?_ }
  · rw [contexts_setTask ht hctx]
    exact hi.holds
  · intro u hu
    rcases List.mem_or_eq_of_mem_set hu with hmem | rfl
    · exact hi.consumed u hmem
    · exact hcons

theorem Inv.dropContext {m : TaskManager} {i : Nat} {t : TaskEntry} (hi : Inv m)
    (ht : m.tasks[i]? = some t) (hctx : t.state.context) :
    Inv ({ m with holds := m.holds - 1 }.setTask i { t with state := t.state.dropContext }) := by
  have hmem : t ∈ m.tasks := List.mem_of_getElem? ht
  obtain ⟨hlt, rfl⟩ := List.getElem?_eq_some_iff.mp ht
  have hpos : 0 < m.contexts := List.countP_pos_iff.mpr ⟨_, hmem, hctx⟩
  have hholds := hi.holds
  refine { hi with holds := ?_, consumed := ?_, drained := ?_ }
  · change m.holds - 1 = m.holdTx.toNat + m.inFlight +
      (m.tasks.set i { m.tasks[i] with state := m.tasks[i].state.dropContext }).countP _
    simp only [List.countP_set hlt, TaskState.dropContext_context, hctx]
    simp only [contexts] at hholds hpos
    simp only [if_true, Bool.false_eq_true, if_false]
    omega
  · intro u hu
    rcases List.mem_or_eq_of_mem_set hu with h | rfl
    · exact hi.consumed u h
    · exact hi.consumed m.tasks[i] hmem
  · intro c hc
    have hzero : m.holds = 0 := hi.drained c hc
    change m.holds - 1 = 0
    omega

theorem Inv.step {m m' : TaskManager} {a : Action} (hi : Inv m) (h : m.step a = some m') :
    Inv m' := by
  cases a with
  | spawn c => exact hi.spawnStep h
  | stop c => exact hi.stopStep h
  | waitForStop i src =>
      obtain ⟨t, ht, h⟩ := Option.bind_eq_some_iff.mp h
      split at h
      · obtain ⟨s, hs, rfl⟩ := Option.map_eq_some_iff.mp h
        exact hi.setTask ht (TaskState.waitForStop_frame hs).1 (fun _ => rfl)
      · cases h
  | dropContext i =>
      obtain ⟨t, ht, h⟩ := Option.bind_eq_some_iff.mp h
      split at h <;> cases h
      next hctx => exact hi.dropContext ht hctx
  | taskStop i =>
      obtain ⟨t, ht, h⟩ := Option.bind_eq_some_iff.mp h
      have hcons := hi.consumed t (List.mem_of_getElem? ht)
      split at h
      · unfold taskStopStep at h
        split at h
        · obtain ⟨s, hs, rfl⟩ := Option.map_eq_some_iff.mp h
          obtain ⟨hctx, hrx, -⟩ := TaskState.sendStop_frame hs
          exact hi.setTask ht hctx (by simpa only [hrx] using hcons)
        · cases h
          exact hi.setTask ht rfl hcons
        · split at h <;> cases h
          exact hi.setTask ht rfl hcons
      · cases h
  | dropTask i =>
      obtain ⟨t, ht, h⟩ := Option.bind_eq_some_iff.mp h
      split at h <;> cases h
      exact hi.setTask ht rfl (hi.consumed t (List.mem_of_getElem? ht))

theorem inv_of_reachable {m : TaskManager} (h : system.Reachable m) : Inv m :=
  h.invariant (fun _ hm => hm ▸ inv_new) (fun _ _ _ _ hi hs => hi.step hs)

/-! ## Shutdown -/

/-- After a signal, a context that has not stopped waiting yet can do so: its
place in the broadcast is before the signal. -/
theorem Inv.signal {m : TaskManager} (hi : Inv m) {c : Nat} (hc : (m.stops c).signalled)
    {t : TaskEntry} (ht : t ∈ m.tasks) :
    t.consumed ∨ ∃ src, (t.state.waitForStop t.handle m.stopTx src).isSome := by
  by_cases h : t.state.stopAllRx = 0
  · refine .inr ⟨.stopAll, TaskState.waitForStop_of_lt ?_⟩
    rw [h]
    exact List.length_pos_iff.mpr (hi.signalled c hc)
  · exact .inl (hi.consumed t ht h)

/-- With no sender of the hold channel left there is no context left. -/
theorem Inv.no_context {m : TaskManager} (hi : Inv m) (h : m.holds = 0) :
    ∀ t ∈ m.tasks, t.state.context = false := by
  have hholds := hi.holds
  have hzero : m.contexts = 0 := by omega
  intro t ht
  simpa using List.countP_eq_zero.mp hzero t ht

/-- No sender of the hold channel is left, and `hold_tx` can give no new one. -/
def Closed (m : TaskManager) : Prop := m.holdTx = false ∧ m.holds = 0

theorem Inv.closed {m : TaskManager} (hi : Inv m) {c : Nat} (hc : (m.stops c).drained) :
    Closed m :=
  ⟨hi.taken c (StopPc.taken_of_drained hc), hi.drained c hc⟩

/-- What can have changed since the state `m`, in which the manager was closed. -/
structure After (m m' : TaskManager) : Prop where
  closed : Closed m'
  tasks : m'.tasks.length = m.tasks.length
  /-- A `spawn` that had not locked `hold_tx` yet gets no task. -/
  spawns : ∀ d, m.spawns d = .lock → m'.spawns d ∈ [.lock, .clone, .ret none, .returned none]

theorem Closed.after {m : TaskManager} (h : Closed m) : After m m :=
  ⟨h, rfl, fun d hd => by simp [hd]⟩

theorem After.spawnStep {m m₁ m' : TaskManager} {c : Nat} (hi : Inv m₁) (ha : After m m₁)
    (h : m₁.spawnStep c = some m') : After m m' := by
  obtain ⟨⟨hshut, hzero⟩, htasks, hspawns⟩ := ha
  have hown : ¬ (m₁.spawns c).owns := fun ho => by simp [hi.owns c ho] at hshut
  unfold TaskManager.spawnStep at h
  split at h
  next hpc =>
    split at h <;> cases h
    exact ⟨⟨hshut, hzero⟩, htasks, fun d hd => by grind⟩
  next hpc =>
    rw [hshut] at h
    cases h
    exact ⟨⟨hshut, hzero⟩, htasks, fun d hd => by grind⟩
  next hpc => simp [hpc, SpawnPc.owns] at hown
  next hpc => simp [hpc, SpawnPc.owns] at hown
  next task hpc =>
    cases h
    exact ⟨⟨hshut, hzero⟩, htasks, fun d hd => by grind⟩
  next => cases h

/-- On an emptied manager a `stop` call only moves itself, the two locks and the
broadcast. -/
theorem stopStep_frame {m m' : TaskManager} {c : Nat} (hshut : m.holdTx = false)
    (h : m.stopStep c = some m') :
    m'.holdTx = false ∧ m'.holds = m.holds ∧ m'.tasks = m.tasks ∧ m'.spawns = m.spawns := by
  unfold stopStep at h
  split at h
  case h_8 => cases h
  all_goals first | (split at h <;> cases h) | cases h
  all_goals first | exact ⟨hshut, rfl, rfl, rfl⟩ | simp_all

theorem After.setTask {m m₁ : TaskManager} (ha : After m m₁) (i : Nat) (t : TaskEntry) :
    After m (m₁.setTask i t) :=
  ⟨ha.closed, (List.length_set ..).trans ha.tasks, ha.spawns⟩

theorem After.step {m m₁ m' : TaskManager} {a : Action} (hi : Inv m₁) (ha : After m m₁)
    (h : m₁.step a = some m') : After m m' := by
  have hdead := hi.no_context ha.closed.2
  cases a with
  | spawn c => exact ha.spawnStep hi h
  | stop c =>
      obtain ⟨hshut, hholds, htasks, hspawns⟩ := stopStep_frame ha.closed.1 h
      exact ⟨⟨hshut, hholds.trans ha.closed.2⟩, htasks ▸ ha.tasks, hspawns ▸ ha.spawns⟩
  | waitForStop i src =>
      obtain ⟨t, ht, h⟩ := Option.bind_eq_some_iff.mp h
      rw [hdead t (List.mem_of_getElem? ht)] at h
      cases h
  | dropContext i =>
      obtain ⟨t, ht, h⟩ := Option.bind_eq_some_iff.mp h
      rw [hdead t (List.mem_of_getElem? ht)] at h
      cases h
  | taskStop i =>
      obtain ⟨t, ht, h⟩ := Option.bind_eq_some_iff.mp h
      split at h
      · unfold taskStopStep at h
        split at h
        · obtain ⟨s, hs, rfl⟩ := Option.map_eq_some_iff.mp h
          exact ha.setTask i _
        · cases h
          exact ha.setTask i _
        · split at h <;> cases h
          exact ha.setTask i _
      · cases h
  | dropTask i =>
      obtain ⟨t, ht, h⟩ := Option.bind_eq_some_iff.mp h
      split at h <;> cases h
      exact ha.setTask i _

/-- Shutdown is complete and loses no stop signal. Once some `stop` call has
sent its signal, every context that exists has used a stop signal or has one
that ends its `wait_for_stop`. Once some `stop` call has returned, no context
exists, no task is ever added, and a `spawn` that locks `hold_tx` from then on
returns `Task::none()`. -/
theorem stop_complete {m : TaskManager} (h : system.Reachable m) :
    (∀ c, (m.stops c).signalled → ∀ t ∈ m.tasks, t.state.context →
      t.consumed ∨ ∃ src, (t.state.waitForStop t.handle m.stopTx src).isSome) ∧
    ∀ c, m.stops c = .returned →
      (∀ t ∈ m.tasks, t.state.context = false) ∧
      ∀ as m', Transition.run step m as = some m' →
        (∀ t ∈ m'.tasks, t.state.context = false) ∧
        m'.tasks.length = m.tasks.length ∧
        ∀ d, m.spawns d = .lock → m'.spawns d ∈ [.lock, .clone, .ret none, .returned none] := by
  have hi := inv_of_reachable h
  refine ⟨fun c hc t ht _ => hi.signal hc ht, fun c hc => ?_⟩
  have hclosed : Closed m := hi.closed (c := c) (by rw [hc]; rfl)
  refine ⟨hi.no_context hclosed.2, fun as m' hrun => ?_⟩
  have hafter : Inv m' ∧ After m m' :=
    Transition.run_invariant (I := fun n => Inv n ∧ After m n)
      (fun n a n' hn hs => ⟨hn.1.step hs, hn.2.step hn.1 hs⟩) hrun ⟨hi, hclosed.after⟩
  exact ⟨hafter.1.no_context hafter.2.closed.2, hafter.2.tasks, hafter.2.spawns⟩

/-- A run with a task that is asked to stop by a shutdown racing with a second
`spawn`, which loses. -/
def shutdownRun : List Action :=
  [.spawn 0, .spawn 0, .spawn 0, .spawn 0, .spawn 0,
    .stop 0, .stop 0, .stop 0, .stop 0, .stop 0,
    .waitForStop 0 .stopAll, .dropContext 0, .stop 0, .stop 0]

theorem stop_complete_shutdownRun :
    let m := (Transition.run step new shutdownRun).get (by decide)
    (m.stops 0 = .returned ∧ m.tasks.length = 1) ∧
    (∀ t ∈ m.tasks, t.state.context = false) ∧
    ∀ as m', Transition.run step m as = some m' →
      (∀ t ∈ m'.tasks, t.state.context = false) ∧
      m'.tasks.length = m.tasks.length ∧
      ∀ d, m.spawns d = .lock → m'.spawns d ∈ [.lock, .clone, .ret none, .returned none] :=
  ⟨by decide, (stop_complete (.of_run (S := system) rfl (by decide))).2 0 (by decide)⟩

end TaskManager

end Runtime

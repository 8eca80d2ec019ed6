-- SUMMARY: What is left of the program once `TaskManager::stop` has returned: nothing, unless a future gave its context away before its end.
import AtomRust.App.Program

/-!
# Silence

`stop` waits for the contexts, so a future has finished when `stop` returns just if
nothing comes after its `dropContext`. That leaves two kinds: the MQTT publishers, which
drop the context before they begin, and an interleaved session, which drops it with
`run_tcp_interleaved` and sends its notice afterwards.
-/

open Runtime (StopSource TaskManager)

/-! ## Contexts of a task manager -/

namespace Runtime.TaskManager
variable {m m' : TaskManager}

/-- Which tasks have a context. -/
def held (m : TaskManager) : List Bool := m.tasks.map fun t => t.state.context

theorem held_setTask {i : Nat} {t t' : TaskEntry} (ht : m.tasks[i]? = some t)
    (hctx : t'.state.context = t.state.context) : (m.setTask i t').held = m.held := by
  rw [held, setTask, List.map_set, hctx]
  exact List.set_eq_self_of_some (by rw [List.getElem?_map, ht, Option.map_some])

theorem held_of_waitForStop {i : Nat} {src : StopSource}
    (h : m.step (.waitForStop i src) = some m') :
    m'.held = m.held ∧ m'.stops = m.stops := by
  obtain ⟨t, ht, h⟩ := Option.bind_eq_some_iff.mp h
  split at h
  · obtain ⟨s, hs, rfl⟩ := Option.map_eq_some_iff.mp h
    exact ⟨held_setTask ht (TaskState.waitForStop_frame hs).1, rfl⟩
  · cases h

theorem held_of_taskStop {i : Nat} (h : m.step (.taskStop i) = some m') :
    m'.held = m.held ∧ m'.stops = m.stops := by
  obtain ⟨t, ht, h⟩ := Option.bind_eq_some_iff.mp h
  split at h
  · unfold taskStopStep at h
    split at h
    · obtain ⟨s, hs, rfl⟩ := Option.map_eq_some_iff.mp h
      exact ⟨held_setTask ht (TaskState.sendStop_frame hs).1, rfl⟩
    · cases h
      exact ⟨held_setTask ht rfl, rfl⟩
    · split at h <;> cases h
      exact ⟨held_setTask ht rfl, rfl⟩
  · cases h

theorem held_of_dropTask {i : Nat} (h : m.step (.dropTask i) = some m') :
    m'.held = m.held ∧ m'.stops = m.stops := by
  obtain ⟨t, ht, h⟩ := Option.bind_eq_some_iff.mp h
  split at h <;> cases h
  exact ⟨held_setTask ht rfl, rfl⟩

theorem held_of_dropContext {i : Nat} (h : m.step (.dropContext i) = some m') :
    m'.held = m.held.set i false ∧ m'.stops = m.stops := by
  obtain ⟨t, ht, h⟩ := Option.bind_eq_some_iff.mp h
  split at h <;> cases h
  exact ⟨List.map_set, rfl⟩

theorem held_of_spawn {c : Nat} (h : m.step (.spawn c) = some m') :
    (m'.tasks.length = m.tasks.length ∧ m'.held = m.held ∨
      m.tasks.length < m'.tasks.length ∧ m'.held = m.held ++ [true]) ∧ m'.stops = m.stops := by
  simp only [step, spawnStep] at h
  split at h
  case h_1 | h_2 => split at h <;> cases h <;> exact ⟨.inl ⟨rfl, rfl⟩, rfl⟩
  case h_3 | h_5 =>
    cases h
    exact ⟨.inl ⟨rfl, rfl⟩, rfl⟩
  case h_4 =>
    cases h
    exact ⟨.inr ⟨by simp [setSpawn], by simp [held, setSpawn, TaskState.new]⟩, rfl⟩
  case h_6 => cases h

theorem held_of_stop {c : Nat} (h : m.step (.stop c) = some m') :
    m'.held = m.held ∧
      ∀ d, m'.stops d = .returned ↔ m.stops d = .returned ∨ d = c ∧ m.stops c = .ret := by
  have hset : ∀ {pc : StopPc}, m.stops c ≠ .returned → m'.stops = Function.update m.stops c pc →
      ∀ d, m'.stops d = .returned ↔ m.stops d = .returned ∨ d = c ∧ pc = .returned := by
    intro pc hpc hstops d
    rw [hstops, Function.update_apply]
    split
    next hd => simp [hd, hpc]
    next hd => simp [hd]
  simp only [step, stopStep] at h
  split at h
  case h_8 => cases h
  all_goals rename_i hpc
  case h_1 | h_2 | h_5 | h_6 =>
    split at h <;> cases h <;> exact ⟨rfl, by simpa [hpc] using hset (by simp [hpc]) rfl⟩
  all_goals
    cases h
    exact ⟨rfl, by simpa [hpc] using hset (by simp [hpc]) rfl⟩

end Runtime.TaskManager

/-! ## Bodies -/

namespace Program

/-- The future of a publisher. -/
def Kind.publishes : Kind → Bool
  | .ratePublisher | .periodicPublisher | .mqttPublisher => true
  | _ => false

/-- The future owns its context. -/
def Body.holds (b : Body) : Bool := .dropContext ∈ b.todo

theorem Kind.body_holds (kind : Kind) : Body.holds { kind, todo := kind.body } := by
  cases kind with
  | session target => cases target <;> decide
  | _ => decide

/-- A context is dropped once. -/
theorem Kind.not_mem_of_suffix (kind : Kind) {todo : List Stmt}
    (h : .dropContext :: todo <:+ kind.body) : .dropContext ∉ todo := by
  have hone : kind.body.count .dropContext = 1 := by
    cases kind with
    | session target => cases target <;> decide
    | _ => decide
  have hle := h.sublist.count_le .dropContext
  rw [List.count_cons_self, hone] at hle
  exact List.count_eq_zero.mp (by omega)

/-- What a future can have left to do without its context. -/
theorem Kind.released (kind : Kind) {todo : List Stmt} (h : todo <:+ kind.body)
    (hno : .dropContext ∉ todo) :
    todo = [] ∨ kind.publishes ∨ kind = .session .rtpTcp ∧ todo = [.notify] := by
  have hlast : kind.body.getLast? = some .dropContext → todo = [] := by
    intro hlast
    by_contra hne
    obtain ⟨before, hbody⟩ := h
    rw [← hbody, List.getLast?_append_of_ne_nil _ hne] at hlast
    exact hno (List.mem_of_getLast? hlast)
  cases kind with
  | ratePublisher | periodicPublisher | mqttPublisher => exact .inr (.inl rfl)
  | session target =>
      cases target with
      | rtpUdp => exact .inl (hlast rfl)
      | rtpTcp =>
          simp only [body, sessionBody, Session.tcpExit, List.filterMap, exitStmt,
            List.suffix_cons_iff, List.suffix_nil] at h
          rcases h with rfl | rfl | rfl | rfl
          · simp at hno
          · simp at hno
          · exact .inr (.inr ⟨rfl, rfl⟩)
          · exact .inl rfl
  | _ => exact .inl (hlast rfl)

/-! ## Steps -/

variable {p p' : Program} {a : Action} {i c : Nat} {b : Body}

structure Inv (p : Program) : Prop where
  tasks : p.tasks.Inv
  held : p.tasks.held = p.bodies.map Body.holds
  suffix : ∀ b ∈ p.bodies, b.todo <:+ b.kind.body

/-- The ways in which a step leads from `p` to `p'`. -/
inductive Effect (p p' : Program) : Action → Prop where
  | spawn {c : Nat} {kind : Kind} (tasks : p.tasks.step (.spawn c) = some p'.tasks)
      (bodies : p'.bodies = if p.tasks.tasks.length < p'.tasks.tasks.length then
        p.bodies ++ [{ kind, todo := kind.body }] else p.bodies)
      (log : p'.log = p.log) : Effect p p' (.spawn c kind)
  | stop {c : Nat} (tasks : p.tasks.step (.stop c) = some p'.tasks) (bodies : p'.bodies = p.bodies)
      (log : p'.log = p.log) : Effect p p' (.stop c)
  /-- Body `i`, which has not finished, acts or goes on. -/
  | worked {a : Action} {i : Nat} {b : Body} {todo : List Stmt} (ha : ∀ c, a ≠ .stop c)
      (hb : p.bodies[i]? = some b) (busy : b.todo ≠ []) (rest : todo <:+ b.todo)
      (bodies : p'.bodies = p.bodies.set i { b with todo })
      (tasks : p'.tasks = p.tasks ∨ ∃ b, p.tasks.step b = some p'.tasks)
      (held : p'.tasks.held = p.tasks.held.set i (Body.holds { b with todo }))
      (stops : p'.tasks.stops = p.tasks.stops) : Effect p p' a
  /-- The owner of a handle stops or drops it. -/
  | owner {a : Action} {b : TaskManager.Action} (ha : ∀ c, a ≠ .stop c)
      (tasks : p.tasks.step b = some p'.tasks) (held : p'.tasks.held = p.tasks.held)
      (stops : p'.tasks.stops = p.tasks.stops) (bodies : p'.bodies = p.bodies)
      (log : p'.log = p.log) : Effect p p' a

theorem Inv.held_set (hi : Inv p) (hb : p.bodies[i]? = some b) {todo : List Stmt}
    (h : Body.holds { b with todo } = b.holds) :
    p.tasks.held = p.tasks.held.set i (Body.holds { b with todo }) := by
  refine (List.set_eq_self_of_some ?_).symm
  rw [hi.held, List.getElem?_map, hb, h, Option.map_some]

/-- A statement that keeps the context is behind the body. -/
theorem Inv.moved (hi : Inv p) (ha : ∀ c, a ≠ .stop c) (hb : p.bodies[i]? = some b) {stmt : Stmt}
    {todo : List Stmt} (htodo : b.todo = stmt :: todo) (hkeeps : stmt ≠ .dropContext)
    (bodies : p'.bodies = p.bodies.set i { b with todo })
    (tasks : p'.tasks = p.tasks ∨ ∃ src, p.tasks.step (.waitForStop i src) = some p'.tasks) :
    Effect p p' a := by
  have hset : p.tasks.held = p.tasks.held.set i (Body.holds { b with todo }) :=
    hi.held_set hb (by simp [Body.holds, htodo, hkeeps.symm])
  have hrest : todo <:+ b.todo := htodo ▸ List.suffix_cons stmt todo
  rcases tasks with tasks | ⟨src, tasks⟩
  · exact .worked ha hb (by simp [htodo]) hrest bodies (.inl tasks) (tasks ▸ hset) (by rw [tasks])
  · obtain ⟨hheld, hstops⟩ := TaskManager.held_of_waitForStop tasks
    exact .worked ha hb (by simp [htodo]) hrest bodies (.inr ⟨_, tasks⟩) (hheld ▸ hset) hstops

theorem Inv.effect_of_advance (hi : Inv p) (h : p.advance i = some p') :
    Effect p p' (.advance i) := by
  obtain ⟨b, hb, h⟩ := Option.bind_eq_some_iff.mp h
  split at h
  next htodo =>
    split at h <;> cases h
    exact hi.moved nofun hb htodo nofun rfl (.inl rfl)
  next htodo =>
    cases h
    exact hi.moved nofun hb htodo nofun rfl (.inl rfl)
  next htodo =>
    cases h
    exact hi.moved nofun hb htodo nofun rfl (.inl rfl)
  next todo htodo =>
    obtain ⟨tasks, htasks, rfl⟩ := Option.map_eq_some_iff.mp h
    obtain ⟨hheld, hstops⟩ := TaskManager.held_of_dropContext htasks
    have hsuffix := hi.suffix b (List.mem_of_getElem? hb)
    have hgone : Body.holds { b with todo } = false := by
      simpa [Body.holds] using b.kind.not_mem_of_suffix (htodo ▸ hsuffix)
    exact .worked nofun hb (by simp [htodo]) (htodo ▸ List.suffix_cons _ todo) rfl
      (.inr ⟨_, htasks⟩) (hgone ▸ hheld) hstops
  next => cases h

theorem Inv.effect_of_step (hi : Inv p) (h : p.step a = some p') : Effect p p' a := by
  cases a with
  | spawn c kind =>
      obtain ⟨tasks, htasks, rfl⟩ := Option.map_eq_some_iff.mp h
      exact .spawn htasks rfl rfl
  | stop c =>
      obtain ⟨tasks, htasks, rfl⟩ := Option.map_eq_some_iff.mp h
      exact .stop htasks rfl rfl
  | act i deed =>
      obtain ⟨b, hb, h⟩ := Option.bind_eq_some_iff.mp h
      have hworked : b.todo ≠ [] → p'.tasks = p.tasks → p'.bodies = p.bodies →
          Effect p p' (.act i deed) := by
        intro hbusy htasks hbodies
        refine .worked nofun hb hbusy (List.suffix_refl _) ?_ (.inl htasks)
          (htasks ▸ hi.held_set hb rfl) (by rw [htasks])
        rw [hbodies, List.set_eq_self_of_some hb]
      split at h
      case h_3 => cases h
      all_goals
        rename_i htodo
        split at h <;> cases h
        exact hworked (by simp [htodo]) rfl rfl
  | advance i => exact hi.effect_of_advance h
  | waitForStop i src =>
      obtain ⟨b, hb, h⟩ := Option.bind_eq_some_iff.mp h
      split at h
      next htodo =>
        obtain ⟨tasks, htasks, rfl⟩ := Option.map_eq_some_iff.mp h
        exact hi.moved nofun hb htodo nofun rfl (.inr ⟨src, htasks⟩)
      next => cases h
  | taskStop i =>
      obtain ⟨tasks, htasks, rfl⟩ := Option.map_eq_some_iff.mp h
      obtain ⟨hheld, hstops⟩ := TaskManager.held_of_taskStop htasks
      exact .owner nofun htasks hheld hstops rfl rfl
  | dropTask i =>
      obtain ⟨tasks, htasks, rfl⟩ := Option.map_eq_some_iff.mp h
      obtain ⟨hheld, hstops⟩ := TaskManager.held_of_dropTask htasks
      exact .owner nofun htasks hheld hstops rfl rfl

theorem inv_start : Inv start := ⟨TaskManager.inv_new, rfl, nofun⟩

/-- The task manager of a program runs as a task manager. -/
theorem Effect.tasks (h : Effect p p' a) :
    p'.tasks = p.tasks ∨ ∃ b, p.tasks.step b = some p'.tasks := by
  cases h with
  | spawn tasks | stop tasks | owner _ tasks => exact .inr ⟨_, tasks⟩
  | worked _ _ _ _ _ tasks => exact tasks

theorem Inv.step (hi : Inv p) (h : p.step a = some p') : Inv p' := by
  have heffect := hi.effect_of_step h
  have htasks : p'.tasks.Inv := by
    rcases heffect.tasks with heq | ⟨b, hb⟩
    · exact heq ▸ hi.tasks
    · exact hi.tasks.step hb
  cases heffect with
  | @spawn c kind tasks bodies log =>
      rcases (TaskManager.held_of_spawn tasks).1 with ⟨hlength, hheld⟩ | ⟨hlength, hheld⟩
      · rw [if_neg (by omega)] at bodies
        exact ⟨htasks, by rw [hheld, bodies, hi.held], bodies ▸ hi.suffix⟩
      · rw [if_pos hlength] at bodies
        refine ⟨htasks, ?_, fun b hb => ?_⟩
        · rw [hheld, bodies, List.map_append, hi.held, List.map_singleton, kind.body_holds]
        · rw [bodies] at hb
          rcases List.mem_append.mp hb with hb | hb
          · exact hi.suffix b hb
          · obtain rfl := List.mem_singleton.mp hb
            exact List.suffix_refl _
  | stop tasks bodies =>
      have hheld := (TaskManager.held_of_stop tasks).1
      exact ⟨htasks, by rw [hheld, bodies, hi.held], bodies ▸ hi.suffix⟩
  | worked _ hb _ rest bodies _ held =>
      refine ⟨htasks, by rw [held, bodies, List.map_set, hi.held], fun b' hb' => ?_⟩
      rw [bodies] at hb'
      rcases List.mem_or_eq_of_mem_set hb' with hb' | rfl
      · exact hi.suffix b' hb'
      · exact rest.trans (hi.suffix _ (List.mem_of_getElem? hb))
  | owner _ _ held _ bodies => exact ⟨htasks, by rw [held, bodies, hi.held], bodies ▸ hi.suffix⟩

theorem inv_of_reachable (h : system.Reachable p) : Inv p :=
  h.invariant (fun _ hp => hp ▸ inv_start) (fun _ _ _ _ hi hs => hi.step hs)

/-! ## Silence -/

/-- All futures have finished, and none does anything any more. -/
def Silent (p : Program) : Prop :=
  (∀ b ∈ p.bodies, b.finished) ∧
    ∀ as p', Transition.run step p as = some p' → p'.log = p.log

/-- No publisher is unfinished, and no interleaved session has its notice left without
its context. -/
def Clear (p : Program) : Prop :=
  ∀ b ∈ p.bodies, (b.kind.publishes → b.finished) ∧
    ¬ (b.kind = .session .rtpTcp ∧ b.todo = [.notify])

/-- All contexts are gone, no new one can come, and all futures have finished. -/
structure Over (p : Program) : Prop where
  inv : Inv p
  closed : p.tasks.Closed
  finished : ∀ b ∈ p.bodies, b.finished

theorem Over.step (ho : Over p) (h : p.step a = some p') : Over p' ∧ p'.log = p.log := by
  have heffect := ho.inv.effect_of_step h
  have hafter : p.tasks.After p'.tasks := by
    rcases heffect.tasks with heq | ⟨b, hb⟩
    · exact heq ▸ ho.closed.after
    · exact ho.closed.after.step ho.inv.tasks hb
  have hinv := ho.inv.step h
  cases heffect with
  | spawn tasks bodies log =>
      rw [if_neg (by rw [hafter.tasks]; exact Nat.lt_irrefl _)] at bodies
      exact ⟨⟨hinv, hafter.closed, bodies ▸ ho.finished⟩, log⟩
  | stop _ bodies log | owner _ _ _ _ bodies log =>
      exact ⟨⟨hinv, hafter.closed, bodies ▸ ho.finished⟩, log⟩
  | worked _ hb busy =>
      exact absurd (List.isEmpty_iff.mp (ho.finished _ (List.mem_of_getElem? hb))) busy

theorem Over.silent (ho : Over p) : p.Silent := by
  refine ⟨ho.finished, fun as p' hrun => ?_⟩
  have hrun' := Transition.run_invariant (I := fun q => Over q ∧ q.log = p.log)
    (fun q b q' hq hs => ⟨(hq.1.step hs).1, (hq.1.step hs).2.trans hq.2⟩) hrun ⟨ho, rfl⟩
  exact hrun'.2

theorem Silent.clear (hs : p.Silent) : p.Clear := by
  intro b hb
  have hfinished := hs.1 b hb
  refine ⟨fun _ => hfinished, fun ⟨_, htodo⟩ => ?_⟩
  simp [Body.finished, htodo] at hfinished

theorem Silent.step (hs : p.Silent) (hi : Inv p) (hclosed : p.tasks.Closed)
    (h : p.step a = some p') : p'.Silent :=
  (Over.step ⟨hi, hclosed, hs.1⟩ h).1.silent

/-- Once `stop` has seen the hold channel break, only these two kinds keep the program
from being silent. -/
theorem silent_iff (hi : Inv p) (hclosed : p.tasks.Closed) : p.Silent ↔ p.Clear := by
  refine ⟨Silent.clear, fun hclear => ?_⟩
  refine Over.silent ⟨hi, hclosed, fun b hb => ?_⟩
  have hreleased : b.holds = false := by
    have hmem : b.holds ∈ p.tasks.held := hi.held ▸ List.mem_map_of_mem hb
    obtain ⟨t, ht, hcontext⟩ := List.mem_map.mp hmem
    rw [← hcontext]
    exact hi.tasks.no_context hclosed.2 t ht
  have hnot : .dropContext ∉ b.todo := by simpa [Body.holds] using hreleased
  rcases b.kind.released (hi.suffix b hb) hnot with hnil | hpublishes | hnotice
  · exact List.isEmpty_iff.mpr hnil
  · exact (hclear b hb).1 hpublishes
  · exact absurd hnotice (hclear b hb).2

/-- A call of `TaskManager::stop` has returned. -/
def Stopped (p : Program) : Prop := ∃ c, p.tasks.stops c = .returned

/-- When a call of `stop` returns, no publisher is unfinished and no interleaved
session has its notice left. -/
def Clears (p : Program) : Action → Prop
  | .stop c => p.tasks.stops c = .ret → p.Clear
  | _ => True

theorem Inv.closed_of_stopped (hi : Inv p) (h : p.Stopped) : p.tasks.Closed := by
  obtain ⟨c, hc⟩ := h
  exact hi.tasks.closed (c := c) (by rw [hc]; rfl)

/-- One step keeps the law just when it is not an early return of `stop`. -/
theorem silent_step_iff (hi : Inv p) (hlaw : p.Stopped → p.Silent) (h : p.step a = some p') :
    (p'.Stopped → p'.Silent) ↔ p.Clears a := by
  have hi' := hi.step h
  by_cases hstopped : p.Stopped
  · have hsilent := hlaw hstopped
    refine iff_of_true (fun _ => hsilent.step hi (hi.closed_of_stopped hstopped) h) ?_
    cases a with
    | stop c => exact fun _ => hsilent.clear
    | _ => trivial
  · have hstill : p'.tasks.stops = p.tasks.stops → ¬ p'.Stopped := fun hstops h' =>
      hstopped (by rwa [Stopped, hstops] at h')
    cases hi.effect_of_step h with
    | spawn tasks =>
        exact iff_of_true (absurd · (hstill (TaskManager.held_of_spawn tasks).2)) trivial
    | @stop c tasks bodies =>
        have hreturned := (TaskManager.held_of_stop tasks).2
        by_cases hret : p.tasks.stops c = .ret
        · have hnow : p'.Stopped := ⟨c, (hreturned c).mpr (.inr ⟨rfl, hret⟩)⟩
          have hclear : p'.Clear ↔ p.Clear := by rw [Clear, Clear, bodies]
          rw [imp_iff_right hnow, silent_iff hi' (hi'.closed_of_stopped hnow), hclear]
          exact ⟨fun h _ => h, fun h => h hret⟩
        · refine iff_of_true (fun ⟨d, hd⟩ => ?_) (fun h => absurd h hret)
          rcases (hreturned d).mp hd with hd | ⟨-, hc⟩
          · exact absurd ⟨d, hd⟩ hstopped
          · exact absurd hc hret
    | worked ha _ _ _ _ _ _ stops | owner ha _ _ stops =>
        apply iff_of_true (absurd · (hstill stops))
        cases a with
        | stop c => exact absurd rfl (ha c)
        | _ => trivial

/-- Along a run the program is silent whenever a call of `stop` has returned, just when
each call of `stop` that returns finds no unfinished publisher and no interleaved
session between the end of its context and its notice. -/
theorem stop_silences_iff {as : List Action} (hrun : Transition.run step start as = some p) :
    (∀ bs q, bs <+: as → Transition.run step start bs = some q → q.Stopped → q.Silent) ↔
      ∀ bs a q, bs ++ [a] <+: as → Transition.run step start bs = some q → q.Clears a := by
  refine system.run_forall_iff (P := fun q => q.Stopped → q.Silent) rfl ?_ ?_ hrun
  · rintro ⟨c, hc⟩
    simp [start, TaskManager.new] at hc
  · intro q a q' hreach hlaw hstep
    exact silent_step_iff (inv_of_reachable hreach) hlaw hstep

/-! ### Three shutdowns -/

/-- A future of kind `kind` is spawned. -/
def spawnRun (kind : Kind) : List Action := List.replicate 5 (.spawn 0 kind)

/-- `stop` comes to its `recv`. -/
def signalRun : List Action := List.replicate 5 (.stop 0)

/-- A connection reports its end and finishes before `stop` returns. -/
def orderlyRun : List Action :=
  spawnRun .connection ++ signalRun ++
    [.act 0 .write, .waitForStop 0 .stopAll, .advance 0, .advance 0, .stop 0, .stop 0]

theorem stop_silences_iff_orderlyRun :
    ∃ p, Transition.run step start orderlyRun = some p ∧ p.tasks.stops 0 = .returned ∧
      ((∀ bs q, bs <+: orderlyRun → Transition.run step start bs = some q →
          q.Stopped → q.Silent) ↔
        ∀ bs a q, bs ++ [a] <+: orderlyRun → Transition.run step start bs = some q →
          q.Clears a) :=
  ⟨_, rfl, by decide, stop_silences_iff rfl⟩

/-- A publisher has dropped its context, and `stop` does not wait for it. -/
def publisherRun : List Action :=
  spawnRun .mqttPublisher ++ [.advance 0] ++ signalRun ++ [.stop 0, .stop 0]

/-- A session has dropped its context, and `stop` returns before its notice. -/
def sessionRun : List Action :=
  spawnRun (.session .rtpTcp) ++ signalRun ++
    [.waitForStop 0 .stopAll, .advance 0, .stop 0, .stop 0]

/-- After `stop` has returned, the publisher publishes and the session sends. -/
theorem not_silent_publisherRun :
    (∃ p p', Transition.run step start publisherRun = some p ∧ p.Stopped ∧
      p.step (.act 0 .publish) = some p' ∧ p'.log = [(0, .publish)] ∧ ¬ p.Silent) ∧
    ∃ p p', Transition.run step start sessionRun = some p ∧ p.Stopped ∧
      p.step (.advance 0) = some p' ∧ p'.log = [(0, .send)] ∧ ¬ p.Silent := by
  have hloud : ∀ {p p' : Program} {a : Action}, p.step a = some p' → p'.log ≠ p.log →
      ¬ p.Silent := fun h hlog hsilent =>
    hlog (hsilent.2 [_] _ ((Transition.run_singleton _ _).trans h))
  obtain ⟨p, p', hp, hstop, hp', hlog, hlog'⟩ : ∃ p p',
      Transition.run step start publisherRun = some p ∧ p.tasks.stops 0 = .returned ∧
        p.step (.act 0 .publish) = some p' ∧ p'.log = [(0, .publish)] ∧ p.log = [] :=
    ⟨_, _, rfl, by decide, rfl, rfl, rfl⟩
  obtain ⟨q, q', hq, hstop', hq', hlogq, hlogq'⟩ : ∃ q q',
      Transition.run step start sessionRun = some q ∧ q.tasks.stops 0 = .returned ∧
        q.step (.advance 0) = some q' ∧ q'.log = [(0, .send)] ∧ q.log = [] :=
    ⟨_, _, rfl, by decide, rfl, rfl, rfl⟩
  exact ⟨⟨p, p', hp, ⟨0, hstop⟩, hp', hlog, hloud hp' (by rw [hlog, hlog']; nofun)⟩,
    q, q', hq, ⟨0, hstop'⟩, hq', hlogq, hloud hq' (by rw [hlogq, hlogq']; nofun)⟩

end Program

-- SUMMARY: `SourceManager::stop`: what it leaves of the sources and of the map, and that it stays so.
import AtomRust.Runtime.Handshake
import AtomRust.Source.Catalog

/-!
# Stopping the source manager

As in the session manager, a source is in the hands of its `register_and_start` call, or
in the map, or `stop` has it, or nobody owns it. It may have left the map on its own
notice, or on that of another source which had the same path.
-/

open Runtime (Stopper StopSource TaskState)
open List (getElem?_append_of_some getElem?_concat_eq_some getElem?_set_of_some)

namespace Source
variable {σ : Type} {s s' : Source σ} {a : Action} {stopAll : List Unit} {c : Nat}
  {d : Delegate σ} {stopper : Stopper}

/-! ## Sources -/

/-- No `subscribe` is in progress. -/
def calm (s : Source σ) : Bool := !s.delegates.any fun d => d.pc = .subscribe

theorem handle_of_calm (h : s.calm) : s.handle = s.owned := by
  have hnone : s.delegates.any (fun d => d.pc = .subscribe) = false := by simpa [calm] using h
  rw [handle, hnone, Bool.or_false]

theorem calm_setDelegate (h : s.calm) (hd : d.pc ≠ .subscribe) : (s.setDelegate c d).calm := by
  simp only [calm, Bool.not_eq_true', List.any_eq_false, decide_eq_true_eq] at h ⊢
  intro e he
  rcases List.mem_or_eq_of_mem_set he with he | rfl
  · exact h e he
  · exact hd

/-- A step keeps the owner, and brings no `subscribe` back. -/
theorem frame_of_step (h : s.step stopAll a = some s') :
    s'.owned = s.owned ∧ (s'.delegates = s.delegates ∨
      ∃ c d, d.pc ≠ .subscribe ∧ s'.delegates = s.delegates.set c d) := by
  cases a with
  | poll | takeControl | exit | finish =>
      simp only [step, poll, takeControl, exit, finish] at h
      grind
  | waitForStop src =>
      simp only [step, waitForStop, Option.ite_none_right_eq_some] at h
      obtain ⟨worker, -, rfl⟩ := Option.map_eq_some_iff.mp h.2
      exact ⟨rfl, .inl rfl⟩
  | delegate c | query c | recv c | drop c =>
      obtain ⟨d, -, h⟩ := Option.bind_eq_some_iff.mp h
      simp only [delegate, query, recv, drop] at h
      grind [setDelegate]

theorem calm_of_step (h : s.step stopAll a = some s') (hs : s.calm) : s'.calm := by
  rcases (frame_of_step h).2 with heq | ⟨c, d, hd, heq⟩
  · rwa [calm, heq]
  · rw [calm, heq]
    exact calm_setDelegate hs hd

theorem not_alive_of_step (h : s.step stopAll a = some s') (hs : s.workerPc.alive = false) :
    s'.workerPc.alive = false := by
  cases a with
  | poll | takeControl | exit | finish =>
      simp only [step, poll, takeControl, exit, finish] at h
      grind [WorkerPc.alive]
  | waitForStop src =>
      simp only [step, waitForStop, Option.ite_none_right_eq_some] at h
      simp [h.1, WorkerPc.alive] at hs
  | delegate c | query c | recv c | drop c =>
      obtain ⟨d, -, h⟩ := Option.bind_eq_some_iff.mp h
      simp only [delegate, query, recv, drop] at h
      grind [setDelegate]

/-- The stop channel of the source, as `stop` and the worker see it. -/
structure Served (s : Source σ) (stopper : Stopper) : Prop where
  task : s.worker.Served stopper s.workerPc.running
  context : s.worker.context = s.workerPc.alive

theorem Served.start (path : SourcePath) (streamInfo : σ) (accepted : Bool)
    (stopAll : List Unit) : (Source.start path streamInfo accepted stopAll).Served .away := by
  cases accepted with
  | true => exact ⟨.new _ _, rfl⟩
  | false => exact ⟨.none, rfl⟩

theorem Served.step (h : s.Served stopper) (hs : s.step stopAll a = some s') :
    s'.Served stopper := by
  obtain ⟨htask, hcontext⟩ := h
  cases a with
  | poll =>
      simp only [Source.step, poll, Option.ite_none_right_eq_some, Option.some.injEq] at hs
      obtain ⟨hpc, rfl⟩ := hs
      rw [hpc] at htask hcontext
      exact ⟨htask, hcontext⟩
  | takeControl =>
      simp only [Source.step, takeControl] at hs
      split at hs
      next hpc hcontrol =>
        cases hs
        exact ⟨htask, hcontext⟩
      next hpc hcontrol =>
        simp only [Option.ite_none_left_eq_some, Option.some.injEq] at hs
        obtain ⟨-, rfl⟩ := hs
        rw [hpc] at hcontext
        exact ⟨htask.leave, hcontext⟩
      next => cases hs
  | waitForStop src =>
      simp only [Source.step, waitForStop, Option.ite_none_right_eq_some] at hs
      obtain ⟨hpc, hs⟩ := hs
      obtain ⟨worker, hwait, rfl⟩ := Option.map_eq_some_iff.mp hs
      rw [hpc] at hcontext
      exact ⟨htask.waitForStop hwait, (TaskState.waitForStop_frame hwait).1.trans hcontext⟩
  | exit =>
      simp only [Source.step, exit, Option.ite_none_right_eq_some, Option.some.injEq] at hs
      obtain ⟨hpc, rfl⟩ := hs
      rw [hpc] at htask hcontext
      exact ⟨htask, hcontext⟩
  | finish =>
      simp only [Source.step, finish, Option.ite_none_right_eq_some, Option.some.injEq] at hs
      obtain ⟨-, rfl⟩ := hs
      exact ⟨.dropContext _ _, rfl⟩
  | delegate c | query c | recv c | drop c =>
      obtain ⟨d, -, hs⟩ := Option.bind_eq_some_iff.mp hs
      have hframe : s'.worker = s.worker ∧ s'.workerPc = s.workerPc := by
        simp only [delegate, query, recv, drop] at hs
        grind [setDelegate]
      exact ⟨by rwa [hframe.1, hframe.2], by rw [hframe.1, hframe.2, hcontext]⟩

end Source

namespace SourceManager
variable {σ δ ε : Type} {m m' : SourceManager σ δ ε} {a : Action σ δ ε} {as : List (Action σ δ ε)}
  {path : SourcePath} {i j : Nat} {u v : RegisterCall σ δ ε} {pc : StopPc}

/-! ## The handshakes of `stop` -/

/-- Where `stop` stands with the manager's own worker. -/
def stopper (pc : Option StopPc) : Stopper :=
  match pc with
  | some .takeHold => .takeHold
  | some .wait => .wait
  | _ => .away

/-- Where it stands with the worker of source `i`. -/
def sourceStopper (pc : Option StopPc) (i : Nat) : Stopper :=
  match pc with
  | some (.sourceTakeHold j) => if j = i then .takeHold else .away
  | some (.sourceWait j) => if j = i then .wait else .away
  | _ => .away

def looping (m : SourceManager σ δ ε) : Bool :=
  match m.workerPc with
  | .select | .remove .. => true
  | .left | .ended => false

/-- `stop` is in its round for source `i`. -/
def StopPc.rounds (i : Nat) : StopPc → Bool
  | .stopSource j | .sourceTakeHold j | .sourceWait j | .stopped j => j = i
  | .stop | .takeHold | .wait | .drain => false

/-- `stop` has taken the hold on the manager's own worker. -/
def StopPc.past : StopPc → Bool
  | .stop | .takeHold => false
  | .wait | .drain | .stopSource _ | .sourceTakeHold _ | .sourceWait _ | .stopped _ => true

/-- Why a source is not in the map any more. -/
inductive Out (m : SourceManager σ δ ε) (i : Nat) (s : Source σ) : Prop where
  | ended (h : s.workerPc.running = false)
  /-- Another source that had the path reported its end. -/
  | mistaken {j : Nat} (hj : j ≠ i) (h : .removed s.path j ∈ m.log)

/-- Who has source `i`. -/
inductive Held (m : SourceManager σ δ ε) (i : Nat) (u : RegisterCall σ δ ε) : Prop where
  | fresh (h : u.pc = .entry)
  | mapped (h : m.sources.lookup u.source.path = some i)
  | closing {pc : StopPc} (h : m.stopPc = some pc) (hpc : pc.rounds i)
  | dropped (howned : u.source.owned = false)
      (h : u.pc = .returned (.error .alreadyRegistered) ∨ Out m i u.source)

/-- What always holds of source `i`. -/
structure Tended (m : SourceManager σ δ ε) (i : Nat) (u : RegisterCall σ δ ε) : Prop where
  served : u.source.Served (sourceStopper m.stopPc i)
  held : Held m i u
  quiet : m.stopPc ≠ none → u.pc.active = false ∧ u.source.calm
  /-- `Source::stop` has returned. -/
  stopped : m.stopPc = some (.stopped i) → u.source.workerPc.alive = false

structure Attended (m : SourceManager σ δ ε) : Prop where
  sources : ∀ (i : Nat) (u : RegisterCall σ δ ε), m.registers[i]? = some u → Tended m i u
  served : m.worker.Served (stopper m.stopPc) m.looping
  ended : m.workerPc = .ended ↔ m.worker.context = false
  taken : ∀ pc, m.stopPc = some pc → pc.past → m.worker.hold = false

theorem Out.mono {s : Source σ} (h : Out m i s) (hlog : ∀ r ∈ m.log, r ∈ m'.log) :
    Out m' i s := by
  cases h with
  | ended h => exact .ended h
  | mistaken hj h => exact .mistaken hj (hlog _ h)

namespace Tended

/-- The source itself is left alone. -/
theorem move (h : Tended m i u)
    (hstopper : sourceStopper m'.stopPc i = sourceStopper m.stopPc i)
    (hrounds : ∀ pc, m.stopPc = some pc → pc.rounds i → ∃ pc', m'.stopPc = some pc' ∧ pc'.rounds i)
    (hlookup : m.sources.lookup u.source.path = some i →
      m'.sources.lookup u.source.path = some i)
    (hlog : ∀ r ∈ m.log, r ∈ m'.log)
    (hquiet : m'.stopPc ≠ none → u.pc.active = false ∧ u.source.calm)
    (hstopped : m'.stopPc = some (.stopped i) → u.source.workerPc.alive = false) :
    Tended m' i u := by
  refine ⟨hstopper ▸ h.served, ?_, hquiet, hstopped⟩
  cases h.held with
  | fresh h => exact .fresh h
  | mapped h => exact .mapped (hlookup h)
  | closing h hpc =>
      obtain ⟨pc', h', hpc'⟩ := hrounds _ h hpc
      exact .closing h' hpc'
  | dropped howned h => exact .dropped howned (h.imp_right fun hout => hout.mono hlog)

/-- Steps that concern another source. -/
theorem frame (h : Tended m i u) (hstop : m'.stopPc = m.stopPc)
    (hlookup : m.sources.lookup u.source.path = some i →
      m'.sources.lookup u.source.path = some i)
    (hlog : ∀ r ∈ m.log, r ∈ m'.log) : Tended m' i u :=
  h.move (by rw [hstop]) (fun pc hpc hrounds => ⟨pc, hstop.trans hpc, hrounds⟩) hlookup hlog
    (hstop ▸ h.quiet) (hstop ▸ h.stopped)

theorem congr (h : Tended m i u) (hstop : m'.stopPc = m.stopPc) (hsources : m'.sources = m.sources)
    (hlog : m'.log = m.log) : Tended m' i u :=
  h.frame hstop (fun hmap => hsources ▸ hmap) fun _ hr => hlog ▸ hr

/-- The source takes a step of its own. -/
theorem source {b : Source.Action} {s : Source σ} (h : Tended m i u)
    (hs : u.source.step m.stopAll b = some s) : Tended m i { u with source := s } := by
  have hevolves := Source.evolves_of_step hs
  refine ⟨h.served.step hs, ?_, fun hne => ?_, fun hstop => ?_⟩
  · cases h.held with
    | fresh h => exact .fresh h
    | mapped h => exact .mapped (hevolves.path ▸ h)
    | closing h hpc => exact .closing h hpc
    | dropped howned h =>
        refine .dropped ((Source.frame_of_step hs).1.trans howned) (h.imp_right fun hout => ?_)
        cases hout with
        | ended h => exact .ended (Bool.eq_false_iff.mpr fun hrun => by simp [hevolves.running hrun] at h)
        | mistaken hj h => exact .mistaken hj (hevolves.path ▸ h)
  · exact ⟨(h.quiet hne).1, Source.calm_of_step hs (h.quiet hne).2⟩
  · exact Source.not_alive_of_step hs (h.stopped hstop)

/-- The call goes on, and is past the map. -/
theorem call {pc : RegisterPc δ ε} (h : Tended m i u) (hactive : u.pc.active)
    (hentry : u.pc ≠ .entry) : Tended m i { u with pc } := by
  refine ⟨h.served, ?_, fun hne => ?_, h.stopped⟩
  · cases h.held with
    | fresh h => exact absurd h hentry
    | mapped h => exact .mapped h
    | closing h hpc => exact .closing h hpc
    | dropped howned h =>
        refine .dropped howned (.inr (h.resolve_left fun hpc => ?_))
        simp [hpc, RegisterPc.active] at hactive
  · simp [(h.quiet hne).1] at hactive

end Tended

/-- The call puts its source into the map. -/
theorem Tended.registered (h : Tended m i u) (hnone : m.stopPc = none)
    (hstop : m'.stopPc = m.stopPc) (hmap : m'.sources.lookup u.source.path = some i) :
    Tended m' i { u with pc := .createSdp } := by
  rw [hnone] at hstop
  refine ⟨?_, .mapped hmap, fun hne => absurd hstop hne, fun hpc => by simp [hstop] at hpc⟩
  rw [hstop, ← hnone]
  exact h.served

/-- The call finds that the path is taken, and drops its source. -/
theorem Tended.refused (h : Tended m i u) (hnone : m.stopPc = none)
    (hstop : m'.stopPc = m.stopPc) :
    Tended m' i { source := { u.source with owned := false },
                  pc := .returned (.error .alreadyRegistered) } := by
  rw [hnone] at hstop
  refine ⟨⟨?_, h.served.context⟩, .dropped rfl (.inl rfl), fun hne => absurd hstop hne,
    fun hpc => by simp [hstop] at hpc⟩
  rw [hstop, ← hnone]
  exact h.served.task

/-- The manager's `Arc` is dropped. -/
theorem Tended.disown (h : Tended m i u) (hstop : m'.stopPc = m.stopPc)
    (hout : Out m' i u.source) :
    Tended m' i { u with source := { u.source with owned := false } } := by
  refine ⟨⟨?_, h.served.context⟩, .dropped rfl (.inr ?_), hstop ▸ h.quiet, hstop ▸ h.stopped⟩
  · rw [hstop]
    exact h.served.task
  · cases hout with
    | ended h => exact .ended h
    | mistaken hj h => exact .mistaken hj h

theorem disown_of_some (hu : m.registers[i]? = some u) :
    m.disown (some i) = m.setSource i u { u.source with owned := false } := by
  simp [SourceManager.disown, hu]

namespace Attended

theorem start (accepted : Bool) (stopAll : List Unit) :
    Attended (SourceManager.start accepted stopAll : SourceManager σ δ ε) := by
  refine ⟨by simp [SourceManager.start], ?_, ?_, nofun⟩
  · cases accepted with
    | true => exact .new _ _
    | false => exact .none
  · cases accepted <;> simp [SourceManager.start, TaskState.new, TaskState.none]

/-- The manager's own worker is as it was. -/
theorem of_sources (h : Attended m) (hstop : m'.stopPc = m.stopPc) (hworker : m'.worker = m.worker)
    (hpc : m'.workerPc = m.workerPc)
    (hsources : ∀ (j : Nat) (w : RegisterCall σ δ ε), m'.registers[j]? = some w → Tended m' j w) :
    Attended m' := by
  have hlooping : m'.looping = m.looping := by rw [looping, hpc, looping]
  refine ⟨hsources, ?_, by rw [hworker, hpc, h.ended], by rw [hworker, hstop]; exact h.taken⟩
  rw [hworker, hstop, hlooping]
  exact h.served

/-- The manager's own worker goes around in its loop. -/
theorem of_loop (h : Attended m) (hlooping : m.looping = true) (hlooping' : m'.looping = true)
    (hstop : m'.stopPc = m.stopPc) (hworker : m'.worker = m.worker)
    (hsources : ∀ (j : Nat) (w : RegisterCall σ δ ε), m'.registers[j]? = some w → Tended m' j w) :
    Attended m' := by
  have hserved := h.served
  rw [hlooping] at hserved
  refine ⟨hsources, ?_, iff_of_false ?_ ?_, by rw [hworker, hstop]; exact h.taken⟩
  · rw [hworker, hstop, hlooping']
    exact hserved
  · intro hended
    simp [looping, hended] at hlooping'
  · rw [hworker, hserved.context rfl]
    exact nofun

/-- `stop` is past the manager's own worker. -/
theorem of_taken (h : Attended m) (hpc : m.stopPc = some pc) (hpast : pc.past)
    (hstopper : stopper m'.stopPc = stopper m.stopPc)
    (hworker : m'.worker = m.worker) (hworkerPc : m'.workerPc = m.workerPc)
    (hsources : ∀ (j : Nat) (w : RegisterCall σ δ ε), m'.registers[j]? = some w → Tended m' j w) :
    Attended m' := by
  have hlooping : m'.looping = m.looping := by rw [looping, hworkerPc, looping]
  refine ⟨hsources, ?_, by rw [hworker, hworkerPc, h.ended], fun _ _ _ => ?_⟩
  · rw [hworker, hstopper, hlooping]
    exact h.served
  · rw [hworker]
    exact h.taken pc hpc hpast

/-- One source changes. -/
theorem of_set (h : Attended m) (hu : m.registers[i]? = some u)
    (hregisters : m'.registers = m.registers.set i v) (hv : Tended m i v)
    (hsources : m'.sources = m.sources) (hlog : m'.log = m.log) (hstop : m'.stopPc = m.stopPc)
    (hworker : m'.worker = m.worker) (hpc : m'.workerPc = m.workerPc) : Attended m' := by
  refine h.of_sources hstop hworker hpc ?_
  rw [hregisters]
  exact List.forall_getElem?_set hu (hv.congr hstop hsources hlog)
    fun j w _ hw => (h.sources j w hw).congr hstop hsources hlog

theorem advance {description : Except (SdpError ε) δ} (h : Attended m)
    (hu : m.registers[i]? = some u) (hs : m.advance i u description = some m') : Attended m' := by
  have htended := h.sources i u hu
  unfold SourceManager.advance at hs
  split at hs
  next hpc =>
    obtain rfl := Option.some.inj hs
    have hnone : m.stopPc = none := by
      by_contra hne
      have hquiet := (htended.quiet hne).1
      simp [hpc, RegisterPc.active] at hquiet
    cases hlookup : m.sources.lookup u.source.path with
    | none =>
        simp only [entry, hlookup]
        refine h.of_sources rfl rfl rfl (List.forall_getElem?_set hu ?_ fun j w _ hw => ?_)
        · exact htended.registered hnone rfl (AList.lookup_insert _)
        · refine (h.sources j w hw).frame rfl (fun hmap => ?_) fun r hr => List.mem_cons_of_mem _ hr
          have hne : w.source.path ≠ u.source.path := by
            intro hpath
            rw [hpath, hlookup] at hmap
            cases hmap
          exact (AList.lookup_insert_ne hne).trans hmap
    | some k =>
        simp only [entry, hlookup]
        refine h.of_sources rfl rfl rfl (List.forall_getElem?_set hu ?_ fun j w _ hw => ?_)
        · exact htended.refused hnone rfl
        · exact (h.sources j w hw).congr rfl rfl rfl
  next hpc =>
    cases hs
    exact h.of_set hu rfl (htended.call (by rw [hpc]; rfl) (by simp [hpc])) rfl rfl rfl rfl rfl
  next hpc =>
    cases hs
    exact h.of_set hu rfl (htended.call (by rw [hpc]; rfl) (by simp [hpc])) rfl rfl rfl rfl rfl
  next hpc =>
    obtain ⟨_, -, rfl⟩ := Option.map_eq_some_iff.mp hs
    exact h.of_set hu rfl (htended.call (by rw [hpc]; rfl) (by simp [hpc])) rfl rfl rfl rfl rfl
  next => cases hs

theorem subscribe (h : Attended m) (hnone : m.stopPc = none)
    (hs : m.subscribe path = some m') : Attended m' := by
  obtain ⟨i, -, hs⟩ := Option.bind_eq_some_iff.mp hs
  obtain ⟨u, hu, rfl⟩ := Option.map_eq_some_iff.mp hs
  have htended := h.sources i u hu
  refine h.of_set hu rfl ⟨⟨htended.served.task, htended.served.context⟩, ?_,
    fun hne => absurd hnone hne, htended.stopped⟩ rfl rfl rfl rfl rfl
  cases htended.held with
  | fresh h => exact .fresh h
  | mapped h => exact .mapped h
  | closing h hpc => exact .closing h hpc
  | dropped howned h =>
      refine .dropped howned (h.imp_right fun hout => ?_)
      cases hout with
      | ended h => exact .ended h
      | mistaken hj h => exact .mistaken hj h

/-- The source that has the path is taken out of the map. -/
theorem erase_eq {k : Nat} (hmap : m.sources.lookup path = some k) (hne : i ≠ k)
    (h : m.sources.lookup u.source.path = some i) :
    (m.sources.erase path).lookup u.source.path = some i := by
  have hpath : u.source.path ≠ path := by
    rintro rfl
    exact hne (Option.some.inj (h.symm.trans hmap))
  rw [AList.lookup_erase_ne hpath, h]

theorem remove (h : Attended m) (hm : Catalog m) (hs : m.remove = some m') : Attended m' := by
  simp only [SourceManager.remove] at hs
  split at hs
  next path k hpc =>
    have hlooping : m.looping = true := by rw [looping, hpc]
    cases hlookup : m.sources.lookup path with
    | none =>
        rw [hlookup] at hs
        cases hs
        refine h.of_loop hlooping rfl rfl rfl fun j w hw => ?_
        refine (h.sources j w hw).frame rfl (fun hmap => ?_) fun r hr => List.mem_cons_of_mem _ hr
        have hne : w.source.path ≠ path := by
          rintro rfl
          simp [hlookup] at hmap
        exact (AList.lookup_erase_ne hne).trans hmap
    | some i =>
        obtain ⟨u, hu, rfl⟩ := hm.mapped path i hlookup
        rw [hlookup, disown_of_some hu] at hs
        cases hs
        refine h.of_loop hlooping rfl rfl rfl
          (List.forall_getElem?_set hu ?_ fun j w hji hw => ?_)
        · refine (h.sources i u hu).disown ?_ ?_
          · rfl
          by_cases hki : k = i
          · -- It is the source's own notice.
            subst hki
            obtain ⟨w, hw, -, hnotified⟩ := hm.flight u.source.path k (by simp [flight, hpc])
            obtain rfl := Option.some.inj (hu.symm.trans hw)
            refine .ended ?_
            cases hworker : u.source.workerPc <;>
              simp [hworker, Source.WorkerPc.notified] at hnotified <;> rfl
          · exact .mistaken hki List.mem_cons_self
        · exact (h.sources j w hw).frame rfl (erase_eq hlookup hji) fun r hr =>
            List.mem_cons_of_mem _ hr
  next => cases hs

end Attended

/-- `stop` goes on, and is not in its round for source `i`. -/
theorem Tended.elsewhere {pc : StopPc} (h : Tended m i u) (hpc : m.stopPc = some pc)
    (hsources : m'.sources = m.sources) (hlog : m'.log = m.log) (hrounds : pc.rounds i = false)
    (hstopper : sourceStopper m'.stopPc i = .away) (hstopped : m'.stopPc ≠ some (.stopped i)) :
    Tended m' i u := by
  have hbefore : sourceStopper m.stopPc i = .away := by
    rw [hpc]
    cases pc <;> first | rfl | simpa [sourceStopper, StopPc.rounds] using hrounds
  refine h.move (by rw [hstopper, hbefore]) (fun pc' hpc' hrounds' => ?_)
    (fun hmap => hsources ▸ hmap) (fun r hr => hlog ▸ hr)
    (fun _ => h.quiet (by simp [hpc])) fun hst => absurd hst hstopped
  cases hpc'.symm.trans hpc
  simp [hrounds] at hrounds'

/-- `stop` has got to `pc'` with source `i`. -/
theorem Tended.round {pc pc' : StopPc} (h : Tended m i u) (worker : TaskState)
    (hpc : m.stopPc = some pc) (hpc' : m'.stopPc = some pc') (hrounds : pc'.rounds i)
    (hserved : worker.Served (sourceStopper m'.stopPc i) u.source.workerPc.running)
    (hcontext : worker.context = u.source.worker.context)
    (hstopped : pc' = .stopped i → u.source.worker.context = false) :
    Tended m' i { u with source := { u.source with worker } } := by
  refine ⟨⟨hserved, hcontext.trans h.served.context⟩, .closing hpc' hrounds,
    fun _ => h.quiet (by simp [hpc]), fun hst => ?_⟩
  cases hpc'.symm.trans hst
  exact h.served.context.symm.trans (hstopped rfl)

namespace Attended

theorem stopStep (h : Attended m) (hpc : m.stopPc = some pc) (hs : m.stopStep pc = some m') :
    Attended m' := by
  have hserved := h.served
  rw [hpc] at hserved
  cases pc with
  | stop =>
      obtain ⟨worker, hsend, rfl⟩ := Option.map_eq_some_iff.mp hs
      refine ⟨fun j w hw => ?_, hserved.sendStop hsend, ?_, ?_⟩
      · exact (h.sources j w hw).elsewhere hpc rfl rfl rfl rfl (by simp)
      · exact h.ended.trans (by rw [(TaskState.sendStop_frame hsend).1])
      · rintro _ ⟨⟩ hpast
        cases hpast
  | takeHold =>
      cases hs
      have htake := hserved.takeHold
      refine ⟨fun j w hw => (h.sources j w hw).elsewhere hpc rfl rfl rfl ?_ ?_, ?_, h.ended,
        fun _ _ _ => rfl⟩
      · cases hhold : m.worker.hold <;> simp [sourceStopper]
      · cases hhold : m.worker.hold <;> simp
      · cases hhold : m.worker.hold <;> simpa [hhold, stopper, looping] using htake
  | wait =>
      obtain ⟨hreleased, hs⟩ := Option.ite_none_right_eq_some.mp hs
      cases hs
      exact ⟨fun j w hw => (h.sources j w hw).elsewhere hpc rfl rfl rfl rfl (by simp),
        hserved.released hreleased, h.ended, fun _ _ _ => h.taken .wait hpc rfl⟩
  | drain =>
      obtain ⟨-, hs⟩ := Option.ite_none_right_eq_some.mp hs
      cases hs
      exact h.of_taken hpc rfl (by rw [hpc]; rfl) rfl rfl fun j w hw =>
        (h.sources j w hw).elsewhere hpc rfl rfl rfl rfl (by simp)
  | stopSource i =>
      obtain ⟨u, hu, hs⟩ := Option.bind_eq_some_iff.mp hs
      obtain ⟨worker, hsend, rfl⟩ := Option.map_eq_some_iff.mp hs
      have htended := h.sources i u hu
      refine h.of_taken hpc rfl (by rw [hpc]; rfl) rfl rfl
        (List.forall_getElem?_set hu ?_ fun j w hji hw => ?_)
      · refine htended.round _ hpc rfl (by simp [StopPc.rounds]) ?_
          (TaskState.sendStop_frame hsend).1 (by simp)
        have htask := htended.served.task
        rw [hpc] at htask
        simpa [sourceStopper] using htask.sendStop hsend
      · refine (h.sources j w hw).elsewhere hpc rfl rfl ?_ ?_ (by simp) <;>
          simp [StopPc.rounds, sourceStopper, Ne.symm hji]
  | sourceTakeHold i =>
      obtain ⟨u, hu, rfl⟩ := Option.map_eq_some_iff.mp hs
      have htended := h.sources i u hu
      have htask := htended.served.task
      have hother : ∀ next : StopPc, next = .sourceWait i ∨ next = .stopped i →
          ∀ (j : Nat) (w : RegisterCall σ δ ε), j ≠ i → m.registers[j]? = some w →
          ∀ t : SourceManager σ δ ε, t.stopPc = some next → t.sources = m.sources →
            t.log = m.log → Tended t j w := by
        intro next hnext j w hji hw t ht hsources hlog
        refine (h.sources j w hw).elsewhere hpc hsources hlog ?_ ?_ ?_
        · simp [StopPc.rounds, Ne.symm hji]
        · rw [ht]
          rcases hnext with rfl | rfl <;> simp [sourceStopper, Ne.symm hji]
        · rw [ht]
          rcases hnext with rfl | rfl <;> simp [Ne.symm hji]
      have hcaller : sourceStopper m.stopPc i = .takeHold := by simp [hpc, sourceStopper]
      rw [hcaller] at htask
      cases hhold : u.source.worker.hold with
      | true =>
          simp only [if_true]
          refine h.of_taken hpc rfl (by rw [hpc]; rfl) rfl rfl
            (List.forall_getElem?_set hu ?_ fun j w hji hw =>
              hother _ (.inl rfl) j w hji hw _ rfl rfl rfl)
          refine htended.round _ hpc rfl (by simp [StopPc.rounds]) ?_ rfl (by simp)
          simpa [sourceStopper, hhold] using htask.takeHold
      | false =>
          simp only [Bool.false_eq_true, if_false]
          refine h.of_taken hpc rfl (by rw [hpc]; rfl) rfl rfl
            (List.forall_getElem?_set hu ?_ fun j w hji hw =>
              hother _ (.inr rfl) j w hji hw _ rfl rfl rfl)
          refine htended.round _ hpc rfl (by simp [StopPc.rounds]) ?_ rfl fun _ => ?_
          · simpa [sourceStopper, hhold] using htask.takeHold
          · apply Bool.eq_false_iff.mpr
            intro hcontext
            cases htask.hold hcontext hhold
  | sourceWait i =>
      obtain ⟨u, hu, hs⟩ := Option.bind_eq_some_iff.mp hs
      obtain ⟨hreleased, hs⟩ := Option.ite_none_right_eq_some.mp hs
      cases hs
      refine h.of_taken hpc rfl (by rw [hpc]; rfl) rfl rfl fun j w hw => ?_
      by_cases hji : j = i
      · subst hji
        obtain rfl := Option.some.inj (hu.symm.trans hw)
        have htended := h.sources j u hu
        have htask := htended.served.task
        have hcaller : sourceStopper m.stopPc j = .wait := by simp [hpc, sourceStopper]
        rw [hcaller] at htask
        exact htended.round u.source.worker hpc rfl (by simp [StopPc.rounds])
          (htask.released hreleased) rfl fun _ => by simpa [TaskState.released] using hreleased
      · refine (h.sources j w hw).elsewhere hpc rfl rfl ?_ rfl ?_ <;>
          simp [StopPc.rounds, Ne.symm hji]
  | stopped i =>
      cases hs
      cases hu : m.registers[i]? with
      | none =>
          have hdisown : m.disown (some i) = m := by simp [disown, hu]
          rw [hdisown]
          refine h.of_taken hpc rfl (by rw [hpc]; rfl) rfl rfl fun j w hw => ?_
          refine (h.sources j w hw).elsewhere hpc rfl rfl ?_ rfl (by simp)
          simp only [StopPc.rounds, decide_eq_false_iff_not]
          rintro rfl
          simp [hu] at hw
      | some u =>
          rw [disown_of_some hu]
          refine h.of_taken hpc rfl (by rw [hpc]; rfl) rfl rfl
            (List.forall_getElem?_set hu ?_ fun j w hji hw => ?_)
          · have htended := h.sources i u hu
            have halive := htended.stopped hpc
            refine ⟨⟨?_, htended.served.context⟩, .dropped rfl (.inr (.ended ?_)),
              fun _ => htended.quiet (by simp [hpc]), by simp⟩
            · have htask := htended.served.task
              rw [hpc] at htask
              exact htask
            · cases hworker : u.source.workerPc <;>
                simp [hworker, Source.WorkerPc.alive] at halive <;> rfl
          · refine (h.sources j w hw).elsewhere hpc rfl rfl ?_ rfl (by simp)
            simp [StopPc.rounds, Ne.symm hji]

theorem drain (h : Attended m) (hpc : m.stopPc = some .drain)
    (hs : m.drain path = some m') : Attended m' := by
  obtain ⟨i, hi, rfl⟩ := Option.map_eq_some_iff.mp hs
  refine h.of_taken hpc rfl (by rw [hpc]; rfl) rfl rfl fun j w hw => ?_
  have htended := h.sources j w hw
  refine ⟨?_, ?_, fun _ => htended.quiet (by simp [hpc]), nofun⟩
  · have hj := htended.served
    rw [hpc] at hj
    exact hj
  · by_cases hji : j = i
    · exact .closing rfl (by simp [StopPc.rounds, hji])
    · cases htended.held with
      | fresh h => exact .fresh h
      | mapped h => exact .mapped (erase_eq hi hji h)
      | closing h hrounds =>
          cases hpc.symm.trans h
          cases hrounds
      | dropped howned h =>
          exact .dropped howned (h.imp_right fun hout => hout.mono fun r hr =>
            List.mem_cons_of_mem _ hr)

theorem step (h : Attended m) (hm : Catalog m) (hs : m.step a = some m') : Attended m' := by
  cases a with
  | register path streamInfo =>
      obtain ⟨hnone, hs⟩ := Option.ite_none_right_eq_some.mp hs
      cases hs
      refine h.of_sources rfl rfl rfl fun j w hw => ?_
      rcases getElem?_concat_eq_some hw with ⟨hw, -⟩ | ⟨-, rfl⟩
      · exact (h.sources j w hw).congr rfl rfl rfl
      · refine ⟨?_, .fresh rfl, fun hne => absurd hnone hne, fun hst => ?_⟩
        · have hstart := Source.Served.start (normalizePath path) streamInfo m.accepting m.stopAll
          simpa [registerAndStart, hnone, sourceStopper] using hstart
        · simp [registerAndStart, hnone] at hst
  | advance i description =>
      obtain ⟨u, hu, hs⟩ := Option.bind_eq_some_iff.mp hs
      exact h.advance hu hs
  | subscribe path =>
      obtain ⟨hnone, hs⟩ := Option.ite_none_right_eq_some.mp hs
      cases hs
      cases hsub : m.subscribe path with
      | none => exact h
      | some m' => exact h.subscribe hnone hsub
  | source i b =>
      obtain ⟨u, hu, hs⟩ := Option.bind_eq_some_iff.mp hs
      obtain ⟨s, hstep, rfl⟩ := Option.map_eq_some_iff.mp hs
      exact h.of_set hu rfl ((h.sources i u hu).source hstep) rfl rfl rfl rfl rfl
  | recv =>
      simp only [SourceManager.step, recv] at hs
      split at hs
      next path i notices hpc hnotices =>
        cases hs
        exact h.of_loop (by rw [looping, hpc]) rfl rfl rfl fun j w hw =>
          (h.sources j w hw).congr rfl rfl rfl
      next => cases hs
  | remove => exact h.remove hm hs
  | waitForStop src =>
      obtain ⟨hselect, hs⟩ := Option.ite_none_right_eq_some.mp hs
      obtain ⟨worker, hwait, rfl⟩ := Option.map_eq_some_iff.mp hs
      obtain ⟨hcontext, hhold, -⟩ := TaskState.waitForStop_frame hwait
      have halive : m.worker.context = true := h.served.context (by rw [looping, hselect])
      refine ⟨fun j w hw => (h.sources j w hw).congr rfl rfl rfl, h.served.waitForStop hwait,
        iff_of_false (by simp) ?_, fun pc hpc hpast => hhold.trans (h.taken pc hpc hpast)⟩
      rw [hcontext, halive]
      simp
  | exit =>
      obtain ⟨-, hs⟩ := Option.ite_none_right_eq_some.mp hs
      cases hs
      exact ⟨fun j w hw => (h.sources j w hw).congr rfl rfl rfl, .dropContext _ _,
        iff_of_true rfl rfl, h.taken⟩
  | beginStop =>
      obtain ⟨⟨hnone, hquiet⟩, hs⟩ := Option.ite_none_right_eq_some.mp hs
      cases hs
      have hserved := h.served
      rw [hnone] at hserved
      have htaken : ∀ pc, some StopPc.stop = some pc → pc.past → m.worker.hold = false := by
        rintro _ ⟨⟩ hpast
        cases hpast
      refine ⟨fun j w hw => ?_, hserved, h.ended, htaken⟩
      refine (h.sources j w hw).move (by rw [hnone]; rfl) (fun pc hpc => by simp [hnone] at hpc)
        id (fun r hr => hr) (fun _ => ?_) (by simp)
      simpa [Source.calm] using List.all_eq_true.mp hquiet w (List.mem_of_getElem? hw)
  | stop =>
      obtain ⟨pc, hpc, hs⟩ := Option.bind_eq_some_iff.mp hs
      exact h.stopStep hpc hs
  | drain path =>
      obtain ⟨hpc, hs⟩ := Option.ite_none_right_eq_some.mp hs
      exact h.drain hpc hs
  | refuse | stopAll =>
      cases hs
      exact h.of_sources rfl rfl rfl fun j w hw => (h.sources j w hw).congr rfl rfl rfl

end Attended

theorem attended_of_reachable (h : (system σ δ ε).Reachable m) : Attended m :=
  h.invariant (fun _ ⟨accepted, stopAll, hm⟩ => hm ▸ .start accepted stopAll)
    fun _ _ _ hm hi hs => hi.step (catalog_of_reachable hm) hs

/-! ## What is left -/

/-- Nobody can ask for a source any more, and none is kept. -/
structure Emptied (m : SourceManager σ δ ε) : Prop where
  missing : ∀ path, m.sources.lookup path = none
  returned : ∀ (i : Nat) (u : RegisterCall σ δ ε), m.registers[i]? = some u → u.pc.active = false
  dropped : ∀ (i : Nat) (u : RegisterCall σ δ ε), m.registers[i]? = some u →
    u.source.handle = false
  /-- The workers of the sources that `stop` found in the map, or that had reported their
  end, are behind their loops. -/
  ended : ∀ (i : Nat) (u : RegisterCall σ δ ε), m.registers[i]? = some u →
    u.pc ≠ .returned (.error .alreadyRegistered) → Out m i u.source
  /-- No notice is acted on any more. -/
  worker : m.workerPc = .ended

/-- The loop of `stop` is over. -/
theorem emptied_of_stop (hm : (system σ δ ε).Reachable m) (hpc : m.stopPc = some .drain)
    (hs : m.step .stop = some m') : Emptied m' := by
  have hstep : m.stopStep .drain = some m' := by
    simpa [step, hpc] using hs
  obtain ⟨hempty, hs⟩ := Option.ite_none_right_eq_some.mp hstep
  cases hs
  have hattended := attended_of_reachable hm
  have hnil : m.sources = ∅ := AList.ext (List.isEmpty_iff.mp hempty)
  have hnone : ∀ path, m.sources.lookup path = none := fun path => by
    rw [hnil, AList.lookup_empty]
  have hquiet : ∀ (i : Nat) (u : RegisterCall σ δ ε), m.registers[i]? = some u →
      u.pc.active = false ∧ u.source.calm := fun i u hu =>
    (hattended.sources i u hu).quiet (by simp [hpc])
  have hheld : ∀ (i : Nat) (u : RegisterCall σ δ ε), m.registers[i]? = some u →
      u.source.owned = false ∧
        (u.pc = .returned (.error .alreadyRegistered) ∨ Out m i u.source) := by
    intro i u hu
    cases (hattended.sources i u hu).held with
    | fresh h =>
        have hactive := (hquiet i u hu).1
        simp [h, RegisterPc.active] at hactive
    | mapped h => simp [hnone] at h
    | closing h hrounds =>
        cases hpc.symm.trans h
        cases hrounds
    | dropped howned h => exact ⟨howned, h⟩
  refine
    { missing := hnone
      returned := fun i u hu => (hquiet i u hu).1
      dropped := fun i u hu => ?_
      ended := fun i u hu herror => ?_
      worker := ?_ }
  · rw [Source.handle_of_calm (hquiet i u hu).2]
    exact (hheld i u hu).1
  · exact ((hheld i u hu).2.resolve_left herror).mono fun r hr => hr
  · have hhold := hattended.taken .drain hpc rfl
    have hserved := hattended.served
    rw [hpc] at hserved
    apply hattended.ended.mpr
    apply Bool.eq_false_iff.mpr
    intro hcontext
    cases hserved.hold hcontext hhold

def Action.isRegister : Action σ δ ε → Bool
  | .register .. => true
  | _ => false

namespace Emptied

/-- The sources and the map are as they were. -/
theorem congr (h : Emptied m) (hregisters : m'.registers = m.registers)
    (hsources : m'.sources = m.sources) (hlog : m'.log = m.log)
    (hworker : m'.workerPc = m.workerPc) : Emptied m' :=
  ⟨hsources ▸ h.missing, hregisters ▸ h.returned, hregisters ▸ h.dropped,
    fun i u hu hpc => (h.ended i u (hregisters ▸ hu) hpc).mono fun _ hr => hlog ▸ hr,
    hworker.trans h.worker⟩

/-- One source changes, and nobody comes to own it. -/
theorem of_set {s : Source σ} (h : Emptied m) (hu : m.registers[i]? = some u)
    (hregisters : m'.registers = m.registers.set i { u with source := s })
    (hhandle : s.handle = false) (hpath : s.path = u.source.path)
    (hrunning : s.workerPc.running → u.source.workerPc.running)
    (hsources : m'.sources = m.sources) (hlog : m'.log = m.log)
    (hworker : m'.workerPc = m.workerPc) : Emptied m' := by
  refine ⟨hsources ▸ h.missing, ?_, ?_, ?_, hworker.trans h.worker⟩
  · rw [hregisters]
    exact List.forall_getElem?_set (P := fun _ (w : RegisterCall σ δ ε) => w.pc.active = false) hu
      (h.returned i u hu) fun j w _ hw => h.returned j w hw
  · rw [hregisters]
    exact List.forall_getElem?_set (P := fun _ (w : RegisterCall σ δ ε) => w.source.handle = false)
      hu hhandle fun j w _ hw => h.dropped j w hw
  · rw [hregisters]
    refine List.forall_getElem?_set (P := fun j (w : RegisterCall σ δ ε) =>
      w.pc ≠ .returned (.error .alreadyRegistered) → Out m' j w.source) hu (fun hpc => ?_)
      fun j w _ hw hpc => (h.ended j w hw hpc).mono fun _ hr => hlog ▸ hr
    cases h.ended i u hu hpc with
    | ended h => exact .ended (Bool.eq_false_iff.mpr fun hrun => by simp [hrunning hrun] at h)
    | mistaken hj hmem => exact .mistaken hj (by rw [hlog, hpath]; exact hmem)

theorem stopStep (h : Emptied m) (hs : m.stopStep pc = some m') : Emptied m' := by
  cases pc with
  | stop =>
      obtain ⟨worker, -, rfl⟩ := Option.map_eq_some_iff.mp hs
      exact h.congr rfl rfl rfl rfl
  | takeHold =>
      cases hs
      exact h.congr rfl rfl rfl rfl
  | wait | drain =>
      obtain ⟨-, hs⟩ := Option.ite_none_right_eq_some.mp hs
      cases hs
      exact h.congr rfl rfl rfl rfl
  | stopSource i =>
      obtain ⟨u, hu, hs⟩ := Option.bind_eq_some_iff.mp hs
      obtain ⟨worker, -, rfl⟩ := Option.map_eq_some_iff.mp hs
      exact h.of_set hu rfl (h.dropped i u hu) rfl id rfl rfl rfl
  | sourceTakeHold i =>
      obtain ⟨u, hu, rfl⟩ := Option.map_eq_some_iff.mp hs
      exact h.of_set hu rfl (h.dropped i u hu) rfl id rfl rfl rfl
  | sourceWait i =>
      obtain ⟨u, -, hs⟩ := Option.bind_eq_some_iff.mp hs
      obtain ⟨-, hs⟩ := Option.ite_none_right_eq_some.mp hs
      cases hs
      exact h.congr rfl rfl rfl rfl
  | stopped i =>
      cases hs
      cases hu : m.registers[i]? with
      | none =>
          have hdisown : m.disown (some i) = m := by simp [disown, hu]
          rw [hdisown]
          exact h.congr rfl rfl rfl rfl
      | some u =>
          rw [disown_of_some hu]
          have hhandle := (Bool.or_eq_false_iff.mp (h.dropped i u hu)).2
          exact h.of_set hu rfl (Bool.or_eq_false_iff.mpr ⟨rfl, hhandle⟩) rfl id rfl rfl rfl

/-- Only a new `register_and_start` could change what `stop` leaves. -/
theorem step (h : Emptied m) (hs : m.step a = some m') (ha : a.isRegister = false) :
    Emptied m' := by
  cases a with
  | register => cases ha
  | advance i description =>
      obtain ⟨u, hu, hs⟩ := Option.bind_eq_some_iff.mp hs
      have hactive := h.returned i u hu
      cases hpc : u.pc with
      | returned result => simp [advance, hpc] at hs
      | entry | createSdp | cache | describe => simp [hpc, RegisterPc.active] at hactive
  | subscribe path =>
      obtain ⟨-, hs⟩ := Option.ite_none_right_eq_some.mp hs
      have hnone : m.subscribe path = none := by simp [subscribe, h.missing]
      rw [hnone] at hs
      cases hs
      exact h
  | source i b =>
      obtain ⟨u, hu, hs⟩ := Option.bind_eq_some_iff.mp hs
      obtain ⟨s, hstep, rfl⟩ := Option.map_eq_some_iff.mp hs
      have hevolves := Source.evolves_of_step hstep
      obtain ⟨howned, hsub⟩ := Bool.or_eq_false_iff.mp (h.dropped i u hu)
      have hcalm : s.calm := Source.calm_of_step hstep (by simp [Source.calm, hsub])
      refine h.of_set hu rfl ?_ hevolves.path hevolves.running rfl rfl rfl
      rw [Source.handle_of_calm hcalm, (Source.frame_of_step hstep).1, howned]
  | recv => simp [SourceManager.step, recv, h.worker] at hs
  | remove => simp [SourceManager.step, remove, h.worker] at hs
  | waitForStop src => simp [SourceManager.step, waitForStop, h.worker] at hs
  | exit => simp [SourceManager.step, exit, h.worker] at hs
  | beginStop =>
      obtain ⟨-, hs⟩ := Option.ite_none_right_eq_some.mp hs
      cases hs
      exact h.congr rfl rfl rfl rfl
  | stop =>
      obtain ⟨pc, -, hs⟩ := Option.bind_eq_some_iff.mp hs
      exact h.stopStep hs
  | drain path =>
      obtain ⟨-, hs⟩ := Option.ite_none_right_eq_some.mp hs
      simp [drain, h.missing] at hs
  | refuse | stopAll =>
      cases hs
      exact h.congr rfl rfl rfl rfl

end Emptied

/-- When `stop` returns, the map is empty, nobody owns a source, and the worker of every
source that was in the map is behind its loop unless the notice of another source with the
same path had removed it. It stays so until the next `register_and_start`. -/
theorem stop_clears {m₁ : SourceManager σ δ ε} (hm : (system σ δ ε).Reachable m)
    (hpc : m.stopPc = some .drain) (hstop : m.step .stop = some m₁)
    (hrun : Transition.run step m₁ as = some m') (has : ∀ a ∈ as, a.isRegister = false) :
    Emptied m' :=
  Transition.run_invariant_of (P := fun a => a.isRegister = false)
    (fun _ _ _ ha hi hs => hi.step hs ha) has hrun (emptied_of_stop hm hpc hstop)

/-- A second camera under the same path is refused, its notice removes the first, a third
one gets the path, and then the program stops. -/
def threeCameras : List (Action Nat Nat Nat) :=
  [.register "/camera" 5, .source 0 .poll, .advance 0 (.ok 7), .register "camera" 6,
    .source 1 .poll, .advance 1 (.ok 8), .source 1 (.waitForStop .stop), .source 1 .exit, .recv,
    .remove, .register "/camera" 9, .source 2 .poll, .advance 2 (.ok 7), .advance 2 (.ok 7),
    .advance 2 (.ok 7), .advance 2 (.ok 7), .advance 0 (.ok 7), .advance 0 (.ok 7),
    .advance 0 (.ok 7), .beginStop, .stop, .stop, .waitForStop .stop, .exit, .stop,
    .drain "/camera", .stop, .stop, .source 2 (.waitForStop .stop), .source 2 .exit,
    .source 2 .finish, .stop, .stop]

/-- The first camera leaves only now, and a late request finds nothing. -/
def afterCameras : List (Action Nat Nat Nat) :=
  [.subscribe "/camera", .source 0 (.waitForStop .stop), .source 0 .exit]

theorem stop_clears_threeCameras :
    ∃ m m₁ m', Transition.run step (start true []) threeCameras = some m ∧
      m.step .stop = some m₁ ∧ Transition.run step m₁ afterCameras = some m' ∧
      m'.registers.length = 3 ∧ Emptied m' := by
  obtain ⟨m, m₁, m', hm, hpc, hstop, hrun, hlength⟩ :
      ∃ m m₁ m' : SourceManager Nat Nat Nat,
        Transition.run step (start true []) threeCameras = some m ∧
        m.stopPc = some .drain ∧ m.step .stop = some m₁ ∧
        Transition.run step m₁ afterCameras = some m' ∧ m'.registers.length = 3 :=
    ⟨_, _, _, rfl, rfl, rfl, rfl, rfl⟩
  have has : ∀ a ∈ afterCameras, a.isRegister = false := by simp [afterCameras, Action.isRegister]
  exact ⟨m, m₁, m', hm, hstop, hrun, hlength,
    stop_clears ⟨_, threeCameras, ⟨_, _, rfl⟩, hm⟩ hpc hstop hrun has⟩

end SourceManager

-- SUMMARY: What a `register_and_start` call that is refused because its path is taken does to the source that has the path.
import AtomRust.Source.Catalog

/-!
# Refused registrations

`register_and_start` starts its source before it looks at the map. If the path is
taken, the call drops the source it has started, whose worker then leaves its loop
and reports so to the manager, by its path. The manager's worker takes that for the
end of the source in the map.
-/

open List (getElem?_append_of_some getElem?_set_of_some)
open Runtime (StopSource TaskState)

namespace SourceManager
variable {σ δ ε : Type} {m m' : SourceManager σ δ ε} {a : Action σ δ ε} {as : List (Action σ δ ε)}
  {path : SourcePath} {i j : Nat} {u v : RegisterCall σ δ ε} {description : Except (SdpError ε) δ}

/-- The steps that come from source `i`: its own, and the removal on its notice. -/
def CausedBy (m : SourceManager σ δ ε) (i : Nat) : Action σ δ ε → Prop
  | .source j _ => j = i
  | .remove => ∃ path, m.workerPc = .remove path i
  | _ => False

/-- The map, the cache and every call but call `i` are as they were. -/
structure Undisturbed (i : Nat) (m m' : SourceManager σ δ ε) : Prop where
  map : ∀ path, m'.sources.lookup path = m.sources.lookup path
  cache : m'.sourceDescriptionsCache = m.sourceDescriptionsCache
  others : ∀ j, j ≠ i → m'.registers[j]? = m.registers[j]?

/-- `register_and_start` call `i` leaves everything else alone as it is refused, and so
do all steps that its source causes, whenever they come. -/
structure Harmless (m m' : SourceManager σ δ ε) (i : Nat) : Prop where
  now : Undisturbed i m m'
  later : ∀ as m₁ a m₂, Transition.run step m' as = some m₁ → CausedBy m₁ i a →
    m₁.step a = some m₂ → Undisturbed i m₁ m₂

/-- The manager will not act on a notice of source `i`: its worker has left its loop,
the source's worker was never started, or the notice was acted on before. -/
def Spent (m : SourceManager σ δ ε) (i : Nat) (u : RegisterCall σ δ ε) : Prop :=
  m.workerPc.departed ∨ u.source.workerPc = .refused ∨
    u.source.workerPc.notified ∧ ∀ path, (path, i) ∉ m.flight

/-! ## Calls in progress -/

/-- The calls that have not returned: the source of a call that has not got to the map
has no delegates, and no `stop` call is in progress. -/
structure Pending (m : SourceManager σ δ ε) : Prop where
  path : ∀ (i : Nat) (u : RegisterCall σ δ ε), m.registers[i]? = some u →
    normalizePath u.source.path = u.source.path
  alone : ∀ (i : Nat) (u : RegisterCall σ δ ε), m.registers[i]? = some u → u.pc = .entry →
    u.source.delegates = [] ∧ ∀ path, m.sources.lookup path ≠ some i
  exclusive : ∀ (i : Nat) (u : RegisterCall σ δ ε), m.registers[i]? = some u → u.pc.active →
    m.stopPc = none

namespace Pending

theorem start (accepted : Bool) (stopAll : List Unit) :
    Pending (SourceManager.start accepted stopAll : SourceManager σ δ ε) := by
  constructor <;> simp [SourceManager.start]

/-- Only a call that gets to the map puts its source there. -/
theorem unmapped (heffect : Effect m m') (hv : m'.registers[i]? = some v) (hpc : v.pc = .entry)
    (h : ∀ path, m.sources.lookup path ≠ some i) (path : SourcePath) :
    m'.sources.lookup path ≠ some i := by
  have herase : ∀ path', (m.sources.erase path').lookup path ≠ some i := by
    intro path'
    by_cases hp : path = path'
    · subst hp
      simp [AList.lookup_erase]
    · rw [AList.lookup_erase_ne hp]
      exact h path
  cases heffect with
  | @registered j u _ hv' _ sources _ _ =>
      rw [sources]
      by_cases hp : path = u.source.path
      · subst hp
        rintro hj
        obtain rfl : j = i := by simpa using hj
        cases hv.symm.trans hv'
        cases hpc
      · rw [AList.lookup_insert_ne hp]
        exact h path
  | noticed _ _ _ _ sources | other sources => exact sources ▸ h path
  | removed _ sources | drained sources => exact sources ▸ herase _

theorem step (hcatalog : Catalog m) (hm : Pending m) (h : m.step a = some m') : Pending m' := by
  have hstep := stepped_of_step h
  refine ⟨fun i v hv => ?_, fun i v hv hpc => ?_, fun i v hv hactive => ?_⟩
  · rcases hstep.follows.new i v hv with ⟨u, hu⟩ | ⟨-, -, hfresh⟩
    · obtain ⟨w, hw, hevolves⟩ := hstep.follows.old i u hu
      obtain rfl : v = w := Option.some.inj (hv.symm.trans hw)
      rw [hevolves.source.path]
      exact hm.path i u hu
    · exact hfresh.path
  · rcases hstep.follows.new i v hv with ⟨u, hu⟩ | ⟨hi, -, hfresh⟩
    · obtain ⟨w, hw, hevolves⟩ := hstep.follows.old i u hu
      obtain rfl : v = w := Option.some.inj (hv.symm.trans hw)
      obtain ⟨hdelegates, hunmapped⟩ := hm.alone i u hu (hevolves.entry hpc)
      refine ⟨?_, unmapped hstep.effect hv hpc hunmapped⟩
      have hlength := hevolves.joined.resolve_right fun ⟨path, h⟩ => hunmapped path h
      exact List.length_eq_zero_iff.mp (hlength.trans (by simp [hdelegates]))
    · refine ⟨hfresh.delegates, unmapped hstep.effect hv hpc fun path h => ?_⟩
      obtain ⟨u, hu, -⟩ := hcatalog.mapped path i h
      simp [hi] at hu
  · rcases hstep.follows.new i v hv with ⟨u, hu⟩ | ⟨hi, hstop, -⟩
    · obtain ⟨w, hw, hevolves⟩ := hstep.follows.old i u hu
      obtain rfl : v = w := Option.some.inj (hv.symm.trans hw)
      rcases hstep.stop (hm.exclusive i u hu (hevolves.active hactive)) with h | ⟨hquiet, -⟩
      · exact h
      · have hnot := List.all_eq_true.mp hquiet u (List.mem_of_getElem? hu)
        simp [hevolves.active hactive] at hnot
    · rcases hstep.stop hstop with h | ⟨-, hsame⟩
      · exact h
      · simp [hsame, hi] at hv

end Pending

theorem pending_of_reachable (h : (system σ δ ε).Reachable m) : Pending m :=
  h.invariant (fun _ ⟨accepted, stopAll, hm⟩ => hm ▸ .start accepted stopAll)
    fun _ _ _ hm hi hs => hi.step (catalog_of_reachable hm) hs

/-! ## Sources with nothing left to say -/

theorem Spent.step (h : m.step a = some m') (hu : m.registers[i]? = some u) (hs : Spent m i u) :
    ∃ v, m'.registers[i]? = some v ∧ Spent m' i v := by
  have hstep := stepped_of_step h
  obtain ⟨v, hv, hevolves⟩ := hstep.follows.old i u hu
  refine ⟨v, hv, ?_⟩
  rcases hs with hover | hrefused | ⟨hnotified, hflight⟩
  · exact .inl (hstep.departed hover)
  · exact .inr (.inl (hevolves.source.refused hrefused))
  · refine .inr (.inr ⟨hevolves.source.notified hnotified, fun path hmem => hflight path ?_⟩)
    cases hstep.effect with
    | registered _ _ _ _ flight | drained _ flight | other _ flight => exact flight ▸ hmem
    | removed heq => exact heq ▸ List.mem_cons_of_mem _ hmem
    | @noticed j w _ hw _ before _ _ flight =>
        rw [flight] at hmem
        rcases List.mem_append.mp hmem with hmem | hmem
        · exact hmem
        · -- The notice is new, so it is another source's.
          cases List.mem_singleton.mp hmem
          obtain rfl : u = w := Option.some.inj (hu.symm.trans hw)
          simp [hnotified] at before

theorem Spent.undisturbed (hm : Catalog m) (hu : m.registers[i]? = some u) (hs : Spent m i u)
    (ha : CausedBy m i a) (h : m.step a = some m') : Undisturbed i m m' := by
  cases a with
  | source j b =>
      obtain rfl : j = i := ha
      obtain ⟨w, hw, h⟩ := Option.bind_eq_some_iff.mp h
      obtain ⟨s, -, rfl⟩ := Option.map_eq_some_iff.mp h
      refine ⟨fun _ => rfl, rfl, fun k hk => ?_⟩
      simp only [setSource]
      rw [getElem?_set_of_some hw, if_neg hk]
  | remove =>
      obtain ⟨path, hpc⟩ := ha
      have hmem : (path, i) ∈ m.flight := by simp [flight, hpc]
      obtain ⟨w, hw, -, hnotified⟩ := hm.flight path i hmem
      obtain rfl : u = w := Option.some.inj (hu.symm.trans hw)
      rcases hs with hover | hrefused | ⟨-, hflight⟩
      · simp [hpc, WorkerPc.departed] at hover
      · simp [hrefused, Source.WorkerPc.notified] at hnotified
      · exact absurd hmem (hflight path)
  | _ => cases ha

theorem Spent.later (hm : (system σ δ ε).Reachable m) (hu : m.registers[i]? = some u)
    (hs : Spent m i u) {m₁ m₂ : SourceManager σ δ ε}
    (h : Transition.run SourceManager.step m as = some m₁)
    (ha : CausedBy m₁ i a) (h₂ : m₁.step a = some m₂) : Undisturbed i m₁ m₂ := by
  obtain ⟨v, hv, hspent⟩ : ∃ v, m₁.registers[i]? = some v ∧ Spent m₁ i v :=
    Transition.run_invariant (I := fun m => ∃ v, m.registers[i]? = some v ∧ Spent m i v)
      (fun _ _ _ ⟨_, hu, hs⟩ h => Spent.step h hu hs) h ⟨u, hu, hs⟩
  exact Spent.undisturbed (catalog_of_reachable (hm.run h)) hv hspent ha h₂

/-! ## Sources that still have -/

/-- Source `i` takes a step. -/
theorem exists_step_source {b : Source.Action} {s : Source σ} (hu : m.registers[i]? = some u)
    (hs : u.source.step m.stopAll b = some s) :
    ∃ m', m.step (.source i b) = some m' ∧ m'.registers[i]? = some { u with source := s } ∧
      m'.workerPc = m.workerPc ∧ m'.stopPc = m.stopPc ∧
      (s.workerPc.notified → u.source.workerPc.notified = false →
        (u.source.path, i) ∈ m'.flight) := by
  refine ⟨{ m.setSource i u s with
    notices :=
      if s.workerPc.notified && !u.source.workerPc.notified then
        m.notices ++ [(u.source.path, i)]
      else m.notices }, ?_, ?_, rfl, rfl, fun hafter hbefore => ?_⟩
  · simp [SourceManager.step, onSource, hu, hs]
  · simp only [setSource]
    rw [getElem?_set_of_some hu, if_pos rfl]
  · unfold flight setSource
    cases m.workerPc <;> simp [hafter, hbefore]

/-- Source `i` can send its notice without the help of the manager. -/
def CanNotify (m : SourceManager σ δ ε) (path : SourcePath) (i : Nat) : Prop :=
  ∃ as m', Transition.run step m as = some m' ∧ (path, i) ∈ m'.flight ∧
    m'.workerPc = m.workerPc ∧ m'.stopPc = m.stopPc

theorem CanNotify.of_step (h : m.step a = some m') (hworker : m'.workerPc = m.workerPc)
    (hstop : m'.stopPc = m.stopPc) (hcan : CanNotify m' path i) : CanNotify m path i := by
  obtain ⟨as, m₂, hrun, hflight, hworker', hstop'⟩ := hcan
  exact ⟨a :: as, m₂, Transition.run_cons_eq_some.mpr ⟨m', h, hrun⟩, hflight,
    hworker'.trans hworker, hstop'.trans hstop⟩

theorem canNotify_of_left (hu : m.registers[i]? = some u) (hpc : u.source.workerPc = .left) :
    CanNotify m u.source.path i := by
  obtain ⟨m', h, -, hworker, hstop, hflight⟩ :=
    exists_step_source (b := .exit) (s := { u.source with workerPc := .ended }) hu
      (by simp [Source.step, Source.exit, hpc])
  exact ⟨[.source i .exit], m', by rw [Transition.run_singleton, h],
    hflight rfl (by simp [hpc, Source.WorkerPc.notified]), hworker, hstop⟩

theorem canNotify_of_select (hu : m.registers[i]? = some u) (hhandle : u.source.handle = false)
    (hpc : u.source.workerPc = .select) : CanNotify m u.source.path i := by
  obtain ⟨worker, hworker⟩ := Option.isSome_iff_exists.mp
    (TaskState.waitForStop_of_dropped u.source.worker m.stopAll)
  obtain ⟨m', h, hu', hworker', hstop', -⟩ :=
    exists_step_source (b := .waitForStop .stop)
      (s := { u.source with worker, workerPc := .left }) hu
      (by simp [Source.step, Source.waitForStop, hpc, hhandle, hworker])
  have hcan := canNotify_of_left hu' rfl
  exact hcan.of_step h hworker' hstop'

/-- The worker of a source that nobody has leaves its loop and says so. -/
theorem canNotify_of_dropped (hu : m.registers[i]? = some u) (hhandle : u.source.handle = false)
    (hrefused : u.source.workerPc ≠ .refused) (hnot : u.source.workerPc.notified = false) :
    CanNotify m u.source.path i := by
  cases hpc : u.source.workerPc with
  | refused => exact absurd hpc hrefused
  | ended | finished => simp [hpc, Source.WorkerPc.notified] at hnot
  | left => exact canNotify_of_left hu hpc
  | select => exact canNotify_of_select hu hhandle hpc
  | spawned =>
      obtain ⟨m', h, hu', hworker, hstop, -⟩ :=
        exists_step_source (b := .poll) (s := { u.source with workerPc := .select }) hu
          (by simp [Source.step, Source.poll, hpc])
      have hcan := canNotify_of_select hu' hhandle rfl
      exact hcan.of_step h hworker hstop

/-- The manager's worker takes the first notice in flight. -/
theorem exists_run_front {x : SourcePath × Nat} {rest : List (SourcePath × Nat)}
    (hover : m.workerPc.departed = false) (hflight : m.flight = x :: rest) :
    ∃ as m', Transition.run step m as = some m' ∧ m'.workerPc = .remove x.1 x.2 ∧
      m'.notices = rest ∧ m'.stopPc = m.stopPc := by
  unfold flight at hflight
  cases hpc : m.workerPc with
  | left | ended => simp [hpc, WorkerPc.departed] at hover
  | remove path i =>
      rw [hpc] at hflight
      cases hflight
      exact ⟨[], m, rfl, hpc, rfl, rfl⟩
  | select =>
      rw [hpc] at hflight
      refine ⟨[.recv], { m with workerPc := .remove x.1 x.2, notices := rest }, ?_, rfl, rfl, rfl⟩
      rw [Transition.run_singleton]
      simp only [step, recv, hpc, hflight]

/-- The manager's worker gets to every notice in flight. -/
theorem exists_run_remove {pre post : List (SourcePath × Nat)} (hover : m.workerPc.departed = false)
    (hflight : m.flight = pre ++ (path, i) :: post) :
    ∃ as m', Transition.run step m as = some m' ∧ m'.workerPc = .remove path i ∧
      m'.stopPc = m.stopPc := by
  induction pre generalizing m with
  | nil =>
      obtain ⟨as, m', hrun, hpc, -, hstop⟩ := exists_run_front hover hflight
      exact ⟨as, m', hrun, hpc, hstop⟩
  | cons x pre ih =>
      obtain ⟨as, m₁, hrun₁, hpc₁, hnotices₁, hstop₁⟩ := exists_run_front hover hflight
      obtain ⟨m₂, h₂, hpc₂, hnotices₂, hstop₂⟩ : ∃ m₂, m₁.step .remove = some m₂ ∧
          m₂.workerPc = .select ∧ m₂.notices = m₁.notices ∧ m₂.stopPc = m₁.stopPc := by
        simp [step, remove, hpc₁, note]
      obtain ⟨bs, m', hrun₂, hpc, hstop⟩ := ih (m := m₂) (by simp [hpc₂, WorkerPc.departed])
        (by simp [flight, hpc₂, hnotices₂, hnotices₁])
      exact ⟨as ++ .remove :: bs, m', Transition.run_append_eq_some.mpr
        ⟨m₁, hrun₁, Transition.run_cons_eq_some.mpr ⟨m₂, h₂, hrun₂⟩⟩, hpc,
        hstop.trans (hstop₂.trans hstop₁)⟩

/-- Somebody registers a source under the path, if there is none. -/
theorem exists_run_mapped (m : SourceManager σ δ ε) (streamInfo : σ) (hstop : m.stopPc = none)
    (hpath : normalizePath path = path) :
    ∃ as m', Transition.run step m as = some m' ∧ m'.workerPc = m.workerPc ∧
      m'.sources.lookup path ≠ none := by
  cases hlookup : m.sources.lookup path with
  | some j => exact ⟨[], m, rfl, rfl, by simp [hlookup]⟩
  | none =>
      let u : RegisterCall σ δ ε :=
        { source := .start (normalizePath path) streamInfo m.accepting m.stopAll, pc := .entry }
      have hu : (m.registerAndStart path streamInfo).registers[m.registers.length]? = some u := by
        simp [registerAndStart, u]
      have hpath' : u.source.path = path := by rw [← hpath, ← hpath]; rfl
      have hlookup' : (m.registerAndStart path streamInfo).sources.lookup u.source.path = none := by
        rw [hpath']
        exact hlookup
      refine ⟨[.register path streamInfo, .advance m.registers.length (.error .sdpNotReady)],
        (m.registerAndStart path streamInfo).entry m.registers.length u, ?_, ?_, ?_⟩
      · simp [Transition.run, step, hstop, hu, advance, u]
      · simp only [entry, hlookup']
        rfl
      · simp only [entry, hlookup', note]
        rw [hpath', AList.lookup_insert]
        exact Option.some_ne_none _

/-- Source `i` is not spent: its notice may empty the path. -/
theorem exists_removal (hm : (system σ δ ε).Reachable m) (hu : m.registers[i]? = some u)
    (hhandle : u.source.handle = false) (hstop : m.stopPc = none) (hspent : ¬ Spent m i u) :
    ∃ as m', Transition.run step m as = some m' ∧ m'.workerPc = .remove u.source.path i ∧
      m'.sources.lookup u.source.path ≠ none := by
  unfold Spent at hspent
  simp only [not_or, Bool.not_eq_true] at hspent
  obtain ⟨hover, hrefused, hflight⟩ := hspent
  have hnotify : CanNotify m u.source.path i := by
    cases hnot : u.source.workerPc.notified with
    | false => exact canNotify_of_dropped hu hhandle hrefused hnot
    | true =>
        obtain ⟨path, hmem⟩ : ∃ path, (path, i) ∈ m.flight := by simpa [hnot] using hflight
        obtain ⟨w, hw, rfl, -⟩ := (catalog_of_reachable hm).flight path i hmem
        obtain rfl : u = w := Option.some.inj (hu.symm.trans hw)
        exact ⟨[], m, rfl, hmem, rfl, rfl⟩
  obtain ⟨as, m₁, hrun₁, hmem, hworker₁, hstop₁⟩ := hnotify
  obtain ⟨pre, post, heq⟩ := List.append_of_mem hmem
  obtain ⟨bs, m₂, hrun₂, hpc₂, hstop₂⟩ := exists_run_remove (hworker₁ ▸ hover) heq
  have hpath := (pending_of_reachable hm).path i u hu
  obtain ⟨cs, m₃, hrun₃, hworker₃, hmapped⟩ := exists_run_mapped m₂ u.source.streamInfo
    (hstop₂.trans (hstop₁.trans hstop)) hpath
  exact ⟨as ++ (bs ++ cs), m₃, Transition.run_append_eq_some.mpr
    ⟨m₁, hrun₁, Transition.run_append_eq_some.mpr ⟨m₂, hrun₂, hrun₃⟩⟩, hworker₃.trans hpc₂,
    hmapped⟩

/-! ## The refused call -/

/-- What is left of a call that is refused. -/
def RegisterCall.refuse (u : RegisterCall σ δ ε) : RegisterCall σ δ ε where
  source := { u.source with owned := false }
  pc := .returned (.error .alreadyRegistered)

theorem entry_of_refused (hu : m.registers[i]? = some u)
    (h : m.step (.advance i description) = some m')
    (hret : m'.registers[i]?.map RegisterCall.pc = some (.returned (.error .alreadyRegistered))) :
    u.pc = .entry ∧ m' = { m with registers := m.registers.set i u.refuse } := by
  obtain ⟨w, hw, h⟩ := Option.bind_eq_some_iff.mp h
  obtain rfl : u = w := Option.some.inj (hu.symm.trans hw)
  have hpc : ∀ v : RegisterCall σ δ ε, (m.registers.set i v)[i]?.map RegisterCall.pc = some v.pc := by
    intro v
    rw [getElem?_set_of_some hu, if_pos rfl, Option.map_some]
  unfold advance at h
  split at h
  next hentry =>
    obtain rfl := Option.some.inj h
    cases hlookup : m.sources.lookup u.source.path with
    | none =>
        simp only [entry, hlookup, note] at hret
        rw [hpc] at hret
        cases hret
    | some j =>
        simp only [entry, hlookup]
        exact ⟨hentry, rfl⟩
  next =>
    obtain rfl := Option.some.inj h
    rw [hpc] at hret
    cases description <;> cases hret
  next =>
    obtain rfl := Option.some.inj h
    rw [hpc] at hret
    cases hret
  next =>
    obtain ⟨description, -, rfl⟩ := Option.map_eq_some_iff.mp h
    rw [hpc] at hret
    cases hret
  next => cases h

/-- A refused call is harmless exactly if its source has nothing left to say. -/
theorem refused_harmless_iff (hm : (system σ δ ε).Reachable m) (hu : m.registers[i]? = some u)
    (h : m.step (.advance i description) = some m')
    (hret : m'.registers[i]?.map RegisterCall.pc = some (.returned (.error .alreadyRegistered))) :
    Harmless m m' i ↔ Spent m i u := by
  have hm' : (system σ δ ε).Reachable m' := hm.step (a := .advance i description) h
  obtain ⟨hentry, hm'_eq⟩ := entry_of_refused hu h hret
  have hv : m'.registers[i]? = some u.refuse := by
    rw [hm'_eq]
    exact (getElem?_set_of_some hu i).trans (if_pos rfl)
  have hspent : Spent m' i u.refuse ↔ Spent m i u := by rw [hm'_eq]; rfl
  rw [← hspent]
  constructor
  · intro hharmless
    by_contra hnot
    obtain ⟨hdelegates, -⟩ := (pending_of_reachable hm).alone i u hu hentry
    have hhandle : u.refuse.source.handle = false := by
      simp [RegisterCall.refuse, Source.handle, hdelegates]
    have hstop : m'.stopPc = none := by
      rw [hm'_eq]
      exact (pending_of_reachable hm).exclusive i u hu (by rw [hentry]; rfl)
    obtain ⟨as, m₁, hrun, hpc, hmapped⟩ := exists_removal hm' hv hhandle hstop hnot
    obtain ⟨m₂, h₂, hsources⟩ : ∃ m₂, m₁.step .remove = some m₂ ∧
        m₂.sources = m₁.sources.erase u.refuse.source.path := by
      simp [step, remove, hpc, note]
    -- The manager's worker removes the source that has the path.
    have hmap := (hharmless.later as m₁ .remove m₂ hrun ⟨_, hpc⟩ h₂).map u.refuse.source.path
    rw [hsources, AList.lookup_erase] at hmap
    exact hmapped hmap.symm
  · intro hs
    refine ⟨⟨fun _ => by rw [hm'_eq], by rw [hm'_eq], fun k hk => ?_⟩,
      fun as m₁ a m₂ hrun ha h₂ => Spent.later hm' hv hs hrun ha h₂⟩
    rw [hm'_eq]
    exact (getElem?_set_of_some hu k).trans (if_neg hk)

/-- A camera is registered, and another one is started under the same path. -/
def samePath : List (Action Nat Nat Nat) :=
  [.register "/camera" 5, .source 0 .poll, .advance 0 (.ok 7), .register "camera" 6]

/-- The second call gets to the map. -/
def second : Action Nat Nat Nat := .advance 1 (.ok 8)

/-- The worker of the second source finds its `Task` dropped, and the manager's worker
takes its notice. -/
def farewell : List (Action Nat Nat Nat) :=
  [.source 1 .poll, .source 1 (.waitForStop .stop), .source 1 .exit, .recv]

theorem refused_harmless_iff_samePath :
    ∃ (m m' : SourceManager Nat Nat Nat) (u : RegisterCall Nat Nat Nat),
      Transition.run step (start true []) samePath = some m ∧ m.registers[1]? = some u ∧
      m.step second = some m' ∧ (Harmless m m' 1 ↔ Spent m 1 u) := by
  obtain ⟨m, m', u, hrun, hu, h, hret⟩ :
      ∃ (m m' : SourceManager Nat Nat Nat) (u : RegisterCall Nat Nat Nat),
        Transition.run step (start true []) samePath = some m ∧ m.registers[1]? = some u ∧
        m.step second = some m' ∧ m'.registers[1]?.map RegisterCall.pc =
          some (.returned (.error .alreadyRegistered)) := ⟨_, _, _, rfl, rfl, rfl, rfl⟩
  exact ⟨m, m', u, hrun, hu, h, refused_harmless_iff ⟨_, samePath, ⟨_, _, rfl⟩, hrun⟩ hu h hret⟩

/-- The second call is refused, and the first camera can no longer be set up, although
its worker is running. -/
theorem not_harmless_samePath :
    ∃ m m' : SourceManager Nat Nat Nat, (system Nat Nat Nat).Reachable m ∧
      m.subscribe "/camera" ≠ none ∧ m.step second = some m' ∧
      m'.registers[1]?.map RegisterCall.pc = some (.returned (.error .alreadyRegistered)) ∧
      ¬ Harmless m m' 1 ∧
      ∃ m₁ m₂, Transition.run step m' farewell = some m₁ ∧ m₁.step .remove = some m₂ ∧
        m₂.subscribe "/camera" = none ∧
        m₂.registers[0]?.map (fun u => u.source.workerPc) = some .select := by
  obtain ⟨m, m', m₁, m₂, hrun, hsub, h, hret, h₁, h₂, hpc, hj₁, hj₂, hgone, hrunning⟩ :
      ∃ m m' m₁ m₂ : SourceManager Nat Nat Nat,
        Transition.run step (start true []) samePath = some m ∧
        (m.subscribe "/camera").isSome ∧ m.step second = some m' ∧
        m'.registers[1]?.map RegisterCall.pc = some (.returned (.error .alreadyRegistered)) ∧
        Transition.run step m' farewell = some m₁ ∧ m₁.step .remove = some m₂ ∧
        m₁.workerPc = .remove "/camera" 1 ∧ m₁.sources.lookup "/camera" = some 0 ∧
        m₂.sources.lookup "/camera" = none ∧ m₂.subscribe "/camera" = none ∧
        m₂.registers[0]?.map (fun u => u.source.workerPc) = some .select :=
    ⟨_, _, _, _, rfl, rfl, rfl, rfl, rfl, rfl, rfl, rfl, rfl, rfl, rfl⟩
  refine ⟨m, m', ⟨_, samePath, ⟨_, _, rfl⟩, hrun⟩, Option.isSome_iff_ne_none.mp hsub, h, hret,
    fun hharmless => ?_, m₁, m₂, h₁, h₂, hgone, hrunning⟩
  have hmap := (hharmless.later farewell m₁ .remove m₂ h₁ ⟨_, hpc⟩ h₂).map "/camera"
  rw [hj₁, hj₂] at hmap
  cases hmap

end SourceManager

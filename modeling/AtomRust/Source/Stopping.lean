-- SUMMARY: `SourceManager::stop` always gets to its end, without the help of a client or of the runtime.
import AtomRust.Base.Progress
import AtomRust.Source.Closing

/-!
# Stopping the sources gets to its end

The stages are those of the session manager. Here a round of the loop stops the worker of
a source itself, and nobody else ever does.
-/

open Runtime (Stopper StopSource TaskState)
open Transition (Leads)
open List (getElem?_set_of_some)

namespace SourceManager
variable {σ δ ε : Type} {m m' : SourceManager σ δ ε} {a : Action σ δ ε} {path : SourcePath}
  {i : Nat} {u : RegisterCall σ δ ε} {pc : StopPc}

/-- The steps of `stop`. -/
def Action.stops : Action σ δ ε → Bool
  | .beginStop | .stop | .drain _ => true
  | _ => false

/-- Nobody else moves `stop` on. -/
theorem stopPc_of_step (h : m.step a = some m') (ha : a.stops = false) : m'.stopPc = m.stopPc := by
  cases a with
  | register path streamInfo =>
      obtain ⟨-, h⟩ := Option.ite_none_right_eq_some.mp h
      cases h
      rfl
  | advance i description =>
      obtain ⟨u, -, h⟩ := Option.bind_eq_some_iff.mp h
      unfold advance at h
      split at h
      · cases h
        unfold entry
        split <;> rfl
      · cases h
        rfl
      · cases h
        rfl
      · obtain ⟨_, -, rfl⟩ := Option.map_eq_some_iff.mp h
        rfl
      · cases h
  | subscribe path =>
      obtain ⟨-, h⟩ := Option.ite_none_right_eq_some.mp h
      cases h
      cases hsub : m.subscribe path with
      | none => rfl
      | some m' =>
          obtain ⟨i, -, hsub⟩ := Option.bind_eq_some_iff.mp hsub
          obtain ⟨u, -, rfl⟩ := Option.map_eq_some_iff.mp hsub
          rfl
  | source i b =>
      obtain ⟨u, -, h⟩ := Option.bind_eq_some_iff.mp h
      obtain ⟨s, -, rfl⟩ := Option.map_eq_some_iff.mp h
      rfl
  | recv =>
      simp only [step, recv] at h
      split at h <;> cases h
      rfl
  | remove =>
      simp only [step, remove] at h
      split at h <;> cases h
      simp [note]
  | waitForStop src =>
      obtain ⟨-, h⟩ := Option.ite_none_right_eq_some.mp h
      obtain ⟨worker, -, rfl⟩ := Option.map_eq_some_iff.mp h
      rfl
  | exit =>
      obtain ⟨-, h⟩ := Option.ite_none_right_eq_some.mp h
      cases h
      rfl
  | refuse | stopAll =>
      cases h
      rfl
  | beginStop | stop | drain => cases ha

/-- `stop` goes on with the same source until the round is over. -/
theorem rounds_of_stopStep {pc' : StopPc} (h : m.stopStep pc = some m')
    (hpc' : m'.stopPc = some pc') (hrounds : pc'.rounds i) : pc.rounds i := by
  cases pc with
  | stop =>
      obtain ⟨worker, -, rfl⟩ := Option.map_eq_some_iff.mp h
      cases hpc'
      cases hrounds
  | takeHold =>
      cases h
      cases hpc'
      split at hrounds <;> cases hrounds
  | wait | drain =>
      obtain ⟨-, h⟩ := Option.ite_none_right_eq_some.mp h
      cases h
      cases hpc'
      try cases hrounds
  | stopSource j =>
      obtain ⟨u, -, h⟩ := Option.bind_eq_some_iff.mp h
      obtain ⟨worker, -, rfl⟩ := Option.map_eq_some_iff.mp h
      cases hpc'
      exact hrounds
  | sourceTakeHold j =>
      obtain ⟨u, -, rfl⟩ := Option.map_eq_some_iff.mp h
      cases hpc'
      split at hrounds <;> exact hrounds
  | sourceWait j =>
      obtain ⟨u, -, h⟩ := Option.bind_eq_some_iff.mp h
      obtain ⟨-, h⟩ := Option.ite_none_right_eq_some.mp h
      cases h
      cases hpc'
      exact hrounds
  | stopped j =>
      cases h
      cases hpc'
      cases hrounds

/-- The source that `stop` is about is there. -/
theorem present_of_reachable (h : (system σ δ ε).Reachable m) (hpc : m.stopPc = some pc)
    (hrounds : pc.rounds i) : ∃ u, m.registers[i]? = some u := by
  refine h.invariant (I := fun m => ∀ pc i, m.stopPc = some pc → pc.rounds i →
    ∃ u, m.registers[i]? = some u) ?_ ?_ pc i hpc hrounds
  · rintro _ ⟨accepted, stopAll, rfl⟩ pc i hpc
    cases hpc
  · intro m a m' hm hi hs pc i hpc hrounds
    have hold : ∀ u, m.registers[i]? = some u → ∃ v, m'.registers[i]? = some v := fun u hu => by
      obtain ⟨v, hv, -⟩ := (stepped_of_step hs).follows.old i u hu
      exact ⟨v, hv⟩
    cases hstops : a.stops with
    | false =>
        obtain ⟨u, hu⟩ := hi pc i ((stopPc_of_step hs hstops).symm.trans hpc) hrounds
        exact hold u hu
    | true =>
        cases a with
        | beginStop =>
            obtain ⟨-, hs⟩ := Option.ite_none_right_eq_some.mp hs
            cases hs
            cases hpc
            cases hrounds
        | stop =>
            obtain ⟨pc₀, hpc₀, hs⟩ := Option.bind_eq_some_iff.mp hs
            obtain ⟨u, hu⟩ := hi pc₀ i hpc₀ (rounds_of_stopStep hs hpc hrounds)
            exact hold u hu
        | drain path =>
            obtain ⟨-, hs⟩ := Option.ite_none_right_eq_some.mp hs
            obtain ⟨j, hj, rfl⟩ := Option.map_eq_some_iff.mp hs
            cases hpc
            obtain rfl : j = i := by simpa [StopPc.rounds] using hrounds
            obtain ⟨u, hu, -⟩ := (catalog_of_reachable hm).mapped path j hj
            exact ⟨u, hu⟩
        | _ => cases hstops

/-! ## The call -/

/-- The steps of `stop` and of the workers: no request of a client, no query and no signal
of the runtime is among them. -/
def Action.unaided : Action σ δ ε → Bool
  | .source _ .poll | .source _ (.waitForStop .stop) | .source _ .exit | .source _ .finish => true
  | .remove | .waitForStop .stop | .exit | .stop | .drain _ => true
  | _ => false

/-- `stop` gets to its end by itself, and leaves nothing. -/
def Returns : SourceManager σ δ ε → Prop :=
  Leads step (fun a => a.unaided) fun t => t.stopPc = none ∧ Emptied t

/-- The manager's own worker, which `stop` waits for, drops its context. -/
def Ends : SourceManager σ δ ε → Prop :=
  Leads step (fun a => a.unaided) fun t =>
    (system σ δ ε).Reachable t ∧ t.stopPc = some .wait ∧ t.workerPc = .ended

/-- The round of the loop ends, and leaves the map alone. -/
def Rounds (sources : AList fun _ : SourcePath => Nat) : SourceManager σ δ ε → Prop :=
  Leads step (fun a => a.unaided) fun t =>
    (system σ δ ε).Reachable t ∧ t.stopPc = some .drain ∧ t.sources = sources

namespace Ends

theorem of_left (hm : (system σ δ ε).Reachable m) (hstop : m.stopPc = some .wait)
    (hpc : m.workerPc = .left) : Ends m := by
  have hexit : m.step .exit = some { m with worker := m.worker.dropContext, workerPc := .ended } :=
    if_pos hpc
  exact .cons rfl hexit (.refl ⟨hm.step (a := .exit) hexit, hstop, rfl⟩)

/-- The worker has been asked to stop. -/
theorem of_select (hm : (system σ δ ε).Reachable m) (hstop : m.stopPc = some .wait)
    (hpc : m.workerPc = .select) : Ends m := by
  have hserved := (attended_of_reachable hm).served
  have hlooping : m.looping = true := by rw [looping, hpc]
  rw [hstop, hlooping] at hserved
  obtain ⟨worker, hworker⟩ := Option.isSome_iff_exists.mp (hserved.hears (by simp [stopper]))
  have hwait : m.step (.waitForStop .stop) = some { m with worker, workerPc := .left } := by
    rw [step, waitForStop, if_pos hpc, hworker, Option.map_some]
  have hm' : (system σ δ ε).Reachable { m with worker, workerPc := .left } :=
    hm.step (a := .waitForStop .stop) hwait
  exact .cons rfl hwait (of_left hm' hstop rfl)

theorem of_wait (hm : (system σ δ ε).Reachable m) (hstop : m.stopPc = some .wait) : Ends m := by
  cases hpc : m.workerPc with
  | ended => exact .refl ⟨hm, hstop, hpc⟩
  | left => exact of_left hm hstop hpc
  | select => exact of_select hm hstop hpc
  | remove path j =>
      obtain ⟨m', hremove, hpc', hstop'⟩ : ∃ m', m.step .remove = some m' ∧
          m'.workerPc = .select ∧ m'.stopPc = m.stopPc := by
        simp [step, remove, hpc, note]
      exact .cons rfl hremove
        (of_select (hm.step (a := .remove) hremove) (hstop'.trans hstop) hpc')

end Ends

namespace Rounds
variable {sources : AList fun _ : SourcePath => Nat}

theorem of_stopped (hm : (system σ δ ε).Reachable m) (hpc : m.stopPc = some (.stopped i)) :
    Rounds m.sources m := by
  have hstep : m.step .stop = some { m.disown (some i) with stopPc := some .drain } := by
    rw [step, hpc]
    rfl
  exact .cons rfl hstep (.refl ⟨hm.step (a := .stop) hstep, rfl, disown_sources m _⟩)

/-- The worker of the source takes a step. -/
theorem of_source {b : Source.Action} {s : Source σ} (hm : (system σ δ ε).Reachable m)
    (hpc : m.stopPc = some (.sourceWait i)) (hu : m.registers[i]? = some u)
    (hs : u.source.step m.stopAll b = some s) (ha : Action.unaided (.source i b : Action σ δ ε))
    (h : ∀ t : SourceManager σ δ ε, (system σ δ ε).Reachable t →
      t.stopPc = some (.sourceWait i) → t.registers[i]? = some { u with source := s } →
      Rounds t.sources t) : Rounds m.sources m := by
  obtain ⟨t, ht, hstop, hregisters, hsources⟩ : ∃ t, m.step (.source i b) = some t ∧
      t.stopPc = m.stopPc ∧ t.registers = m.registers.set i { u with source := s } ∧
      t.sources = m.sources := by
    simp [step, onSource, hu, hs, setSource]
  have hv : t.registers[i]? = some { u with source := s } := by
    rw [hregisters, getElem?_set_of_some hu, if_pos rfl]
  have hrounds := h t (hm.step (a := .source i b) ht) (hstop.trans hpc) hv
  exact .cons ha ht (hsources ▸ hrounds)

/-- The context is dropped. -/
theorem of_released (hm : (system σ δ ε).Reachable m) (hpc : m.stopPc = some (.sourceWait i))
    (hu : m.registers[i]? = some u) (hdone : u.source.workerPc.alive = false) :
    Rounds m.sources m := by
  have hcontext := ((attended_of_reachable hm).sources i u hu).served.context.trans hdone
  have hstep : m.step .stop = some { m with stopPc := some (.stopped i) } := by
    simp [step, hpc, stopStep, hu, TaskState.released, hcontext]
  exact .cons rfl hstep (of_stopped (hm.step (a := .stop) hstep) rfl)

theorem of_ended (hm : (system σ δ ε).Reachable m) (hpc : m.stopPc = some (.sourceWait i))
    (hu : m.registers[i]? = some u) (hended : u.source.workerPc = .ended) : Rounds m.sources m := by
  apply of_source hm hpc hu (b := .finish) (if_pos hended) rfl
  intro t ht hstop hv
  exact of_released ht hstop hv rfl

theorem of_left (hm : (system σ δ ε).Reachable m) (hpc : m.stopPc = some (.sourceWait i))
    (hu : m.registers[i]? = some u) (hleft : u.source.workerPc = .left) : Rounds m.sources m := by
  apply of_source hm hpc hu (b := .exit) (if_pos hleft) rfl
  intro t ht hstop hv
  exact of_ended ht hstop hv rfl

/-- The worker of the source has been asked to stop. -/
theorem of_select (hm : (system σ δ ε).Reachable m) (hpc : m.stopPc = some (.sourceWait i))
    (hu : m.registers[i]? = some u) (hselect : u.source.workerPc = .select) :
    Rounds m.sources m := by
  have htask := ((attended_of_reachable hm).sources i u hu).served.task
  have hcaller : sourceStopper m.stopPc i = .wait := by simp [hpc, sourceStopper]
  rw [hcaller, hselect] at htask
  have hheard : (u.source.worker.waitForStop u.source.handle m.stopAll .stop).isSome :=
    htask.hears (by simp)
  obtain ⟨worker, hworker⟩ := Option.isSome_iff_exists.mp hheard
  have hwait : u.source.step m.stopAll (.waitForStop .stop) =
      some { u.source with worker, workerPc := .left } := by
    rw [Source.step, Source.waitForStop, if_pos hselect, hworker, Option.map_some]
  apply of_source hm hpc hu hwait rfl
  intro t ht hstop hv
  exact of_left ht hstop hv rfl

theorem of_sourceWait (hm : (system σ δ ε).Reachable m) (hpc : m.stopPc = some (.sourceWait i))
    (hu : m.registers[i]? = some u) : Rounds m.sources m := by
  cases hworker : u.source.workerPc with
  | refused | finished => exact of_released hm hpc hu (by rw [hworker]; rfl)
  | ended => exact of_ended hm hpc hu hworker
  | left => exact of_left hm hpc hu hworker
  | select => exact of_select hm hpc hu hworker
  | spawned =>
      apply of_source hm hpc hu (b := .poll) (if_pos hworker) rfl
      intro t ht hstop hv
      exact of_select ht hstop hv rfl

/-- `stop` takes a step of the round. -/
theorem of_stopStep (hm : (system σ δ ε).Reachable m) (hpc : m.stopPc = some pc)
    (hs : m.stopStep pc = some m') (hsources : m'.sources = m.sources)
    (h : (system σ δ ε).Reachable m' → Rounds m'.sources m') : Rounds m.sources m := by
  have hstep : m.step .stop = some m' := by rw [step, hpc, Option.bind_some, hs]
  exact .cons rfl hstep (hsources ▸ h (hm.step (a := .stop) hstep))

theorem of_sourceTakeHold (hm : (system σ δ ε).Reachable m)
    (hpc : m.stopPc = some (.sourceTakeHold i)) (hu : m.registers[i]? = some u) :
    Rounds m.sources m := by
  let s := { u.source with worker := u.source.worker.takeHold }
  have hs : ∀ next, (if u.source.worker.hold then StopPc.sourceWait i else .stopped i) = next →
      m.stopStep (.sourceTakeHold i) = some { m.setSource i u s with stopPc := some next } := by
    rintro _ rfl
    rw [stopStep, hu]
    rfl
  have hv : (m.registers.set i { u with source := s })[i]? = some { u with source := s } := by
    rw [getElem?_set_of_some hu, if_pos rfl]
  cases hhold : u.source.worker.hold with
  | true =>
      have hwait := hs (.sourceWait i) (by simp [hhold])
      exact of_stopStep hm hpc hwait rfl fun hm' => of_sourceWait hm' rfl hv
  | false =>
      have hstopped := hs (.stopped i) (by simp [hhold])
      exact of_stopStep hm hpc hstopped rfl fun hm' => of_stopped hm' rfl

theorem of_stopSource (hm : (system σ δ ε).Reachable m) (hpc : m.stopPc = some (.stopSource i))
    (hu : m.registers[i]? = some u) : Rounds m.sources m := by
  have htask := ((attended_of_reachable hm).sources i u hu).served.task
  have hcaller : sourceStopper m.stopPc i = .away := by simp [hpc, sourceStopper]
  rw [hcaller] at htask
  obtain ⟨worker, hworker⟩ := Option.isSome_iff_exists.mp htask.sendStop_isSome
  let s := { u.source with worker }
  have hs : m.stopStep (.stopSource i) =
      some { m.setSource i u s with stopPc := some (.sourceTakeHold i) } := by
    simp [stopStep, hu, hworker, s]
  have hv : (m.registers.set i { u with source := s })[i]? = some { u with source := s } := by
    rw [getElem?_set_of_some hu, if_pos rfl]
  exact of_stopStep hm hpc hs rfl fun hm' => of_sourceTakeHold hm' rfl hv

/-- However far the round has got. -/
theorem of_rounds (hm : (system σ δ ε).Reachable m) (hpc : m.stopPc = some pc)
    (hrounds : pc.rounds i) : Rounds m.sources m := by
  obtain ⟨u, hu⟩ := present_of_reachable hm hpc hrounds
  have hi : ∀ j, decide (j = i) = true → j = i := fun j hj => by simpa using hj
  cases pc with
  | stopSource j =>
      obtain rfl := hi j hrounds
      exact of_stopSource hm hpc hu
  | sourceTakeHold j =>
      obtain rfl := hi j hrounds
      exact of_sourceTakeHold hm hpc hu
  | sourceWait j =>
      obtain rfl := hi j hrounds
      exact of_sourceWait hm hpc hu
  | stopped j => exact of_stopped hm hpc
  | stop | takeHold | wait | drain => cases hrounds

end Rounds

namespace Returns

/-- The loop takes the sources out of the map, one by one. -/
theorem of_drain (hm : (system σ δ ε).Reachable m) (hpc : m.stopPc = some .drain) : Returns m := by
  refine Leads.of_measure (Q := fun t => (system σ δ ε).Reachable t ∧ t.stopPc = some .drain)
    (fun t => t.sources.keys.length) ?_ ⟨hm, hpc⟩
  rintro t ⟨ht, hstop⟩
  cases hentries : t.sources.entries with
  | nil =>
      have hstep : t.step .stop = some { t with stopPc := none } := by
        simp [step, hstop, stopStep, hentries]
      exact .cons rfl hstep (.refl (.inl ⟨rfl, emptied_of_stop ht hstop hstep⟩))
  | cons entry rest =>
      obtain ⟨path, i⟩ := entry
      have hlookup : t.sources.lookup path = some i := by simp [AList.lookup, hentries]
      have hmem : path ∈ t.sources.keys := by simp [AList.keys, hentries]
      obtain ⟨t', hstep, hstop', hsources⟩ : ∃ t', t.step (.drain path) = some t' ∧
          t'.stopPc = some (.stopSource i) ∧ t'.sources = t.sources.erase path := by
        simp [step, hstop, drain, hlookup, note]
      have ht' : (system σ δ ε).Reachable t' := ht.step (a := .drain path) hstep
      have hrounds := Rounds.of_rounds (i := i) ht' hstop' (by simp [StopPc.rounds])
      refine .cons rfl hstep (hrounds.mono ?_)
      rintro t'' ⟨ht'', hdrained, hsame⟩
      refine .inr ⟨⟨ht'', hdrained⟩, ?_⟩
      rw [hsame, hsources, AList.keys_erase, List.length_erase_of_mem hmem]
      exact Nat.sub_lt (List.length_pos_of_mem hmem) Nat.one_pos

theorem of_rounds (hm : (system σ δ ε).Reachable m) (hpc : m.stopPc = some pc)
    (hrounds : pc.rounds i) : Returns m :=
  (Rounds.of_rounds hm hpc hrounds).trans fun _ ⟨ht, hstop, _⟩ => of_drain ht hstop

theorem of_wait (hm : (system σ δ ε).Reachable m) (hpc : m.stopPc = some .wait) : Returns m := by
  refine (Ends.of_wait hm hpc).trans fun t ⟨ht, hstop, hended⟩ => ?_
  have hcontext := (attended_of_reachable ht).ended.mp hended
  have hstep : t.step .stop = some { t with stopPc := some .drain } := by
    simp [step, hstop, stopStep, TaskState.released, hcontext]
  exact .cons rfl hstep (of_drain (ht.step (a := .stop) hstep) rfl)

theorem of_takeHold (hm : (system σ δ ε).Reachable m) (hpc : m.stopPc = some .takeHold) :
    Returns m := by
  have hstep : ∀ next, (if m.worker.hold then StopPc.wait else .drain) = next →
      m.step .stop = some { m with worker := m.worker.takeHold, stopPc := some next } := by
    rintro _ rfl
    rw [step, hpc]
    rfl
  cases hhold : m.worker.hold with
  | true =>
      have hwait := hstep .wait (by simp [hhold])
      exact .cons rfl hwait (of_wait (hm.step (a := .stop) hwait) rfl)
  | false =>
      have hdrain := hstep .drain (by simp [hhold])
      exact .cons rfl hdrain (of_drain (hm.step (a := .stop) hdrain) rfl)

theorem of_stop (hm : (system σ δ ε).Reachable m) (hpc : m.stopPc = some .stop) : Returns m := by
  have hserved := (attended_of_reachable hm).served
  rw [hpc] at hserved
  obtain ⟨worker, hworker⟩ := Option.isSome_iff_exists.mp hserved.sendStop_isSome
  have hstep : m.step .stop = some { m with worker, stopPc := some .takeHold } := by
    simp [step, hpc, stopStep, hworker]
  exact .cons rfl hstep (of_takeHold (hm.step (a := .stop) hstep) rfl)

theorem of_pc (hm : (system σ δ ε).Reachable m) (hpc : m.stopPc = some pc) : Returns m := by
  cases pc with
  | stop => exact of_stop hm hpc
  | takeHold => exact of_takeHold hm hpc
  | wait => exact of_wait hm hpc
  | drain => exact of_drain hm hpc
  | stopSource i | sourceTakeHold i | sourceWait i | stopped i =>
      exact of_rounds (i := i) hm hpc (by simp [StopPc.rounds])

end Returns

/-- However far `stop` has got, and whatever the workers and the delegates were doing, it can
return without any help, and then there is nothing left. -/
theorem stop_completes (hm : (system σ δ ε).Reachable m) (hpc : m.stopPc = some pc) :
    Returns m :=
  .of_pc hm hpc

/-- `stop` begins with one source in its loop, and with two that were replaced or refused. -/
theorem stop_completes_threeCameras :
    ∃ m, Transition.run step (start true []) (threeCameras.take 20) = some m ∧
      m.registers.length = 3 ∧ Returns m := by
  obtain ⟨m, hm, hpc, hlength⟩ : ∃ m : SourceManager Nat Nat Nat,
      Transition.run step (start true []) (threeCameras.take 20) = some m ∧
        m.stopPc = some .stop ∧ m.registers.length = 3 := ⟨_, rfl, rfl, rfl⟩
  exact ⟨m, hm, hlength, stop_completes ⟨_, threeCameras.take 20, ⟨_, _, rfl⟩, hm⟩ hpc⟩

end SourceManager

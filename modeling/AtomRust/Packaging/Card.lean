-- SUMMARY: What is on the card in read-write and in read-only mode, and on the way from one to the other.
import AtomRust.Base.Interrupted
import AtomRust.Packaging.Attempts
import AtomRust.Packaging.FstabEdit
import AtomRust.Packaging.Removal

/-!
# What is on the card

In read-write mode the card is as it was before the first command, and in read-only mode
it has all that `do_ro` configures. On the way back `do_rw` edits `cmdline.txt` last, so
that wherever it stops, by a statement that fails under `set -e` or by a loss of power,
the next `do_rw` can start again with what is left of the record.
-/

open Interrupted (Throughout throughout_append throughout_cons throughout_nil
  throughout_of_invariant)

namespace Overlay
variable {m m₀ : Machine} {r r₀ : Root} {answers : Timer → Bool}

/-! ## The root filesystem -/

/-- Read-write mode: the card is as it was. -/
structure Root.ReadWrite (r₀ r : Root) : Prop where
  rpi : r.rpi = r₀.rpi
  journald : r.journald = false
  swap : r.swap = false
  disabled : r.disabled = none
  enabled : r.enabled = r₀.enabled
  fstab : r.fstab.map Fstab.fields = r₀.fstab.map Fstab.fields

/-- Read-only mode: all is configured, and the record is that of the timers to enable. -/
structure Root.ReadOnly (r₀ r : Root) : Prop where
  rpi : r.rpi = r₀.rpi
  journald : r.journald = true
  swap : r.swap = r₀.rpi
  disabled : r.disabled = some (timers.filter r₀.enabled)
  enabled : ∀ t, r.enabled t = false
  fstab : r.fstab.map Fstab.fields = (Fstab.bootOpt .ro r₀.fstab).map Fstab.fields

/-- What a `do_rw` that was cut short may leave. A timer is enabled that was, or stands in
the record. -/
structure Root.Undoing (r₀ r : Root) : Prop where
  rpi : r.rpi = r₀.rpi
  timers : r.disabled = none ∧ r.enabled = r₀.enabled ∨
    r.disabled = some (timers.filter r₀.enabled) ∧ ∀ t, r.enabled t → r₀.enabled t
  fstab : r.fstab.map Fstab.fields = r₀.fstab.map Fstab.fields ∨
    r.fstab.map Fstab.fields = (Fstab.bootOpt .ro r₀.fstab).map Fstab.fields

theorem Root.ReadWrite.undoing (h : r₀.ReadWrite r) : r₀.Undoing r where
  rpi := h.rpi
  timers := .inl ⟨h.disabled, h.enabled⟩
  fstab := .inl h.fstab

theorem Root.ReadOnly.undoing (h : r₀.ReadOnly r) : r₀.Undoing r where
  rpi := h.rpi
  timers := .inr ⟨h.disabled, fun t ht => by simp [h.enabled] at ht⟩
  fstab := .inr h.fstab

/-- A card on which `fstab_boot_opt` can be undone. -/
def Root.Editable (r₀ : Root) : Prop :=
  ∀ line ∈ r₀.fstab, Fstab.isBootLine (Fstab.fields line) →
    4 ≤ (Fstab.fields line).length ∧
      Fstab.roOption ∉ (Fstab.optionField (Fstab.fields line)).splitOn ',' ∧
      (Fstab.optionField (Fstab.fields line)).head? ≠ some ','

/-- The edit of `do_ro` depends on the fields alone. -/
theorem map_fields_ro (h : r.fstab.map Fstab.fields = r₀.fstab.map Fstab.fields) :
    (Fstab.bootOpt .ro r.fstab).map Fstab.fields =
      (Fstab.bootOpt .ro r₀.fstab).map Fstab.fields := by
  rw [Fstab.map_fields_bootOpt, Fstab.map_fields_bootOpt, h]

/-- The edit of `do_rw` gives the fields back, whether `do_ro` has edited the file or not. -/
theorem map_fields_rw (hedit : r₀.Editable) (h : r₀.Undoing r) :
    (Fstab.bootOpt .rw r.fstab).map Fstab.fields = r₀.fstab.map Fstab.fields := by
  rw [Fstab.map_fields_bootOpt]
  rcases h.fstab with h | h
  · rw [h, ← Fstab.map_fields_bootOpt, Fstab.bootOpt, List.map_map]
    apply List.map_congr_left
    intro line hline
    cases hboot : Fstab.isBootLine (Fstab.fields line) with
    | true =>
        obtain ⟨hlength, hro, hcomma⟩ := hedit line hline hboot
        exact Fstab.fields_rw hboot hlength hro hcomma
    | false => rw [Function.comp_apply, Fstab.editLine_of_not_boot hboot]
  · rw [h, ← Fstab.map_fields_bootOpt]
    apply (Fstab.map_fields_rw_ro_eq_iff fun line hline hboot => (hedit line hline hboot).1).mpr
    exact fun line hline hboot => (hedit line hline hboot).2

/-! ## `do_ro` -/

/-- The statements that leave the fstab alone. -/
def Stmt.keepsFstab : Stmt → Bool
  | .fstabBootOpt _ => false
  | _ => true

theorem Stmt.exec_rpi (stmt : Stmt) (m : Machine) : (stmt.exec m).root.rpi = m.root.rpi := by
  cases stmt with
  | cmdlineAdd | cmdlineDel => exact congrArg Root.rpi (exec_root_edit m _)
  | _ => rfl

theorem Stmt.exec_fstab {stmt : Stmt} (h : stmt.keepsFstab) (m : Machine) :
    (stmt.exec m).root.fstab = m.root.fstab := by
  cases stmt with
  | fstabBootOpt => cases h
  | cmdlineAdd | cmdlineDel => exact congrArg Root.fstab (exec_root_edit m _)
  | _ => rfl

/-- What each statement keeps, the list keeps. -/
theorem exec_keeps {β : Type} {f : Machine → β} {stmts : List Stmt}
    (h : ∀ stmt ∈ stmts, ∀ m, f (stmt.exec m) = f m) (m : Machine) :
    f (exec m stmts) = f m := by
  induction stmts generalizing m with
  | nil => rfl
  | cons stmt stmts ih =>
      have htail := ih (fun s hs => h s (List.mem_cons_of_mem _ hs)) (stmt.exec m)
      exact htail.trans (h stmt List.mem_cons_self m)

theorem exec_rpi (stmts : List Stmt) (m : Machine) : (exec m stmts).root.rpi = m.root.rpi :=
  exec_keeps (f := fun m => m.root.rpi) (fun stmt _ => stmt.exec_rpi) m

theorem exec_fstab {stmts : List Stmt} (h : ∀ stmt ∈ stmts, stmt.keepsFstab) (m : Machine) :
    (exec m stmts).root.fstab = m.root.fstab :=
  exec_keeps (f := fun m => m.root.fstab) (fun stmt hs => Stmt.exec_fstab (h stmt hs)) m

theorem disableTimers_keepsFstab (m : Machine) : ∀ stmt ∈ disableTimers m, stmt.keepsFstab := by
  intro stmt hstmt
  obtain ⟨t, -, ht⟩ := List.mem_flatMap.mp hstmt
  simp only [List.mem_cons, List.not_mem_nil, or_false] at ht
  obtain rfl | rfl := ht <;> rfl

theorem exec_configure_fstab (m : Machine) :
    (exec m (configure m)).root.fstab = Fstab.bootOpt .ro m.root.fstab := by
  have hkeeps : ∀ stmt ∈ [.call .ensureInitramfs, .call .mkdir, .writeJournald] ++
      (if m.root.rpi then [.call .mkdir, .writeSwap] else []) ++ .clearState :: disableTimers m,
      stmt.keepsFstab := by
    have hloop := disableTimers_keepsFstab m
    cases hrpi : m.root.rpi <;> grind [Stmt.keepsFstab]
  have hsplit : configure m = ([.call .ensureInitramfs, .call .mkdir, .writeJournald] ++
      (if m.root.rpi then [.call .mkdir, .writeSwap] else []) ++ .clearState :: disableTimers m) ++
        [.fstabBootOpt .ro] := rfl
  rw [hsplit, exec_append]
  exact congrArg (Fstab.bootOpt .ro) (exec_fstab hkeeps m)

theorem writeJournald_mem_configure (m : Machine) : .writeJournald ∈ configure m := by
  simp [configure]

theorem writeSwap_mem_configure : .writeSwap ∈ configure m ↔ m.root.rpi := by
  have hloop : .writeSwap ∉ disableTimers m := by
    simp [disableTimers]
  cases hrpi : m.root.rpi <;> simp [configure, hrpi, hloop]

/-- What `do_ro` does before it edits `cmdline.txt`. -/
theorem exec_configure_readOnly (h : r₀.ReadWrite m.root) :
    r₀.ReadOnly (exec m (configure m)).root := by
  have hforward := exec_forward (configure_forward m) m
  refine
    { rpi := (exec_rpi _ m).trans h.rpi
      journald := hforward.journald.mpr (.inr (writeJournald_mem_configure m))
      swap := ?_
      disabled := ?_
      enabled := ?_
      fstab := ?_ }
  · rw [Bool.eq_iff_iff, hforward.swap, writeSwap_mem_configure, h.swap, h.rpi]
    simp
  · rw [exec_configure_disabled, h.enabled]
  · intro t
    rw [hforward.enabled]
    by_cases ht : m.root.enabled t
    · simp [disable_mem_configure.mpr ht]
    · simp [ht]
  · rw [exec_configure_fstab, map_fields_ro h.fstab]

/-! ## `do_rw` -/

/-- What `do_rw` does before it edits `cmdline.txt`. -/
def restore (m : Machine) (answers : Timer → Bool) : List Stmt :=
  .removeDropins :: enableTimers m answers ++ [.fstabBootOpt .rw]

/-- What it does from there. -/
def unmark (m : Machine) : List Stmt :=
  editRealCmdline m ++ [.call .sync, .call .remountRoot]

theorem undo_eq (m : Machine) (answers : Timer → Bool) :
    undo m answers = restore m answers ++ unmark m := by
  simp [undo, restore, unmark]

theorem restore_keepsCmdline (m : Machine) (answers : Timer → Bool) :
    ∀ stmt ∈ restore m answers, stmt.keepsCmdline := by
  have hloop := enableTimers_keepsCmdline m answers
  grind [restore, Stmt.keepsCmdline]

/-- Only the drop-ins and the fstab are left to edit. -/
theorem enableTimers_eq_nil (h : m.root.disabled = none) : enableTimers m answers = [] := by
  simp [enableTimers, h]

theorem restore_of_readWrite (h : r₀.ReadWrite m.root) :
    restore m answers = [.removeDropins, .fstabBootOpt .rw] := by
  simp [restore, enableTimers_eq_nil h.disabled]

theorem Root.Undoing.removeDropins (h : r₀.Undoing r) :
    r₀.Undoing { r with journald := false, swap := false } where
  rpi := h.rpi
  timers := h.timers
  fstab := h.fstab

/-- There is nothing to undo on a card in read-write mode. -/
theorem throughout_restore_readWrite (hedit : r₀.Editable) (h : r₀.ReadWrite m.root) :
    Throughout Stmt.exec (fun m => r₀.ReadWrite m.root) m (restore m answers) := by
  have hdropins : ∀ {m : Machine}, r₀.ReadWrite m.root → r₀.ReadWrite (Stmt.removeDropins.exec m).root :=
    fun h => ⟨h.rpi, rfl, rfl, h.disabled, h.enabled, h.fstab⟩
  have hfstab : ∀ {m : Machine}, r₀.ReadWrite m.root →
      r₀.ReadWrite ((Stmt.fstabBootOpt .rw).exec m).root := fun h =>
    ⟨h.rpi, h.journald, h.swap, h.disabled, h.enabled, map_fields_rw hedit h.undoing⟩
  rw [restore_of_readWrite h, throughout_cons, throughout_cons, throughout_nil]
  exact ⟨h, hdropins h, hfstab (hdropins h)⟩

section Restore
variable (hanswers : ∀ t, r₀.enabled t → answers t)
include hanswers

/-- The loop enables what was enabled, and no more. -/
theorem throughout_enable {ts : List Timer} (hts : ∀ t ∈ ts, r₀.enabled t)
    (h : r₀.Undoing m.root) :
    Throughout Stmt.exec (fun m => r₀.Undoing m.root) m
      (ts.map fun t => .enable t (answers t)) := by
  refine throughout_of_invariant (P := fun m : Machine => r₀.Undoing m.root) h
    fun stmt hstmt m h => ?_
  obtain ⟨t, ht, rfl⟩ := List.mem_map.mp hstmt
  have henabled : r₀.enabled t = true := hts t ht
  have hupdate : (Stmt.exec m (.enable t (answers t))).root.enabled =
      Function.update m.root.enabled t true := by
    rw [Stmt.exec, Machine.onRoot, hanswers t henabled, Bool.true_or]
  refine { rpi := h.rpi, timers := ?_, fstab := h.fstab }
  rw [hupdate]
  refine h.timers.imp (fun hnone => ⟨hnone.1, ?_⟩) (fun hsome => ⟨hsome.1, fun u hu => ?_⟩)
  · rw [hnone.2, Function.update_eq_self_iff, henabled]
  · by_cases hut : u = t
    · rw [hut]
      exact henabled
    · rw [Function.update_of_ne hut] at hu
      exact hsome.2 u hu

/-- At the end of the loop the record is worked off. -/
theorem exec_enableTimers (h : r₀.Undoing m.root) :
    (exec m (enableTimers m answers)).root =
      { m.root with disabled := none, enabled := r₀.enabled } := by
  rcases h.timers with ⟨hnone, hall⟩ | ⟨hsome, hle⟩
  · rw [enableTimers_eq_nil hnone, exec_nil, ← hall, ← hnone]
  · have hback : ∀ t, (m.root.enabled t || decide (t ∈ timers.filter r₀.enabled) && answers t) =
        r₀.enabled t := by
      intro t
      cases ht : r₀.enabled t with
      | true => simp [ht, hanswers t ht, mem_timers]
      | false => simpa [ht] using mt (hle t) (by simp [ht])
    simp only [enableTimers, hsome, exec_append, exec_enable, exec_cons, exec_nil, Stmt.exec,
      Machine.onRoot, hback]

theorem Root.Undoing.enableTimers (h : r₀.Undoing m.root) :
    r₀.Undoing (exec m (enableTimers m answers)).root := by
  rw [exec_enableTimers hanswers h]
  exact { rpi := h.rpi, timers := .inl ⟨rfl, rfl⟩, fstab := h.fstab }

theorem throughout_enableTimers (h : r₀.Undoing m.root) :
    Throughout Stmt.exec (fun m => r₀.Undoing m.root) m (Overlay.enableTimers m answers) := by
  have hend := h.enableTimers hanswers
  rcases h.timers with ⟨hnone, -⟩ | ⟨hsome, -⟩
  · rw [enableTimers_eq_nil hnone]
    exact throughout_nil.mpr h
  · have hts : ∀ t ∈ timers.filter r₀.enabled, r₀.enabled t :=
      fun t ht => (List.mem_filter.mp ht).2
    have hloop := throughout_enable hanswers hts h
    simp only [Overlay.enableTimers, hsome, exec_append] at hend ⊢
    rw [throughout_append, throughout_cons, throughout_nil]
    exact ⟨hloop, hloop.last, hend⟩

theorem exec_restore (hedit : r₀.Editable) (h : r₀.Undoing m.root) :
    r₀.ReadWrite (exec m (restore m answers)).root := by
  have hdropins : r₀.Undoing (Stmt.removeDropins.exec m).root := h.removeDropins
  have hback := exec_enableTimers hanswers hdropins
  have hfstab := map_fields_rw hedit h
  have hsplit : exec m (restore m answers) = (exec (Stmt.removeDropins.exec m)
      (Overlay.enableTimers (Stmt.removeDropins.exec m) answers)).onRoot
        fun r => { r with fstab := Fstab.bootOpt .rw r.fstab } := by
    rw [restore, exec_append, exec_cons]
    rfl
  rw [hsplit, Machine.onRoot, hback]
  exact
    { rpi := h.rpi
      journald := rfl
      swap := rfl
      disabled := rfl
      enabled := rfl
      fstab := hfstab }

/-- Wherever it stops before it edits `cmdline.txt`, `do_rw` leaves what it can undo
again. -/
theorem throughout_restore (hedit : r₀.Editable) (h : r₀.Undoing m.root) :
    Throughout Stmt.exec (fun m => r₀.Undoing m.root) m (restore m answers) := by
  have hdropins : r₀.Undoing (Stmt.removeDropins.exec m).root := h.removeDropins
  have hloop := throughout_enableTimers hanswers hdropins
  have hend : Throughout Stmt.exec (fun m => r₀.Undoing m.root)
      (exec (Stmt.removeDropins.exec m) (Overlay.enableTimers m answers)) [.fstabBootOpt .rw] := by
    rw [throughout_cons, throughout_nil]
    refine ⟨hloop.last, ?_⟩
    have hrestored := (exec_restore hanswers hedit h).undoing
    rwa [restore, exec_append, exec_cons] at hrestored
  rw [restore, List.cons_append, throughout_cons, throughout_append]
  exact ⟨h, hloop, hend⟩

end Restore

/-- What is left of `do_rw` once the root filesystem is restored: calls, and one edit. -/
theorem unmark_eq (m : Machine) :
    ∃ c stmt, ∃ cs : List Call, unmark m = .call c :: stmt :: cs.map .call ∧
      ∀ m', m'.shown = m.shown → stmt.exec m' = { m' with cmdline := Cmdline.del m'.cmdline } := by
  unfold unmark editRealCmdline
  cases hshown : m.shown with
  | none =>
      refine ⟨_, .cmdlineDel, [.sync, .remountBoot, .sync, .remountRoot], rfl, ?_⟩
      intro m' hm'
      rw [Stmt.exec, Machine.edit, hm']
  | some file =>
      exact ⟨_, .cmdlineDelAt, [.sync, .umountBoot, .sync, .remountRoot], rfl, fun _ _ => rfl⟩

theorem throughout_calls {P : Machine → Prop} (h : P m) (cs : List Call) :
    Throughout Stmt.exec P m (cs.map .call) := by
  apply throughout_of_invariant h
  intro stmt hstmt m hm
  obtain ⟨c, -, rfl⟩ := List.mem_map.mp hstmt
  exact hm

theorem exec_calls (cs : List Call) (m : Machine) : exec m (cs.map .call) = m :=
  (throughout_calls (P := fun m' => m' = m) rfl cs).last

theorem exec_unmark {m' : Machine} (hshown : m'.shown = m.shown) :
    exec m' (unmark m) = { m' with cmdline := Cmdline.del m'.cmdline } := by
  obtain ⟨c, stmt, cs, hunmark, hexec⟩ := unmark_eq m
  rw [hunmark, exec_cons, exec_cons, exec_calls]
  exact hexec m' hshown

/-! ## The card -/

/-- The boot partition and the root filesystem agree on the mode. `R` says what read-only
mode may look like. -/
structure Card (R : Root → Root → Prop) (m₀ m : Machine) : Prop where
  plain : m.Plain
  /-- An overlay over `$BOOT` is made while the next boot is read-only. -/
  shown : ∀ file, m.shown = some file → file = Cmdline.add m₀.cmdline
  mode : m.cmdline = m₀.cmdline ∧ m₀.root.ReadWrite m.root ∨
    m.cmdline = Cmdline.add m₀.cmdline ∧ R m₀.root m.root

/-- The root filesystem is restored, and the boot partition may or may not be. -/
theorem Card.of_restored {R : Root → Root → Prop} (h : Card R m₀ m) {m' : Machine} (hsame : SameBoot m m')
    (hroot : m₀.root.ReadWrite m'.root) : Card Root.Undoing m₀ m' where
  plain hactive := hsame.shown.trans (h.plain (hsame.active.symm.trans hactive))
  shown file hfile := h.shown file (hsame.shown.symm.trans hfile)
  mode := h.mode.imp (fun hrw => ⟨hsame.cmdline.trans hrw.1, hroot⟩)
    fun hro => ⟨hsame.cmdline.trans hro.1, hroot.undoing⟩

section WordLocale
variable [WordLocale]

/-- The card before the first command. -/
structure Machine.Installed (m₀ : Machine) : Prop extends m₀.Fresh where
  disabled : m₀.root.disabled = none
  nonempty : m₀.cmdline ≠ []
  trimmed : ∀ line ∈ m₀.cmdline, Cmdline.trim line = line
  editable : m₀.root.Editable

theorem Machine.Installed.readWrite (h₀ : m₀.Installed) : m₀.root.ReadWrite m₀.root where
  rpi := rfl
  journald := h₀.journald
  swap := h₀.swap
  disabled := h₀.disabled
  enabled := rfl
  fstab := rfl

theorem Machine.Installed.card (h₀ : m₀.Installed) (R : Root → Root → Prop) : Card R m₀ m₀ where
  plain _ := h₀.shown
  shown file hfile := by simp [h₀.shown] at hfile
  mode := .inl ⟨rfl, h₀.readWrite⟩

theorem Machine.Installed.grep_add (h₀ : m₀.Installed) :
    Cmdline.grep (Cmdline.add m₀.cmdline) = true := by
  simpa [Cmdline.grep_add] using h₀.nonempty

theorem Machine.Installed.words (h₀ : m₀.Installed) :
    ∀ line ∈ m₀.cmdline, Cmdline.trim line = line ∧ Cmdline.overlayOption ∉ Cmdline.words line := by
  intro line hline
  refine ⟨h₀.trimmed line hline, fun hmem => ?_⟩
  have hnone : Cmdline.count none line = 0 := by
    have hgrep := List.any_eq_false.mp h₀.next line hline
    exact Cmdline.grepLine_eq_false_iff.mp (Bool.eq_false_iff.mpr hgrep)
  rw [Cmdline.count_deleteOption, if_pos hmem] at hnone
  exact absurd hnone (Nat.succ_ne_zero _)

theorem Machine.Installed.del_add (h₀ : m₀.Installed) :
    Cmdline.del (Cmdline.add m₀.cmdline) = m₀.cmdline := Cmdline.del_add h₀.words

theorem Machine.Installed.del (h₀ : m₀.Installed) : Cmdline.del m₀.cmdline = m₀.cmdline := by
  rw [Cmdline.del]
  apply (List.map_congr_left fun line hline => ?_).trans (List.map_id _)
  obtain ⟨htrim, hwords⟩ := h₀.words line hline
  rw [Cmdline.deleteOption_of_not_mem hwords, htrim]
  rfl

section Card
variable {R : Root → Root → Prop}

/-- The modes are told apart by `cmdline.txt`. -/
theorem Card.of_next (h₀ : m₀.Installed) (h : Card R m₀ m) (hnext : m.nextReadOnly) :
    m.cmdline = Cmdline.add m₀.cmdline ∧ R m₀.root m.root := by
  rcases h.mode with ⟨hcmdline, -⟩ | hro
  · have hfresh := h₀.next
    rw [Machine.nextReadOnly, ← hcmdline] at hfresh
    exact absurd (hnext.symm.trans hfresh) (by decide)
  · exact hro

theorem Card.of_not_next (h₀ : m₀.Installed) (h : Card R m₀ m) (hnext : m.nextReadOnly = false) :
    m.cmdline = m₀.cmdline ∧ m₀.root.ReadWrite m.root := by
  rcases h.mode with hrw | ⟨hcmdline, -⟩
  · exact hrw
  · rw [Machine.nextReadOnly, hcmdline, h₀.grep_add] at hnext
    cases hnext

theorem Card.reboot (h₀ : m₀.Installed) (h : Card R m₀ m) (covered : Bool) :
    Card R m₀ (m.reboot covered) where
  plain := m.reboot_plain covered
  shown file hfile := by
    cases hgrep : Cmdline.grep m.cmdline with
    | false => simp [Machine.reboot, hgrep] at hfile
    | true =>
        have hcmdline := (h.of_next h₀ hgrep).1
        cases covered <;> simp [Machine.reboot, hgrep] at hfile
        exact hfile.symm.trans hcmdline
  mode := h.mode

/-- On a card in read-write mode `do_ro` configures all that read-only mode wants. -/
theorem Card.ro_of_readWrite (h₀ : m₀.Installed) (h : Card R m₀ m) (hactive : m.active = false)
    (hnext : m.nextReadOnly = false) :
    Card Root.ReadOnly m₀ (exec m (doRo m)) := by
  obtain ⟨hcmdline, hroot⟩ := h.of_not_next h₀ hnext
  have hrw : m.ReadWrite := ⟨hactive, h.plain hactive, hnext⟩
  have hall : attempt m (doRo m).length = doRo m := List.take_length
  have hmark : .cmdlineAdd ∈ attempt m (doRo m).length := by
    rw [hall, hrw.doRo]
    simp
  obtain ⟨-, hshown, hadd, hsame⟩ := exec_marking hrw hmark
  rw [hall] at hshown hadd hsame
  refine { plain := fun _ => hshown, shown := fun file hfile => ?_, mode := .inr ⟨?_, ?_⟩ }
  · rw [hshown] at hfile
    cases hfile
  · rw [hadd, hcmdline]
  · rw [hsame]
    exact exec_configure_readOnly hroot

theorem Card.del (h₀ : m₀.Installed) (h : Card R m₀ m) : Cmdline.del m.cmdline = m₀.cmdline := by
  rcases h.mode with ⟨hcmdline, -⟩ | ⟨hcmdline, -⟩
  · rw [hcmdline, h₀.del]
  · rw [hcmdline, h₀.del_add]

section Answers
variable (hanswers : ∀ t, m₀.root.enabled t → answers t)
include hanswers

theorem Card.exec_restore (h₀ : m₀.Installed) (h : Card R m₀ m)
    (hR : ∀ r, R m₀.root r → m₀.root.Undoing r) :
    m₀.root.ReadWrite (exec m (restore m answers)).root := by
  apply Overlay.exec_restore hanswers h₀.editable
  exact h.mode.elim (fun hrw => hrw.2.undoing) fun hro => hR _ hro.2

theorem Card.exec_undo (h₀ : m₀.Installed) (h : Card R m₀ m)
    (hR : ∀ r, R m₀.root r → m₀.root.Undoing r) :
    m₀.root.ReadWrite (exec m (undo m answers)).root := by
  have hsame := exec_sameBoot (restore_keepsCmdline m answers) m
  rw [undo_eq, exec_append, exec_unmark hsame.shown]
  exact h.exec_restore hanswers h₀ hR

theorem Card.exec_doRw (h₀ : m₀.Installed) (h : Card R m₀ m)
    (hR : ∀ r, R m₀.root r → m₀.root.Undoing r) :
    m₀.root.ReadWrite (exec m (doRw m answers)).root := by
  have hundo := h.exec_undo hanswers h₀ hR
  unfold doRw
  cases hactive : m.active with
  | true => exact hundo
  | false =>
      rw [if_neg Bool.false_ne_true, h.plain.configured hactive]
      cases hnext : m.nextReadOnly with
      | true => exact hundo
      | false => exact (h.of_not_next h₀ hnext).2

/-- A `do_rw` that goes through restores the card. -/
theorem Card.rw (h₀ : m₀.Installed) (h : Card R m₀ m)
    (hR : ∀ r, R m₀.root r → m₀.root.Undoing r) (R' : Root → Root → Prop) :
    Card R' m₀ (exec m (doRw m answers)) ∧ (exec m (doRw m answers)).nextReadOnly = false := by
  obtain ⟨hactive, hshown, hcmdline⟩ := Overlay.exec_doRw h.plain answers
  have hbase : (exec m (doRw m answers)).cmdline = m₀.cmdline := by
    rw [hcmdline]
    split
    next => exact h.del h₀
    next hgone =>
      have hnext := (Bool.or_eq_false_iff.mp (Bool.eq_false_iff.mpr hgone)).2
      exact (h.of_not_next h₀ hnext).1
  refine ⟨{ plain := ?_, shown := ?_, mode := .inl ⟨hbase, h.exec_doRw hanswers h₀ hR⟩ }, ?_⟩
  · exact fun hnone => hshown.trans (h.plain (hactive.symm.trans hnone))
  · exact fun file hfile => h.shown file (hshown.symm.trans hfile)
  · rw [Machine.nextReadOnly, hbase]
    exact h₀.next

/-- Wherever it stops, `do_rw` leaves a card that it can restore. -/
theorem Card.throughout_doRw (h₀ : m₀.Installed) (h : Card Root.Undoing m₀ m) :
    Throughout Stmt.exec (Card Root.Undoing m₀) m (doRw m answers) := by
  have hkeeps : ∀ taken, ∀ stmt ∈ (restore m answers).take taken, stmt.keepsCmdline :=
    fun taken stmt hstmt => restore_keepsCmdline m answers stmt (List.mem_of_mem_take hstmt)
  have hsame := fun taken => exec_sameBoot (hkeeps taken) m
  have hrestored := h.exec_restore hanswers h₀ fun _ => id
  have hmid := h.of_restored (exec_sameBoot (restore_keepsCmdline m answers) m) hrestored
  have hrestore : Throughout Stmt.exec (Card Root.Undoing m₀) m (restore m answers) := by
    intro taken
    refine
      { plain := fun hactive =>
          (hsame taken).shown.trans (h.plain ((hsame taken).active.symm.trans hactive))
        shown := fun file hfile => h.shown file ((hsame taken).shown.symm.trans hfile)
        mode := ?_ }
    rcases h.mode with ⟨hcmdline, hrw⟩ | ⟨hcmdline, hro⟩
    · exact .inl ⟨(hsame taken).cmdline.trans hcmdline,
        throughout_restore_readWrite h₀.editable hrw taken⟩
    · exact .inr ⟨(hsame taken).cmdline.trans hcmdline,
        throughout_restore hanswers h₀.editable hro taken⟩
  have hundo : Throughout Stmt.exec (Card Root.Undoing m₀) m (undo m answers) := by
    have hsame := exec_sameBoot (restore_keepsCmdline m answers) m
    obtain ⟨c, stmt, cs, hunmark, hexec⟩ := unmark_eq m
    have hedited : Card Root.Undoing m₀ (stmt.exec (exec m (restore m answers))) := by
      rw [hexec _ hsame.shown]
      exact
        { plain := hmid.plain
          shown := hmid.shown
          mode := .inl ⟨hmid.del h₀, hrestored⟩ }
    rw [undo_eq, hunmark, throughout_append, throughout_cons, throughout_cons]
    exact ⟨hrestore, hmid, hmid, throughout_calls hedited cs⟩
  unfold doRw
  cases m.active with
  | true => exact throughout_cons.mpr ⟨h, hundo⟩
  | false =>
      cases m.configured with
      | true => exact hundo
      | false => exact throughout_nil.mpr h

end Answers

end Card

end WordLocale

end Overlay

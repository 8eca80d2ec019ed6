-- SUMMARY: Which boot the last overlay command leaves configured, over every run of `atomrust-ro`, `atomrust-rw` and reboots.
import AtomRust.Base.Transition
import AtomRust.Packaging.Overlay

/-!
# The last overlay command

The running mode and the mode of the next boot differ between a command and the
reboot. `do_rw` reads both. `do_ro` leaves early when the overlay is active, whatever
the next boot is configured to be, so an `atomrust-ro` that follows an `atomrust-rw`
before the reboot reports success and changes nothing.
-/

namespace Overlay

/-- Outside the overlay `$BOOT` is the boot partition. -/
def Machine.Plain (m : Machine) : Prop := m.active = false → m.shown = none

/-! ## One command -/

theorem disableTimers_keepsCmdline (m : Machine) :
    ∀ stmt ∈ disableTimers m, stmt.keepsCmdline := by
  intro stmt hstmt
  obtain ⟨t, -, ht⟩ := List.mem_flatMap.mp hstmt
  simp only [List.mem_cons, List.not_mem_nil, or_false] at ht
  obtain rfl | rfl := ht <;> rfl

theorem enableTimers_keepsCmdline (m : Machine) (answers : Timer → Bool) :
    ∀ stmt ∈ enableTimers m answers, stmt.keepsCmdline := by
  intro stmt hstmt
  cases hrecord : m.root.disabled with
  | none => simp [enableTimers, hrecord] at hstmt
  | some ts =>
      simp only [enableTimers, hrecord, List.mem_append, List.mem_map, List.mem_singleton] at hstmt
      obtain ⟨t, -, rfl⟩ | rfl := hstmt <;> rfl

/-- What `do_ro` does before it edits `cmdline.txt`. -/
def configure (m : Machine) : List Stmt :=
  [.call .ensureInitramfs, .call .mkdir, .writeJournald] ++
    (if m.root.rpi then [.call .mkdir, .writeSwap] else []) ++
    .clearState :: disableTimers m ++ [.fstabBootOpt .ro]

theorem configure_keepsCmdline (m : Machine) : ∀ stmt ∈ configure m, stmt.keepsCmdline := by
  intro stmt hstmt
  simp only [configure, List.mem_append, List.mem_cons] at hstmt
  cases hrpi : m.root.rpi <;> grind [Stmt.keepsCmdline, disableTimers_keepsCmdline]

theorem exec_editRealCmdline {m m' : Machine} (h : m'.shown = m.shown) :
    (exec m' (editRealCmdline m)).active = m'.active ∧
      (exec m' (editRealCmdline m)).shown = m'.shown ∧
      (exec m' (editRealCmdline m)).cmdline = Cmdline.del m'.cmdline := by
  unfold editRealCmdline
  cases hshown : m.shown with
  | none => simp [withBootRw, Stmt.exec, Machine.edit, h.trans hshown]
  | some file => simp [Stmt.exec]

theorem exec_undo (m : Machine) (answers : Timer → Bool) :
    (exec m (undo m answers)).active = m.active ∧ (exec m (undo m answers)).shown = m.shown ∧
      (exec m (undo m answers)).cmdline = Cmdline.del m.cmdline := by
  have hkeeps : ∀ stmt ∈ .removeDropins :: enableTimers m answers ++ [.fstabBootOpt .rw],
      stmt.keepsCmdline := by
    grind [Stmt.keepsCmdline, enableTimers_keepsCmdline]
  have hsame := exec_sameBoot hkeeps m
  have hsplit : undo m answers =
      (.removeDropins :: enableTimers m answers ++ [.fstabBootOpt .rw]) ++
        (editRealCmdline m ++ [.call .sync, .call .remountRoot]) := by
    simp [undo]
  obtain ⟨hactive, hshown, hcmdline⟩ := exec_editRealCmdline hsame.shown
  rw [hsplit, exec_append, exec_append]
  exact ⟨hactive.trans hsame.active, hshown.trans hsame.shown,
    hcmdline.trans (by rw [hsame.cmdline])⟩

section WordLocale
variable [WordLocale]

/-- The mode of the next boot, as `cmdline.txt` of the boot partition configures it. -/
def Machine.nextReadOnly (m : Machine) : Bool := Cmdline.grep m.cmdline

theorem Machine.Plain.configured {m : Machine} (h : m.Plain) (hactive : m.active = false) :
    m.configured = m.nextReadOnly := by
  rw [Machine.configured, Machine.seen, h hactive]
  rfl

theorem doRo_of_readWrite {m : Machine} (h : m.Plain) (hactive : m.active = false)
    (hnext : m.nextReadOnly = false) :
    doRo m = configure m ++ .call .remountBoot ::
      .cmdlineAdd :: [.call .sync, .call .remountBoot, .call .sync] := by
  have hconfigured : m.configured = false := (h.configured hactive).trans hnext
  simp [doRo, hactive, hconfigured, configure, withBootRw]

/-- `atomrust-ro` changes `cmdline.txt` when the overlay is neither active nor
configured. -/
theorem exec_doRo {m : Machine} (h : m.Plain) :
    (exec m (doRo m)).active = m.active ∧ (exec m (doRo m)).shown = m.shown ∧
      (exec m (doRo m)).cmdline =
        if m.active || m.nextReadOnly then m.cmdline else Cmdline.add m.cmdline := by
  cases hactive : m.active with
  | true => simp [doRo, hactive]
  | false =>
      cases hnext : m.nextReadOnly with
      | true => simp [doRo, hactive, h.configured hactive, hnext]
      | false =>
          have hsame := exec_sameBoot (configure_keepsCmdline m) m
          have hshown : (exec m (configure m)).shown = none := hsame.shown.trans (h hactive)
          rw [doRo_of_readWrite h hactive hnext, exec_append]
          simp [Stmt.exec, Machine.edit, hshown, hsame.active, hsame.cmdline, hactive, h hactive]

/-- `atomrust-rw` reads both facts, the running mode and the configured one. -/
theorem exec_doRw {m : Machine} (h : m.Plain) (answers : Timer → Bool) :
    (exec m (doRw m answers)).active = m.active ∧ (exec m (doRw m answers)).shown = m.shown ∧
      (exec m (doRw m answers)).cmdline =
        if m.active || m.nextReadOnly then Cmdline.del m.cmdline else m.cmdline := by
  unfold doRw
  cases hactive : m.active with
  | true => simpa [Stmt.exec, hactive] using exec_undo m answers
  | false =>
      rw [if_neg Bool.false_ne_true, h.configured hactive]
      cases hnext : m.nextReadOnly with
      | true => simpa [hactive] using exec_undo m answers
      | false => simp [hactive]

/-! ## The next boot -/

theorem doRo_nextReadOnly {m : Machine} (h : m.Plain) :
    (exec m (doRo m)).nextReadOnly ↔ m.nextReadOnly ∨ m.active = false ∧ m.cmdline ≠ [] := by
  rw [Machine.nextReadOnly, (exec_doRo h).2.2]
  cases hactive : m.active with
  | true => simp [Machine.nextReadOnly]
  | false =>
      cases hnext : m.nextReadOnly with
      | true =>
          have hgrep : Cmdline.grep m.cmdline = true := hnext
          simp [hgrep]
      | false => simp [Cmdline.grep_add]

theorem doRw_nextReadOnly {m : Machine} (h : m.Plain) (answers : Timer → Bool) :
    (exec m (doRw m answers)).nextReadOnly = false ↔
      ∀ line ∈ m.cmdline, Cmdline.Deletable line := by
  rw [Machine.nextReadOnly, (exec_doRw h answers).2.2, ← Cmdline.grep_del_eq_false_iff]
  cases hgone : m.active || m.nextReadOnly with
  | true => rfl
  | false =>
      have hnext : Cmdline.grep m.cmdline = false := (Bool.or_eq_false_iff.mp hgone).2
      simp [hnext, Cmdline.grep_del_of_grep_eq_false hnext]

/-! ## Runs -/

inductive Action
  | ro
  | rw (answers : Timer → Bool)
  | reboot (covered : Bool)

structure State where
  machine : Machine
  /-- The command taken last. -/
  last : Option Mode

/-- A command that exits with success, or a boot. -/
def step (s : State) : Action → Option State
  | .ro => some ⟨exec s.machine (doRo s.machine), some .ro⟩
  | .rw answers => some ⟨exec s.machine (doRw s.machine answers), some .rw⟩
  | .reboot covered => some { s with machine := s.machine.reboot covered }

/-- The card may be in any mode, with any boot configured. -/
def system : Transition.System State Action where
  init s := s.machine.Plain ∧ s.last = none
  step := step

/-- The next boot is as the last command configures it. -/
def State.Wins (s : State) : Prop :=
  ∀ mode, s.last = some mode → s.machine.nextReadOnly = decide (mode = .ro)

/-- What the last command needs of the state it finds. -/
def State.Heeds (s : State) : Action → Prop
  | .ro => s.machine.nextReadOnly ∨ s.machine.active = false ∧ s.machine.cmdline ≠ []
  | .rw _ => ∀ line ∈ s.machine.cmdline, Cmdline.Deletable line
  | .reboot _ => True

theorem Machine.reboot_plain (m : Machine) (covered : Bool) : (m.reboot covered).Plain := by
  intro hactive
  have hgrep : Cmdline.grep m.cmdline = false := hactive
  simp [Machine.reboot, hgrep]

theorem plain_of_reachable {s : State} (h : system.Reachable s) : s.machine.Plain := by
  refine h.invariant (I := fun s => s.machine.Plain) (fun s (hs : system.init s) => hs.1) ?_
  intro s a s' _ hplain hstep
  cases a with
  | ro =>
      cases hstep
      obtain ⟨hactive, hshown, -⟩ := exec_doRo hplain
      exact fun h => hshown.trans (hplain (hactive ▸ h))
  | rw answers =>
      cases hstep
      obtain ⟨hactive, hshown, -⟩ := exec_doRw hplain answers
      exact fun h => hshown.trans (hplain (hactive ▸ h))
  | reboot covered =>
      cases hstep
      exact Machine.reboot_plain _ covered

/-- One step keeps the law just when the command heeds what it finds. -/
theorem wins_step_iff {s s' : State} {a : Action} (hplain : s.machine.Plain) (hwins : s.Wins)
    (hstep : step s a = some s') : s'.Wins ↔ s.Heeds a := by
  cases a with
  | ro =>
      cases hstep
      simpa [State.Wins, State.Heeds] using doRo_nextReadOnly hplain
  | rw answers =>
      cases hstep
      simpa [State.Wins, State.Heeds] using doRw_nextReadOnly hplain answers
  | reboot covered =>
      cases hstep
      exact ⟨fun _ => trivial, fun _ => hwins⟩

/-- The last command wins all along a run just when no `atomrust-ro` is given while
the overlay is active and a read-write boot is configured, or with an empty
`cmdline.txt`, and when what `atomrust-rw` finds on each line can be deleted. -/
theorem last_command_wins_iff {s₀ s : State} {as : List Action} (h₀ : system.init s₀)
    (hrun : Transition.run step s₀ as = some s) :
    (∀ bs t, bs <+: as → Transition.run step s₀ bs = some t → t.Wins) ↔
      ∀ bs a t, bs ++ [a] <+: as → Transition.run step s₀ bs = some t → t.Heeds a := by
  have hwins : s₀.Wins := fun mode h => by simp [h₀.2] at h
  refine system.run_forall_iff h₀ hwins ?_ hrun
  intro t a t' hreach hwins hstep
  exact wins_step_iff (plain_of_reachable hreach) hwins hstep

/-- A freshly installed card, in read-write mode. -/
def freshCard : State where
  machine :=
    { active := false
      root :=
        { journald := false
          swap := false
          disabled := none
          enabled := fun _ => true
          fstab := []
          rpi := true }
      cmdline := [['q', 'u', 'i', 'e', 't']]
      shown := none }
  last := none

theorem freshCard_init : system.init freshCard := ⟨fun _ => rfl, rfl⟩

end WordLocale

section Posix
attribute [local instance] WordLocale.posix

/-- There and back, with a boot after each command. -/
def patientRun : List Action := [.ro, .reboot true, .rw fun _ => true, .reboot false]

theorem last_command_wins_iff_patientRun :
    ∃ s, Transition.run step freshCard patientRun = some s ∧ s.last = some .rw ∧
      ((∀ bs t, bs <+: patientRun → Transition.run step freshCard bs = some t → t.Wins) ↔
        ∀ bs a t, bs ++ [a] <+: patientRun → Transition.run step freshCard bs = some t →
          t.Heeds a) :=
  ⟨_, rfl, rfl, last_command_wins_iff freshCard_init rfl⟩

/-- The second `atomrust-ro` comes before the reboot that `atomrust-rw` asks for. -/
def hastyRun : List Action := [.ro, .reboot false, .rw fun _ => true, .ro]

theorem not_wins_hastyRun :
    ∃ s, Transition.run step freshCard hastyRun = some s ∧ s.last = some .ro ∧
      s.machine.nextReadOnly = false ∧ ¬ s.Wins := by
  refine ⟨_, rfl, rfl, by decide, fun h => ?_⟩
  exact absurd (h .ro rfl) (by decide)

end Posix

end Overlay

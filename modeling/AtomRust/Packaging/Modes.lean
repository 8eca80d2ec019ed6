-- SUMMARY: The overlay commands as a choice of modes: the card keeps up with them over every run, also where `atomrust-rw` is cut short.
import AtomRust.Packaging.Card

/-!
# The modes

To its user the script is a choice between two modes, of which one runs and one is
configured for the next boot. `Modes` is that view, with what `do_status` prints of it.
-/

namespace Overlay
variable {m m₀ : Machine} {answers : Timer → Bool}

section WordLocale
variable [WordLocale]

/-! ## What the user sees -/

/-- What `do_status` prints of the modes. -/
structure Status where
  mode : Mode
  nextBoot : Mode
  deriving DecidableEq, Repr

/-- `do_status`. -/
def doStatus (m : Machine) : Status where
  mode := if m.active then .ro else .rw
  nextBoot := if m.configured then .ro else .rw

/-- The script as its user sees it. -/
structure Modes where
  running : Mode
  next : Mode
  /-- The running mode shows `$BOOT` through an overlay. -/
  covered : Bool
  deriving DecidableEq, Repr

namespace Modes

/-- A command that exits with success, or a boot. `atomrust-ro` has no effect while
read-only mode runs. -/
def step (s : Modes) : Action → Modes
  | .ro => { s with next := if s.running = .ro then s.next else .ro }
  | .rw _ => { s with next := .rw }
  | .reboot covered =>
      { running := s.next, next := s.next, covered := decide (s.next = .ro) && covered }

/-- `overlay_configured` looks at the overlay over `$BOOT`, if there is one, which keeps
what it was made of. -/
def status (s : Modes) : Status where
  mode := s.running
  nextBoot := if s.covered then .ro else s.next

/-- A freshly installed system. -/
def init : Modes := ⟨.rw, .rw, false⟩

/-- The commands and boots in order. -/
def after (as : List Action) : Modes := as.foldl step init

end Modes

/-- What is on the card in each mode. -/
def Machine.Holds (m₀ m : Machine) : Mode → Prop
  | .rw => m.cmdline = m₀.cmdline ∧ m₀.root.ReadWrite m.root
  | .ro => m.cmdline = Cmdline.add m₀.cmdline ∧ m₀.root.ReadOnly m.root

/-- The card and what runs are as the user sees them. -/
structure Represents (m₀ m : Machine) (s : Modes) : Prop where
  running : m.active = decide (s.running = .ro)
  next : m.nextReadOnly = decide (s.next = .ro)
  holds : m₀.Holds m s.next
  status : doStatus m = s.status

/-- The step of the machine is that of `step`. -/
def Machine.act (m : Machine) : Action → Machine
  | .ro => exec m (doRo m)
  | .rw answers => exec m (doRw m answers)
  | .reboot covered => m.reboot covered

theorem machine_of_step {s s' : State} {a : Action} (h : step s a = some s') :
    s'.machine = s.machine.act a := by
  cases a <;> cases h <;> rfl

/-- Each timer is enabled again that was. -/
def Action.Willing (m₀ : Machine) : Action → Prop
  | .rw answers => ∀ t, m₀.root.enabled t → answers t
  | .ro | .reboot _ => True

/-- What the card and the modes have in common. -/
structure Keeps (m₀ m : Machine) (s : Modes) : Prop where
  card : Card Root.ReadOnly m₀ m
  running : m.active = decide (s.running = .ro)
  next : m.nextReadOnly = decide (s.next = .ro)
  covered : m.shown.isSome = s.covered

namespace Keeps
variable {s : Modes} {a : Action}

theorem ro (h₀ : m₀.Installed) (h : Keeps m₀ m s) : Keeps m₀ (m.act .ro) (s.step .ro) := by
  obtain ⟨hactive, hshown, hcmdline⟩ := exec_doRo h.card.plain
  cases hrunning : m.active with
  | true =>
      have hro : s.running = .ro := of_decide_eq_true (h.running.symm.trans hrunning)
      have hsame : m.act .ro = m := by simp [Machine.act, doRo, hrunning]
      have hstep : s.step .ro = s := by rw [Modes.step, if_pos hro]
      rw [hsame, hstep]
      exact h
  | false =>
      have hrw : s.running ≠ .ro := of_decide_eq_false (h.running.symm.trans hrunning)
      have hcard : Card Root.ReadOnly m₀ (m.act .ro) := by
        cases hnext : m.nextReadOnly with
        | true =>
            have hsame : m.act .ro = m := by
              simp [Machine.act, doRo, hrunning, h.card.plain.configured hrunning, hnext]
            rw [hsame]
            exact h.card
        | false => exact h.card.ro_of_readWrite h₀ hrunning hnext
      refine
        { card := hcard
          running := hactive.trans h.running
          next := ?_
          covered := (congrArg Option.isSome hshown).trans h.covered }
      rw [hrunning, Bool.false_or] at hcmdline
      rw [Machine.nextReadOnly, Machine.act, hcmdline]
      simp only [Modes.step, hrw, if_false, decide_true]
      split
      next hnext => exact hnext
      next hnext =>
        rw [(h.card.of_not_next h₀ (Bool.eq_false_iff.mpr hnext)).1]
        exact h₀.grep_add

theorem rw (h₀ : m₀.Installed) (h : Keeps m₀ m s) (hanswers : ∀ t, m₀.root.enabled t → answers t) :
    Keeps m₀ (m.act (.rw answers)) (s.step (.rw answers)) := by
  obtain ⟨hactive, hshown, -⟩ := exec_doRw h.card.plain answers
  obtain ⟨hcard, hnext⟩ := h.card.rw hanswers h₀ (fun r hr => hr.undoing) Root.ReadOnly
  exact
    { card := hcard
      running := hactive.trans h.running
      next := hnext
      covered := (congrArg Option.isSome hshown).trans h.covered }

theorem reboot (h₀ : m₀.Installed) (h : Keeps m₀ m s) (covered : Bool) :
    Keeps m₀ (m.act (.reboot covered)) (s.step (.reboot covered)) where
  card := h.card.reboot h₀ covered
  running := h.next
  next := h.next
  covered := by
    have hgrep : Cmdline.grep m.cmdline = decide (s.next = .ro) := h.next
    simp only [Machine.act, Machine.reboot, Modes.step, hgrep]
    split
    next hcovered => exact hcovered.symm
    next hcovered => exact (Bool.eq_false_iff.mpr hcovered).symm

theorem step (h₀ : m₀.Installed) (h : Keeps m₀ m s) (ha : a.Willing m₀) :
    Keeps m₀ (m.act a) (s.step a) := by
  cases a with
  | ro => exact h.ro h₀
  | rw answers => exact h.rw h₀ ha
  | reboot covered => exact h.reboot h₀ covered

theorem represents (h₀ : m₀.Installed) (h : Keeps m₀ m s) : Represents m₀ m s := by
  refine { running := h.running, next := h.next, holds := ?_, status := ?_ }
  · cases hs : s.next with
    | ro => exact h.card.of_next h₀ (by simp [h.next, hs])
    | rw => exact h.card.of_not_next h₀ (by simp [h.next, hs])
  · have hmode : (if m.active then .ro else .rw : Mode) = s.running := by
      rw [h.running]
      cases s.running <;> rfl
    have hboot : (if m.configured then .ro else .rw : Mode) = s.status.nextBoot := by
      rw [Modes.status, ← h.covered, Machine.configured, Machine.seen]
      cases hshown : m.shown with
      | none =>
          have hgrep : Cmdline.grep m.cmdline = decide (s.next = .ro) := h.next
          rw [Option.getD_none, hgrep]
          cases s.next <;> rfl
      | some file =>
          rw [Option.getD_some, h.card.shown file hshown, h₀.grep_add]
          rfl
    rw [doStatus, hmode, hboot]
    rfl

end Keeps

theorem Machine.Installed.keeps (h₀ : m₀.Installed) : Keeps m₀ m₀ Modes.init where
  card := h₀.card _
  running := h₀.active
  next := h₀.next
  covered := by rw [h₀.shown]; rfl

/-- Over every run of commands that exit with success, and of boots, the card and what
`do_status` prints are as the modes say. -/
theorem represents_of_run {s₀ s : State} {as : List Action} (h₀ : s₀.machine.Installed)
    (hwilling : ∀ a ∈ as, a.Willing s₀.machine)
    (hrun : Transition.run step s₀ as = some s) :
    Represents s₀.machine s.machine (Modes.after as) := by
  have hkeeps : (∀ a ∈ as, a.Willing s₀.machine) →
      Keeps s₀.machine s.machine (Modes.after as) := by
    refine Transition.run_history (I := fun as s =>
      (∀ a ∈ as, a.Willing s₀.machine) → Keeps s₀.machine s.machine (Modes.after as))
      (fun _ => h₀.keeps) (fun as s a s' _ ih ha hall => ?_) as s hrun
    rw [machine_of_step ha, Modes.after, List.foldl_append]
    apply (ih fun b hb => hall b (List.mem_append_left _ hb)).step h₀
    exact hall a (List.mem_append_right _ List.mem_cons_self)
  exact (hkeeps hwilling).represents h₀

/-! ## An `atomrust-rw` that is cut short -/

inductive Trial
  /-- A command that exits with success, or a boot. -/
  | whole (a : Action)
  /-- An `atomrust-rw` takes its first `taken` statements. -/
  | cut (answers : Timer → Bool) (taken : Nat)

def Machine.undergo (m : Machine) : Trial → Option Machine
  | .whole a => some (m.act a)
  | .cut answers taken => some (exec m ((doRw m answers).take taken))

def Trial.Willing (m₀ : Machine) : Trial → Prop
  | .whole a => a.Willing m₀
  | .cut answers _ => ∀ t, m₀.root.enabled t → answers t

/-- Nothing is lost of what the card was. -/
structure Recoverable (m₀ m : Machine) : Prop where
  /-- A read-write boot finds the card as it was. -/
  readWrite : m.nextReadOnly = false → m₀.Holds m .rw
  /-- So does the next one after an `atomrust-rw` that goes through. -/
  restores : ∀ answers, (∀ t, m₀.root.enabled t → answers t) →
    m₀.Holds (exec m (doRw m answers)) .rw

theorem Card.act (h₀ : m₀.Installed) (h : Card Root.Undoing m₀ m) {a : Action}
    (ha : a.Willing m₀) : Card Root.Undoing m₀ (m.act a) := by
  cases a with
  | ro =>
      cases hactive : m.active with
      | true => simpa [Machine.act, doRo, hactive] using h
      | false =>
          cases hnext : m.nextReadOnly with
          | true =>
              simpa [Machine.act, doRo, hactive, h.plain.configured hactive, hnext] using h
          | false =>
              have hcard := h.ro_of_readWrite h₀ hactive hnext
              exact
                { plain := hcard.plain
                  shown := hcard.shown
                  mode := hcard.mode.imp_right fun hro => ⟨hro.1, hro.2.undoing⟩ }
  | rw answers => exact (h.rw ha h₀ (fun r => id) _).1
  | reboot covered => exact h.reboot h₀ covered

/-- However often `atomrust-rw` was cut short, and wherever, the next one that goes
through restores the card, and a read-write boot finds it restored. -/
theorem recoverable_of_run {es : List Trial} (h₀ : m₀.Installed)
    (hwilling : ∀ e ∈ es, e.Willing m₀)
    (hrun : Transition.run Machine.undergo m₀ es = some m) : Recoverable m₀ m := by
  have hcard : Card Root.Undoing m₀ m := by
    refine Transition.run_invariant_of (P := Trial.Willing m₀) (fun m e m' he h hstep => ?_)
      hwilling hrun (h₀.card _)
    cases e with
    | whole a =>
        obtain rfl : m.act a = m' := Option.some.inj hstep
        exact h.act h₀ he
    | cut answers taken =>
        obtain rfl : exec m ((doRw m answers).take taken) = m' := Option.some.inj hstep
        exact h.throughout_doRw he h₀ taken
  refine { readWrite := hcard.of_not_next h₀, restores := fun answers hanswers => ?_ }
  obtain ⟨hrestored, hnext⟩ := hcard.rw hanswers h₀ (fun r => id) Root.Undoing
  exact hrestored.of_not_next h₀ hnext

end WordLocale

/-! ## A card -/

section Posix
attribute [local instance] WordLocale.posix

/-- A freshly installed card, with a line for the boot partition. -/
def installed : Machine :=
  freshCard.machine.onRoot fun r => { r with fstab := [Fstab.bootLine ['d', 'e', 'f']] }

theorem installed_installed : installed.Installed where
  active := rfl
  shown := rfl
  next := by decide
  journald := rfl
  swap := rfl
  disabled := rfl
  nonempty := by decide
  trimmed := by decide
  editable := by
    unfold Root.Editable
    decide

/-- The user goes to read-only mode and back, but for the last boot. -/
def backAgain : List Action := [.ro, .reboot true, .rw fun _ => true]

/-- Until that boot, `do_status` announces a read-only one. -/
example : (Modes.after backAgain).next = .rw ∧ (Modes.after backAgain).status = ⟨.ro, .ro⟩ :=
  ⟨rfl, rfl⟩

theorem willing_backAgain : ∀ a ∈ backAgain, a.Willing installed := by
  simp [backAgain, Action.Willing]

theorem represents_of_run_backAgain :
    ∃ s, Transition.run step ⟨installed, none⟩ backAgain = some s ∧
      Represents installed s.machine (Modes.after backAgain) := by
  have hinstalled : (State.mk installed none).machine.Installed := installed_installed
  exact ⟨_, rfl, represents_of_run hinstalled willing_backAgain rfl⟩

/-- The first `atomrust-rw` stops within its loop, and the second one removes the record
as its last statement. -/
def cutTwice : List Trial :=
  [.whole .ro, .whole (.reboot false), .cut (fun _ => true) 4, .whole (.reboot true),
    .cut (fun _ => true) 8]

theorem willing_cutTwice : ∀ e ∈ cutTwice, e.Willing installed := by
  simp [cutTwice, Trial.Willing, Action.Willing]

theorem recoverable_of_run_cutTwice :
    ∃ m, Transition.run Machine.undergo installed cutTwice = some m ∧ m.nextReadOnly ∧
      m.root.disabled = none ∧ Recoverable installed m :=
  ⟨_, rfl, by decide, by decide, recoverable_of_run installed_installed willing_cutTwice rfl⟩

end Posix

end Overlay

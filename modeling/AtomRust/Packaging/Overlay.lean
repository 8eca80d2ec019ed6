-- SUMMARY: `atomrust-ro` and `atomrust-rw` as lists of statements over the files of the SD card, so that an invocation can stop after any of them.
import AtomRust.Packaging.Cmdline
import AtomRust.Packaging.Fstab

/-!
# The overlay script

An invocation decides at its beginning, from `overlay_active` and
`overlay_configured`, which statements it takes. Under `set -e` it either takes them
all and exits with success, or stops after some of them.

While the overlay is active `/` is a tmpfs, and the root filesystem of the card is at
`/media/root-ro`. What the commands change is on the card in either mode: `do_ro` has
nothing to do while the overlay is active, and `do_rw` works on `$LOWER` then.
-/

namespace Overlay

export Fstab (Mode)

open Cmdline (Line)

/-- `$TIMERS`. -/
inductive Timer
  | aptDaily
  | aptDailyUpgrade
  | manDb
  | dpkgDbBackup
  | e2scrubAll
  deriving DecidableEq, Repr

def timers : List Timer := [.aptDaily, .aptDailyUpgrade, .manDb, .dpkgDbBackup, .e2scrubAll]

/-- What the script touches on the root filesystem of the card. -/
structure Root where
  /-- `$JOURNALD_DROPIN` is there. -/
  journald : Bool
  /-- `$SWAP_DROPIN` is there. -/
  swap : Bool
  /-- `$STATE`, a timer a line. -/
  disabled : Option (List Timer)
  /-- The timers that systemd has enabled. -/
  enabled : Timer → Bool
  fstab : List Fstab.Line
  /-- `/etc/rpi` is a directory. -/
  rpi : Bool

structure Machine where
  /-- `overlay_active`. -/
  active : Bool
  root : Root
  /-- `cmdline.txt` of the boot partition. -/
  cmdline : List Line
  /-- `$CMDLINE` where overlayroot presents `$BOOT` as an overlay too. -/
  shown : Option (List Line)

/-- `$CMDLINE`. -/
def Machine.seen (m : Machine) : List Line := m.shown.getD m.cmdline

/-- `overlay_configured`. -/
def Machine.configured [WordLocale] (m : Machine) : Bool := Cmdline.grep m.seen

/-- Edit `$CMDLINE` in place. -/
def Machine.edit (m : Machine) (f : List Line → List Line) : Machine :=
  match m.shown with
  | none => { m with cmdline := f m.cmdline }
  | some file => { m with shown := some (f file) }

def Machine.onRoot (m : Machine) (f : Root → Root) : Machine := { m with root := f m.root }

/-- A command that can fail and changes nothing the script looks at later. -/
inductive Call
  | ensureInitramfs
  | mkdir
  | remountRoot
  | remountBoot
  | mountBoot
  | umountBoot
  | sync
  deriving DecidableEq, Repr

inductive Stmt
  | call (c : Call)
  | writeJournald
  | writeSwap
  /-- `: > "/$STATE"`. -/
  | clearState
  /-- `systemctl disable --quiet "$t"`. -/
  | disable (t : Timer)
  /-- `echo "$t" >> "/$STATE"`. -/
  | record (t : Timer)
  | fstabBootOpt (mode : Mode)
  | cmdlineAdd
  | removeDropins
  /-- `systemctl --root=… enable --quiet "$t" || true`, where `ok` says that it does
  what it should. -/
  | enable (t : Timer) (ok : Bool)
  | removeState
  | cmdlineDel
  /-- `cmdline_del_at` on the boot partition itself. -/
  | cmdlineDelAt
  deriving DecidableEq, Repr

def Stmt.exec (m : Machine) : Stmt → Machine
  | .call _ => m
  | .writeJournald => m.onRoot fun r => { r with journald := true }
  | .writeSwap => m.onRoot fun r => { r with swap := true }
  | .clearState => m.onRoot fun r => { r with disabled := some [] }
  | .disable t => m.onRoot fun r => { r with enabled := Function.update r.enabled t false }
  | .record t => m.onRoot fun r => { r with disabled := some (r.disabled.getD [] ++ [t]) }
  | .fstabBootOpt mode => m.onRoot fun r => { r with fstab := Fstab.bootOpt mode r.fstab }
  | .cmdlineAdd => m.edit Cmdline.add
  | .removeDropins => m.onRoot fun r => { r with journald := false, swap := false }
  | .enable t ok =>
      m.onRoot fun r => { r with enabled := Function.update r.enabled t (ok || r.enabled t) }
  | .removeState => m.onRoot fun r => { r with disabled := none }
  | .cmdlineDel => m.edit Cmdline.del
  | .cmdlineDelAt => { m with cmdline := Cmdline.del m.cmdline }

/-- Take the statements in order. An invocation that is cut short took the first few. -/
def exec (m : Machine) (stmts : List Stmt) : Machine := stmts.foldl Stmt.exec m

/-! ## The commands -/

/-- The loop of `do_ro` over `$TIMERS`. No round changes what the later ones ask. -/
def disableTimers (m : Machine) : List Stmt :=
  (timers.filter m.root.enabled).flatMap fun t => [.disable t, .record t]

/-- The loop of `do_rw` over the record that `do_ro` left. `answers` says which timers
systemd enables when asked. -/
def enableTimers (m : Machine) (answers : Timer → Bool) : List Stmt :=
  match m.root.disabled with
  | some ts => ts.map (fun t => .enable t (answers t)) ++ [.removeState]
  | none => []

/-- `with_boot_rw cmdline_add` or `with_boot_rw cmdline_del`. -/
def withBootRw (stmt : Stmt) : List Stmt :=
  [.call .remountBoot, stmt, .call .sync, .call .remountBoot]

/-- `edit_real_cmdline`. -/
def editRealCmdline (m : Machine) : List Stmt :=
  match m.shown with
  | none => withBootRw .cmdlineDel
  | some _ => [.call .mountBoot, .cmdlineDelAt, .call .sync, .call .umountBoot]

/-- `do_ro`. -/
def doRo [WordLocale] (m : Machine) : List Stmt :=
  if m.active then []
  else if m.configured then []
  else
    [.call .ensureInitramfs, .call .mkdir, .writeJournald] ++
      (if m.root.rpi then [.call .mkdir, .writeSwap] else []) ++
      .clearState :: disableTimers m ++
      .fstabBootOpt .ro :: withBootRw .cmdlineAdd ++ [.call .sync]

/-- What `do_rw` does after it found something to undo. -/
def undo (m : Machine) (answers : Timer → Bool) : List Stmt :=
  .removeDropins :: enableTimers m answers ++
    .fstabBootOpt .rw :: editRealCmdline m ++ [.call .sync, .call .remountRoot]

/-- `do_rw`. -/
def doRw [WordLocale] (m : Machine) (answers : Timer → Bool) : List Stmt :=
  if m.active then .call .remountRoot :: undo m answers
  else if m.configured then undo m answers
  else []

/-- A boot from the card. `covered` says whether overlayroot presents `$BOOT` as an
overlay. -/
def Machine.reboot [WordLocale] (m : Machine) (covered : Bool) : Machine :=
  { m with
    active := Cmdline.grep m.cmdline
    shown := if Cmdline.grep m.cmdline && covered then some m.cmdline else none }

/-! ## What the commands do to the kernel command line -/

/-- The statements that leave `cmdline.txt` alone. -/
def Stmt.keepsCmdline : Stmt → Bool
  | .cmdlineAdd | .cmdlineDel | .cmdlineDelAt => false
  | _ => true

@[simp] theorem exec_nil (m : Machine) : exec m [] = m := rfl

@[simp] theorem exec_cons (m : Machine) (stmt : Stmt) (stmts : List Stmt) :
    exec m (stmt :: stmts) = exec (stmt.exec m) stmts := rfl

theorem exec_append (m : Machine) (as bs : List Stmt) :
    exec m (as ++ bs) = exec (exec m as) bs := List.foldl_append

/-- What `root` is aside, two machines agree. -/
structure SameBoot (m m' : Machine) : Prop where
  active : m'.active = m.active
  cmdline : m'.cmdline = m.cmdline
  shown : m'.shown = m.shown

theorem SameBoot.refl (m : Machine) : SameBoot m m := ⟨rfl, rfl, rfl⟩

theorem SameBoot.trans {a b c : Machine} (h : SameBoot a b) (h' : SameBoot b c) : SameBoot a c :=
  ⟨h'.active.trans h.active, h'.cmdline.trans h.cmdline, h'.shown.trans h.shown⟩

theorem Stmt.exec_sameBoot {stmt : Stmt} (h : stmt.keepsCmdline) (m : Machine) :
    SameBoot m (stmt.exec m) := by
  cases stmt with
  | cmdlineAdd | cmdlineDel | cmdlineDelAt => cases h
  | _ => exact ⟨rfl, rfl, rfl⟩

theorem exec_sameBoot {stmts : List Stmt} (h : ∀ stmt ∈ stmts, stmt.keepsCmdline) (m : Machine) :
    SameBoot m (exec m stmts) := by
  induction stmts generalizing m with
  | nil => exact .refl m
  | cons stmt stmts ih =>
      exact (Stmt.exec_sameBoot (h stmt List.mem_cons_self) m).trans
        (ih (fun s hs => h s (List.mem_cons_of_mem _ hs)) _)

end Overlay

-- SUMMARY: What `atomrust-rw` restores after any sequence of `atomrust-ro` invocations, each of which may stop after any of its statements.
import AtomRust.Packaging.LastCommand

/-!
# Attempts at read-only mode

`do_ro` marks the mode in `cmdline.txt` last, and both commands look at that mark alone.
An attempt that stops before it leaves its changes on a card that `do_rw` takes for
untouched, and the next attempt starts its record with the timers that are enabled
then: one that an earlier attempt disabled is not among them.
-/

namespace Overlay

/-- What happens to a card in read-write mode. -/
inductive Event where
  /-- An `atomrust-ro` takes its first `taken` statements, and stops there. -/
  | ro (taken : Nat)
  | reboot (covered : Bool)

section WordLocale
variable [WordLocale]

/-- The statements that an `atomrust-ro` takes. -/
def attempt (m : Machine) (taken : Nat) : List Stmt := (doRo m).take taken

def Machine.attempts (m : Machine) : Event → Option Machine
  | .ro taken => if m.active then none else some (exec m (attempt m taken))
  | .reboot covered => some (m.reboot covered)

/-- The card before the first attempt. `$STATE` may be there. -/
structure Machine.Fresh (m : Machine) : Prop where
  active : m.active = false
  shown : m.shown = none
  next : m.nextReadOnly = false
  journald : m.root.journald = false
  swap : m.root.swap = false

/-- The timers are enabled that were, and the drop-ins are gone. -/
structure Machine.Restores (m₀ m : Machine) : Prop where
  enabled : m.root.enabled = m₀.root.enabled
  journald : m.root.journald = false
  swap : m.root.swap = false

/-- The event is an attempt that takes `stmt`. -/
def Takes (stmt : Stmt) (m : Machine) : Event → Prop
  | .ro taken => stmt ∈ attempt m taken
  | .reboot _ => False

/-- The attempt stops before it disables a timer, or gets as far as `cmdline.txt`. -/
def Heeds (m : Machine) (e : Event) : Prop := ∀ t, Takes (.disable t) m e → Takes .cmdlineAdd m e

/-- What the attempts have to be like so that the timers and the drop-ins come back. -/
def Undoable (m₀ : Machine) (es : List Event) (answers : Timer → Bool) : Prop :=
  Transition.Always Machine.attempts m₀ es (fun m e => ¬ Takes .writeJournald m e) ∨
    m₀.cmdline ≠ [] ∧ Transition.Sometime Machine.attempts m₀ es (Takes .cmdlineAdd) ∧
      Transition.Always Machine.attempts m₀ es Heeds ∧ ∀ t, m₀.root.enabled t → answers t

end WordLocale

/-! ## The statements of an attempt -/

/-- The statements of `do_ro`. -/
def Stmt.forward : Stmt → Bool
  | .removeDropins | .enable .. | .removeState | .cmdlineDel | .cmdlineDelAt => false
  | _ => true

variable {m m₀ : Machine} {stmts : List Stmt}

/-- What such statements do to the timers and the drop-ins. -/
structure Forward (m m' : Machine) (stmts : List Stmt) : Prop where
  enabled : ∀ t, m'.root.enabled t = (m.root.enabled t && !decide (.disable t ∈ stmts))
  journald : m'.root.journald ↔ m.root.journald ∨ .writeJournald ∈ stmts
  swap : m'.root.swap ↔ m.root.swap ∨ .writeSwap ∈ stmts

theorem exec_root_edit (m : Machine) (f : List Cmdline.Line → List Cmdline.Line) :
    (m.edit f).root = m.root := by
  unfold Machine.edit
  split <;> rfl

theorem Stmt.exec_forward {stmt : Stmt} (h : stmt.forward) (m : Machine) :
    Forward m (stmt.exec m) [stmt] := by
  cases stmt with
  | disable u =>
      refine ⟨fun t => ?_, by simp [Stmt.exec, Machine.onRoot], by simp [Stmt.exec, Machine.onRoot]⟩
      by_cases htu : t = u
      · simp [Stmt.exec, Machine.onRoot, htu]
      · simp [Stmt.exec, Machine.onRoot, htu]
  | removeDropins | enable | removeState | cmdlineDel | cmdlineDelAt => cases h
  | cmdlineAdd => constructor <;> simp [Stmt.exec, exec_root_edit]
  | _ => constructor <;> simp [Stmt.exec, Machine.onRoot]

theorem exec_forward (h : ∀ stmt ∈ stmts, stmt.forward) (m : Machine) :
    Forward m (exec m stmts) stmts := by
  induction stmts generalizing m with
  | nil => constructor <;> simp
  | cons stmt stmts ih =>
      have hhead := Stmt.exec_forward (h stmt List.mem_cons_self) m
      have htail := ih (fun s hs => h s (List.mem_cons_of_mem _ hs)) (stmt.exec m)
      refine ⟨fun t => ?_, ?_, ?_⟩
      · rw [exec_cons, htail.enabled, hhead.enabled]
        by_cases hstmt : .disable t = stmt <;> simp [hstmt]
      · rw [exec_cons, htail.journald, hhead.journald, List.mem_singleton, List.mem_cons, or_assoc]
      · rw [exec_cons, htail.swap, hhead.swap, List.mem_singleton, List.mem_cons, or_assoc]

theorem mem_timers (t : Timer) : t ∈ timers := by
  cases t <;> decide

theorem disable_mem_configure {t : Timer} : .disable t ∈ configure m ↔ m.root.enabled t := by
  have hloop : .disable t ∈ disableTimers m ↔ m.root.enabled t := by
    simp [disableTimers, mem_timers]
  cases hrpi : m.root.rpi <;> simp [configure, hrpi, hloop]

theorem configure_forward (m : Machine) : ∀ stmt ∈ configure m, stmt.forward := by
  have hloop : ∀ stmt ∈ disableTimers m, stmt.forward := by
    intro stmt hstmt
    obtain ⟨t, -, ht⟩ := List.mem_flatMap.mp hstmt
    obtain rfl | rfl : stmt = .disable t ∨ stmt = .record t := by simpa using ht
    · rfl
    · rfl
  intro stmt hstmt
  simp only [configure, List.mem_append, List.mem_cons] at hstmt
  cases hrpi : m.root.rpi <;> grind [Stmt.forward]

/-- The rounds of the loop record the timers that they disable. -/
theorem exec_disableTimers_disabled (ts : List Timer) {ds : List Timer} {m : Machine}
    (h : m.root.disabled = some ds) :
    (exec m (ts.flatMap fun t => [.disable t, .record t])).root.disabled = some (ds ++ ts) := by
  induction ts generalizing ds m with
  | nil => simpa using h
  | cons t ts ih =>
      have hround : (exec m [.disable t, .record t]).root.disabled = some (ds ++ [t]) := by
        simp [Stmt.exec, Machine.onRoot, h]
      rw [List.flatMap_cons, exec_append, ih hround, List.append_assoc]
      rfl

/-- The record is that of the timers that the attempt itself finds enabled. -/
theorem exec_configure_disabled (m : Machine) :
    (exec m (configure m)).root.disabled = some (timers.filter m.root.enabled) := by
  have hcleared : ∀ m' : Machine, (exec m' [.clearState]).root.disabled = some [] := fun _ => rfl
  have hsplit : configure m = ([.call .ensureInitramfs, .call .mkdir, .writeJournald] ++
      if m.root.rpi then [.call .mkdir, .writeSwap] else []) ++
        ([.clearState] ++ (disableTimers m ++ [.fstabBootOpt .ro])) := by
    simp [configure]
  rw [hsplit, exec_append, exec_append, exec_append]
  exact exec_disableTimers_disabled _ (hcleared _)

/-! ## One attempt -/

section WordLocale
variable [WordLocale]

/-- The card is in read-write mode, and the next boot is. -/
structure Machine.ReadWrite (m : Machine) : Prop where
  active : m.active = false
  shown : m.shown = none
  next : m.nextReadOnly = false

theorem Machine.ReadWrite.doRo (h : m.ReadWrite) :
    doRo m = configure m ++ .call .remountBoot ::
      .cmdlineAdd :: [.call .sync, .call .remountBoot, .call .sync] :=
  doRo_of_readWrite (fun _ => h.shown) h.active h.next

theorem attempt_forward (h : m.ReadWrite) (taken : Nat) :
    ∀ stmt ∈ attempt m taken, stmt.forward := by
  intro stmt hstmt
  have hmem := List.mem_of_mem_take hstmt
  rw [h.doRo] at hmem
  have hconfigure := configure_forward m stmt
  grind [Stmt.forward]

/-- What an attempt changes, it changes after it wrote the first drop-in. -/
theorem writeJournald_mem_attempt (h : m.ReadWrite) {taken : Nat} {stmt : Stmt}
    (hcall : ∀ c, stmt ≠ .call c) (hstmt : stmt ∈ attempt m taken) :
    .writeJournald ∈ attempt m taken := by
  have hfirst : ∃ rest, attempt m taken =
      (.call .ensureInitramfs :: .call .mkdir :: .writeJournald :: rest).take taken := by
    rw [attempt, h.doRo, configure]
    exact ⟨_, rfl⟩
  obtain ⟨rest, hrest⟩ := hfirst
  rw [hrest] at hstmt ⊢
  rcases taken with _ | _ | _ | taken
  · simp at hstmt
  · simp [hcall] at hstmt
  · simp [hcall] at hstmt
  · simp

theorem enabled_of_disable_mem (h : m.ReadWrite) {taken : Nat} {t : Timer}
    (ht : .disable t ∈ attempt m taken) : m.root.enabled t := by
  have hmem := List.mem_of_mem_take ht
  rw [h.doRo] at hmem
  exact disable_mem_configure.mp (by simpa using hmem)

/-- The attempt stops before it edits `cmdline.txt`, or has done all that comes before. -/
theorem attempt_cases (h : m.ReadWrite) (taken : Nat) :
    (∀ stmt ∈ attempt m taken, stmt.keepsCmdline) ∨
      ∃ n, attempt m taken = configure m ++ .call .remountBoot ::
        .cmdlineAdd :: [.call .sync, .call .remountBoot, .call .sync].take n := by
  have hkeeps : ∀ stmt ∈ configure m ++ [.call .remountBoot], stmt.keepsCmdline := by
    have hconfigure := configure_keepsCmdline m
    grind [Stmt.keepsCmdline]
  have hsplit : doRo m = (configure m ++ [.call .remountBoot]) ++
      .cmdlineAdd :: [.call .sync, .call .remountBoot, .call .sync] := by
    simp [h.doRo]
  rw [attempt, hsplit]
  generalize hbefore : configure m ++ [.call .remountBoot] = before at *
  by_cases hle : taken ≤ before.length
  · rw [List.take_append_of_le_length hle]
    exact .inl fun stmt hstmt => hkeeps stmt (List.mem_of_mem_take hstmt)
  · obtain ⟨n, rfl⟩ := Nat.exists_eq_add_of_lt (Nat.lt_of_not_le hle)
    rw [Nat.add_assoc, List.take_length_add_append, List.take_succ_cons, ← hbefore]
    exact .inr ⟨n, by simp⟩

/-- The attempt edits `cmdline.txt`. -/
theorem exec_marking (h : m.ReadWrite) {taken : Nat} (hmark : .cmdlineAdd ∈ attempt m taken) :
    (exec m (attempt m taken)).active = false ∧ (exec m (attempt m taken)).shown = none ∧
      (exec m (attempt m taken)).cmdline = Cmdline.add m.cmdline ∧
      (exec m (attempt m taken)).root = (exec m (configure m)).root := by
  rcases attempt_cases h taken with hkeeps | ⟨n, hattempt⟩
  · exact absurd (hkeeps _ hmark) Bool.false_ne_true
  · have hsame := exec_sameBoot (configure_keepsCmdline m) m
    have hcalls : ∀ m' : Machine,
        exec m' ([.call .sync, .call .remountBoot, .call .sync].take n) = m' := by
      intro m'
      match n with
      | 0 | 1 | 2 => rfl
      | _ + 3 => simp [Stmt.exec]
    rw [hattempt, exec_append, exec_cons, exec_cons, hcalls]
    simp [Stmt.exec, Machine.edit, hsame.shown, hsame.active, hsame.cmdline, h.shown, h.active]

/-! ## The attempts so far -/

section Runs
variable {es : List Event}

/-- Nobody has edited `cmdline.txt`. -/
structure Unmarked (m₀ : Machine) (es : List Event) (m : Machine) : Prop
    extends m.ReadWrite where
  cmdline : m.cmdline = m₀.cmdline
  unmarked : m₀.cmdline ≠ [] →
    ¬ Transition.Sometime Machine.attempts m₀ es (Takes .cmdlineAdd)
  journald : m.root.journald ↔
    Transition.Sometime Machine.attempts m₀ es (Takes .writeJournald)
  swap : m.root.swap → m.root.journald
  touched : m.root.enabled ≠ m₀.root.enabled → m.root.journald
  enabled_le : ∀ t, m.root.enabled t → m₀.root.enabled t
  enabled : m₀.cmdline ≠ [] →
    (m.root.enabled = m₀.root.enabled ↔ Transition.Always Machine.attempts m₀ es Heeds)

/-- An attempt has, and its record is that of the timers it found enabled. -/
structure Marked (m₀ : Machine) (es : List Event) (m : Machine) : Prop where
  plain : m.Plain
  next : m.nextReadOnly
  nonempty : m₀.cmdline ≠ []
  marked : Transition.Sometime Machine.attempts m₀ es (Takes .cmdlineAdd)
  wrote : Transition.Sometime Machine.attempts m₀ es (Takes .writeJournald)
  disabled : ∀ t, m.root.enabled t = false
  record : ∃ found : Timer → Bool, m.root.disabled = some (timers.filter found) ∧
    (∀ t, found t → m₀.root.enabled t) ∧
    (found = m₀.root.enabled ↔ Transition.Always Machine.attempts m₀ es Heeds)

theorem Machine.Fresh.unmarked (h : m₀.Fresh) : Unmarked m₀ [] m₀ where
  active := h.active
  shown := h.shown
  next := h.next
  cmdline := rfl
  unmarked _ := Transition.not_sometime_nil
  journald := by simp [h.journald, Transition.not_sometime_nil]
  swap := by simp [h.swap]
  touched hne := absurd rfl hne
  enabled_le _ := id
  enabled _ := by simp [Transition.always_nil]

theorem sometime_concat (hrun : Transition.run Machine.attempts m₀ es = some m) {e : Event}
    {stmt : Stmt} :
    Transition.Sometime Machine.attempts m₀ (es ++ [e]) (Takes stmt) ↔
      Transition.Sometime Machine.attempts m₀ es (Takes stmt) ∨ Takes stmt m e := by
  simp [Transition.sometime_concat, hrun]

theorem always_concat (hrun : Transition.run Machine.attempts m₀ es = some m) {e : Event} :
    Transition.Always Machine.attempts m₀ (es ++ [e]) Heeds ↔
      Transition.Always Machine.attempts m₀ es Heeds ∧ Heeds m e := by
  simp [Transition.always_concat, hrun]

/-- An attempt that does not edit `cmdline.txt` leaves the boot partition as it is. -/
theorem Unmarked.sameBoot (h : Unmarked m₀ es m) {taken : Nat}
    (hmark : m₀.cmdline ≠ [] → .cmdlineAdd ∉ attempt m taken) :
    SameBoot m (exec m (attempt m taken)) := by
  by_cases hadd : .cmdlineAdd ∈ attempt m taken
  · -- Without a line in it, `cmdline.txt` stays as it is.
    have hnil : m.cmdline = [] := by
      by_contra hne
      exact hmark (h.cmdline ▸ hne) hadd
    obtain ⟨hactive, hshown, hcmdline, -⟩ := exec_marking h.toReadWrite hadd
    refine ⟨hactive.trans h.active.symm, ?_, hshown.trans h.shown.symm⟩
    rw [hcmdline, hnil]
    rfl
  · rcases attempt_cases h.toReadWrite taken with hkeeps | ⟨n, hattempt⟩
    · exact exec_sameBoot hkeeps m
    · simp [hattempt] at hadd

/-- Each timer is enabled that was, just if it still is and the attempt disables none. -/
theorem Unmarked.enabled_attempt_iff (h : Unmarked m₀ es m) (taken : Nat) :
    (exec m (attempt m taken)).root.enabled = m₀.root.enabled ↔
      m.root.enabled = m₀.root.enabled ∧ ∀ t, .disable t ∉ attempt m taken := by
  have hforward := exec_forward (attempt_forward h.toReadWrite taken) m
  constructor
  · intro heq
    have hall : ∀ t, m₀.root.enabled t → m.root.enabled t ∧ .disable t ∉ attempt m taken := by
      intro t ht
      rw [← heq, hforward.enabled] at ht
      simpa using ht
    refine ⟨funext fun t => ?_, fun t ht => ?_⟩
    · exact Bool.eq_iff_iff.mpr ⟨h.enabled_le t, fun ht => (hall t ht).1⟩
    · exact (hall t (h.enabled_le t (enabled_of_disable_mem h.toReadWrite ht))).2 ht
  · rintro ⟨heq, hnone⟩
    funext t
    rw [hforward.enabled, heq]
    simp [hnone t]

/-- No attempt so far has done what counts on the boot partition, and this one does not. -/
theorem Unmarked.stopped (hrun : Transition.run Machine.attempts m₀ es = some m)
    (h : Unmarked m₀ es m) {taken : Nat}
    (hmark : m₀.cmdline ≠ [] → .cmdlineAdd ∉ attempt m taken) :
    Unmarked m₀ (es ++ [.ro taken]) (exec m (attempt m taken)) := by
  have hforward := exec_forward (attempt_forward h.toReadWrite taken) m
  have hsame := h.sameBoot hmark
  have hwrites : ∀ stmt ∈ attempt m taken, (∀ c, stmt ≠ .call c) →
      (exec m (attempt m taken)).root.journald := fun stmt hstmt hcall =>
    hforward.journald.mpr (.inr (writeJournald_mem_attempt h.toReadWrite hcall hstmt))
  refine
    { active := hsame.active.trans h.active
      shown := hsame.shown.trans h.shown
      next := ?_
      cmdline := hsame.cmdline.trans h.cmdline
      unmarked := ?_
      journald := ?_
      swap := ?_
      touched := ?_
      enabled_le := ?_
      enabled := ?_ }
  · rw [Machine.nextReadOnly, hsame.cmdline]
    exact h.next
  · intro hne
    rw [sometime_concat hrun, not_or]
    exact ⟨h.unmarked hne, hmark hne⟩
  · rw [hforward.journald, sometime_concat hrun, h.journald]
    rfl
  · intro hswap
    rcases hforward.swap.mp hswap with hswap | hswap
    · exact hforward.journald.mpr (.inl (h.swap hswap))
    · exact hwrites _ hswap (by simp)
  · intro hne
    by_contra hnot
    have hdisable : ∀ t, .disable t ∉ attempt m taken := fun t ht => hnot (hwrites _ ht (by simp))
    have heq : (exec m (attempt m taken)).root.enabled = m.root.enabled := by
      funext t
      simp [hforward.enabled, hdisable t]
    exact hnot (hforward.journald.mpr (.inl (h.touched (heq ▸ hne))))
  · intro t ht
    rw [hforward.enabled, Bool.and_eq_true] at ht
    exact h.enabled_le t ht.1
  · intro hne
    have hheeds : Heeds m (.ro taken) ↔ ∀ t, .disable t ∉ attempt m taken :=
      forall_congr' fun t => imp_iff_not (hmark hne)
    rw [always_concat hrun, ← h.enabled hne, hheeds]
    exact h.enabled_attempt_iff taken

/-- The attempt that edits `cmdline.txt`. -/
theorem Unmarked.marks (hrun : Transition.run Machine.attempts m₀ es = some m)
    (h : Unmarked m₀ es m) {taken : Nat} (hne : m₀.cmdline ≠ [])
    (hmark : .cmdlineAdd ∈ attempt m taken) :
    Marked m₀ (es ++ [.ro taken]) (exec m (attempt m taken)) := by
  obtain ⟨hactive, hshown, hcmdline, hroot⟩ := exec_marking h.toReadWrite hmark
  have hforward := exec_forward (configure_forward m) m
  refine
    { plain := fun _ => hshown
      next := ?_
      nonempty := hne
      marked := (sometime_concat hrun).mpr (.inr hmark)
      wrote := (sometime_concat hrun).mpr
        (.inr (writeJournald_mem_attempt h.toReadWrite (by simp) hmark))
      disabled := ?_
      record := ⟨m.root.enabled, ?_, h.enabled_le, ?_⟩ }
  · rw [Machine.nextReadOnly, hcmdline, Cmdline.grep_add, h.cmdline]
    simpa using hne
  · intro t
    rw [hroot, hforward.enabled]
    by_cases ht : m.root.enabled t
    · simp [disable_mem_configure.mpr ht]
    · simp [ht]
  · rw [hroot, exec_configure_disabled]
  · rw [always_concat hrun, h.enabled hne]
    exact ⟨fun hall => ⟨hall, fun _ _ => hmark⟩, And.left⟩

theorem Unmarked.reboot (hrun : Transition.run Machine.attempts m₀ es = some m)
    (h : Unmarked m₀ es m) (covered : Bool) :
    Unmarked m₀ (es ++ [.reboot covered]) (m.reboot covered) where
  active := h.next
  shown := by
    have hgrep : Cmdline.grep m.cmdline = false := h.next
    simp [Machine.reboot, hgrep]
  next := h.next
  cmdline := h.cmdline
  unmarked hne := by simpa [sometime_concat hrun, Takes] using h.unmarked hne
  journald := by
    rw [sometime_concat hrun]
    exact h.journald.trans (or_iff_left id).symm
  swap := h.swap
  touched := h.touched
  enabled_le := h.enabled_le
  enabled hne := by
    rw [always_concat hrun]
    exact (h.enabled hne).trans (and_iff_left fun t => False.elim).symm

/-- Once `cmdline.txt` is edited an attempt leaves at once. -/
theorem Marked.step (hrun : Transition.run Machine.attempts m₀ es = some m)
    (h : Marked m₀ es m) {e : Event} {m' : Machine} (hstep : m.attempts e = some m') :
    Marked m₀ (es ++ [e]) m' := by
  have hsame : m'.root = m.root ∧ m'.Plain ∧ m'.cmdline = m.cmdline ∧
      ∀ stmt, ¬ Takes stmt m e := by
    cases e with
    | ro taken =>
        obtain ⟨hactive, hm'⟩ := Option.ite_none_left_eq_some.mp hstep
        have hattempt : attempt m taken = [] := by
          simp [attempt, doRo, h.plain.configured (Bool.eq_false_iff.mpr hactive), h.next]
        obtain rfl : m = m' := by simpa [hattempt] using hm'
        exact ⟨rfl, h.plain, rfl, fun stmt => by simp [Takes, hattempt]⟩
    | reboot covered =>
        obtain rfl : m.reboot covered = m' := Option.some.inj hstep
        exact ⟨rfl, m.reboot_plain covered, rfl, fun stmt => id⟩
  obtain ⟨hroot, hplain, hcmdline, hnone⟩ := hsame
  refine
    { plain := hplain
      next := ?_
      nonempty := h.nonempty
      marked := (sometime_concat hrun).mpr (.inl h.marked)
      wrote := (sometime_concat hrun).mpr (.inl h.wrote)
      disabled := hroot ▸ h.disabled
      record := ?_ }
  · rw [Machine.nextReadOnly, hcmdline]
    exact h.next
  · obtain ⟨found, hrecord, hle, hfound⟩ := h.record
    refine ⟨found, hroot ▸ hrecord, hle, ?_⟩
    rw [hfound, always_concat hrun]
    exact ⟨fun hall => ⟨hall, fun t ht => absurd ht (hnone _)⟩, And.left⟩

theorem unmarked_or_marked (h₀ : m₀.Fresh) :
    ∀ es m, Transition.run Machine.attempts m₀ es = some m →
      Unmarked m₀ es m ∨ Marked m₀ es m := by
  refine Transition.run_history (.inl h₀.unmarked) fun es m e m' hrun h hstep => ?_
  rcases h with h | h
  · cases e with
    | ro taken =>
        obtain ⟨-, hm'⟩ := Option.ite_none_left_eq_some.mp hstep
        obtain rfl := Option.some.inj hm'
        by_cases hmark : m₀.cmdline ≠ [] ∧ .cmdlineAdd ∈ attempt m taken
        · exact .inr (h.marks hrun hmark.1 hmark.2)
        · exact .inl (h.stopped hrun (not_and.mp hmark))
    | reboot covered =>
        obtain rfl : m.reboot covered = m' := Option.some.inj hstep
        exact .inl (h.reboot hrun covered)
  · exact .inr (h.step hrun hstep)

end Runs

end WordLocale

/-! ## Going back -/

/-- The loop of `do_rw`. -/
theorem exec_enable (ts : List Timer) (answers : Timer → Bool) (m : Machine) :
    exec m (ts.map fun t => .enable t (answers t)) =
      m.onRoot fun r => { r with
        enabled := fun t => r.enabled t || decide (t ∈ ts) && answers t } := by
  induction ts generalizing m with
  | nil => simp [Machine.onRoot]
  | cons u ts ih =>
      rw [List.map_cons, exec_cons, ih]
      simp only [Stmt.exec, Machine.onRoot, Machine.mk.injEq, Root.mk.injEq, true_and, and_true]
      funext t
      by_cases htu : t = u
      · subst htu
        cases answers t <;> simp
      · simp [htu]

/-- `do_rw` enables what stands in the record, and removes the drop-ins. -/
theorem exec_undo_root {ts : List Timer} (h : m.root.disabled = some ts)
    (answers : Timer → Bool) :
    (exec m (undo m answers)).root.journald = false ∧
      (exec m (undo m answers)).root.swap = false ∧
      (exec m (undo m answers)).root.enabled =
        fun t => m.root.enabled t || decide (t ∈ ts) && answers t := by
  have hsplit : undo m answers = .removeDropins :: (ts.map fun t => .enable t (answers t)) ++
      (.removeState :: .fstabBootOpt .rw :: editRealCmdline m ++
        [.call .sync, .call .remountRoot]) := by
    simp [undo, enableTimers, h]
  rw [hsplit, exec_append, exec_cons, exec_enable]
  unfold editRealCmdline
  cases m.shown with
  | none => simp [withBootRw, Stmt.exec, Machine.onRoot, exec_root_edit]
  | some file => simp [Stmt.exec, Machine.onRoot]

section WordLocale
variable [WordLocale]

theorem Marked.doRw {es : List Event} (h : Marked m₀ es m) (answers : Timer → Bool) :
    exec m (doRw m answers) = exec m (undo m answers) := by
  unfold Overlay.doRw
  cases hactive : m.active with
  | true => rfl
  | false => simp [h.plain.configured hactive, h.next]

/-- `atomrust-rw` gives back the timers and takes away the drop-ins just when no attempt
has written the first drop-in, or when these hold: `cmdline.txt` has a line, some
attempt got as far as editing it, no attempt that stopped before had disabled a timer,
and systemd enables each timer that was enabled when it is asked to. -/
theorem restores_iff {es : List Event} (h₀ : m₀.Fresh)
    (hrun : Transition.run Machine.attempts m₀ es = some m) (answers : Timer → Bool) :
    m₀.Restores (exec m (doRw m answers)) ↔ Undoable m₀ es answers := by
  rcases unmarked_or_marked h₀ es m hrun with h | h
  · -- `do_rw` finds nothing to undo.
    have hconfigured : m.configured = false :=
      (Machine.Plain.configured (fun _ => h.shown) h.active).trans h.next
    have hnothing : exec m (Overlay.doRw m answers) = m := by
      simp [Overlay.doRw, h.active, hconfigured]
    have hwrote : m.root.journald = false ↔
        Transition.Always Machine.attempts m₀ es fun m e => ¬ Takes .writeJournald m e := by
      rw [Bool.eq_false_iff, Ne, h.journald, Transition.sometime_iff_not_always, not_not]
    rw [hnothing, Undoable, ← hwrote]
    constructor
    · exact fun hrestores => .inl hrestores.journald
    · rintro (hjournald | ⟨hne, hmarked, -⟩)
      · refine ⟨?_, hjournald, ?_⟩
        · by_contra htouched
          simp [h.touched htouched] at hjournald
        · by_contra hswap
          simp [h.swap ((Bool.not_eq_false _).mp hswap)] at hjournald
      · exact absurd hmarked (h.unmarked hne)
  · obtain ⟨found, hrecord, hle, hfound⟩ := h.record
    obtain ⟨hjournald, hswap, henabled⟩ := exec_undo_root hrecord answers
    have hwrote : ¬ Transition.Always Machine.attempts m₀ es
        fun m e => ¬ Takes .writeJournald m e :=
      Transition.sometime_iff_not_always.mp h.wrote
    have hback : ∀ t, (exec m (undo m answers)).root.enabled t = (found t && answers t) := by
      intro t
      simp [henabled, h.disabled, mem_timers]
    rw [h.doRw, Undoable, or_iff_right hwrote, ← hfound]
    constructor
    · intro hrestores
      have hboth : ∀ t, m₀.root.enabled t → found t ∧ answers t := fun t ht => by
        simpa [hback, ht] using congrFun hrestores.enabled t
      refine ⟨h.nonempty, h.marked, funext fun t => ?_, fun t ht => (hboth t ht).2⟩
      exact Bool.eq_iff_iff.mpr ⟨hle t, fun ht => (hboth t ht).1⟩
    · rintro ⟨-, -, rfl, hanswers⟩
      refine ⟨funext fun t => ?_, hjournald, hswap⟩
      rw [hback, Bool.and_eq_left_iff_imp]
      exact hanswers t

theorem freshCard_fresh : freshCard.machine.Fresh := ⟨rfl, rfl, rfl, rfl, rfl⟩

end WordLocale

section Posix
attribute [local instance] WordLocale.posix

/-- The first attempt stops after the swap drop-in, the second one goes through. -/
def secondTry : List Event := [.ro 5, .reboot false, .ro 22, .reboot true]

theorem restores_iff_secondTry :
    ∃ m, Transition.run Machine.attempts freshCard.machine secondTry = some m ∧
      m.active ∧ m.root.swap ∧ m.root.enabled .manDb = false ∧
      (freshCard.machine.Restores (exec m (doRw m fun _ => true)) ↔
        Undoable freshCard.machine secondTry fun _ => true) :=
  ⟨_, rfl, rfl, rfl, rfl, restores_iff freshCard_fresh rfl _⟩

/-- The first attempt stops after it disabled and recorded one timer. -/
def lateTry : List Event := [.ro 8, .ro 22, .reboot true]

theorem not_restores_lateTry :
    ∃ m, Transition.run Machine.attempts freshCard.machine lateTry = some m ∧ m.active ∧
      m.root.disabled = some [.aptDailyUpgrade, .manDb, .dpkgDbBackup, .e2scrubAll] ∧
      ¬ freshCard.machine.Restores (exec m (doRw m fun _ => true)) := by
  refine ⟨_, rfl, rfl, rfl, fun h => ?_⟩
  exact absurd (congrFun h.enabled .aptDaily) (by decide)

end Posix

end Overlay

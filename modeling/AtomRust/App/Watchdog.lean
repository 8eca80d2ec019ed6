-- SUMMARY: The frame watchdog: it ends the program only after a stall, and after every stall in time.
import AtomRust.Base.Transition

/-!
# The frame watchdog

`callbackH264` stores the time of each frame in `last_frame`, and the task of
`spawn_frame_watchdog` looks at it every five seconds. Between reading the clock and
storing what it read, a callback may be held up, and so may the task between loading
the value and reading the clock itself. Time passes in nanoseconds.
-/

namespace Watchdog

/-- `FRAME_STALL_TIMEOUT`, in milliseconds. -/
def frameStallTimeout : Nat := 15000

def nanosPerMilli : Nat := 1000000

/-- `sleep(Duration::from_secs(5))`. -/
def period : Nat := 5000 * nanosPerMilli

/-- `mono_millis`, with the time at which `START` was set. -/
def monoMillis (start now : Nat) : Nat := (now - start) / nanosPerMilli + 1

/-- The next statement of the task. -/
inductive Pc where
  /-- It is not spawned yet. -/
  | unspawned
  /-- The top of the loop. The time is a ghost. -/
  | loop (since : Nat)
  | sleep (deadline : Nat)
  /-- It has loaded `last`. The time is a ghost. -/
  | loaded (last loadedAt : Nat)
  /-- `std::process::exit(2)`. The times are ghosts. -/
  | exited (loadedAt checkedAt : Nat)

end Watchdog

open Watchdog (Pc frameStallTimeout monoMillis nanosPerMilli period)

structure Watchdog where
  now : Nat
  /-- `START`. -/
  start : Option Nat
  lastFrame : Nat
  /-- The callbacks that have read the clock and are about to store it, with the time at
  which they read it. -/
  callbacks : List Nat
  pc : Pc
  /-- A ghost: when the callbacks read the clock and when they stored it, newest first. -/
  stores : List (Nat × Nat)

namespace Watchdog

/-- The camera starts before the task. -/
def init (now : Nat) : Watchdog where
  now := now
  start := none
  lastFrame := 0
  callbacks := []
  pc := .unspawned
  stores := []

def exits (s : Watchdog) : Bool :=
  match s.pc with
  | .exited .. => true
  | _ => false

/-- `START.get_or_init(Instant::now)`. -/
def getOrInit (s : Watchdog) : Nat := s.start.getD s.now

/-- The clock is read, which sets `START` at the first time. -/
def touch (s : Watchdog) : Watchdog := { s with start := some s.getOrInit }

/-- A callback reads the clock. -/
def frame (s : Watchdog) : Watchdog :=
  { s.touch with callbacks := s.callbacks ++ [s.now] }

/-- One of the callbacks stores what it read. -/
def store (s : Watchdog) (i : Nat) : Option Watchdog :=
  (s.callbacks[i]?).map fun readAt =>
    { s with
      lastFrame := monoMillis s.getOrInit readAt
      callbacks := s.callbacks.eraseIdx i
      stores := (readAt, s.now) :: s.stores }

def spawn (s : Watchdog) : Option Watchdog :=
  match s.pc with
  | .unspawned => some { s with pc := .loop s.now }
  | _ => none

def sleep (s : Watchdog) : Option Watchdog :=
  match s.pc with
  | .loop _ => some { s with pc := .sleep (s.now + period) }
  | _ => none

/-- The sleep is over, and `last_frame` is loaded. -/
def load (s : Watchdog) : Option Watchdog :=
  match s.pc with
  | .sleep deadline =>
      if deadline ≤ s.now then some { s with pc := .loaded s.lastFrame s.now } else none
  | _ => none

/-- The task reads the clock and looks at what it has loaded. -/
def check (s : Watchdog) : Option Watchdog :=
  match s.pc with
  | .loaded last loadedAt =>
      let pc :=
        if last ≠ 0 ∧ frameStallTimeout < monoMillis s.getOrInit s.now - last then
          .exited loadedAt s.now
        else .loop s.now
      some { s.touch with pc }
  | _ => none

inductive Action where
  | pass (nanos : Nat)
  | frame
  | store (i : Nat)
  | spawn
  | sleep
  | load
  | check

/-- Behind the exit there is only time. -/
def step (s : Watchdog) : Action → Option Watchdog
  | .pass nanos => some { s with now := s.now + nanos }
  | .frame => if s.exits then none else some s.frame
  | .store i => if s.exits then none else s.store i
  | .spawn => s.spawn
  | .sleep => s.sleep
  | .load => s.load
  | .check => s.check

def system : Transition.System Watchdog Action where
  init s := ∃ now, s = init now
  step := step

/-! ## The clock -/

theorem lt_of_monoMillis {start a b d : Nat} (ha : start ≤ a)
    (h : d < monoMillis start b - monoMillis start a) : a + d * nanosPerMilli < b := by
  simp only [monoMillis, nanosPerMilli] at *
  omega

theorem monoMillis_of_le {start a b d : Nat} (ha : start ≤ a)
    (h : a + (d + 1) * nanosPerMilli ≤ b) : d < monoMillis start b - monoMillis start a := by
  simp only [monoMillis, nanosPerMilli] at *
  omega

/-! ## Only after a stall -/

/-- The value of `last_frame` behind these stores. -/
def lastOf (start : Nat) (stores : List (Nat × Nat)) : Nat :=
  (stores.head?.map fun e => monoMillis start e.1).getD 0

/-- The load at `loadedAt` saw the stores `older`, and not those that came later. -/
structure Saw (stores : List (Nat × Nat)) (loadedAt : Nat) (newer older : List (Nat × Nat)) :
    Prop where
  stores : stores = newer ++ older
  newer : ∀ e ∈ newer, loadedAt ≤ e.2
  older : ∀ e ∈ older, e.2 ≤ loadedAt

/-- More than 15 seconds before the check at `checkedAt`, a callback read the clock, and
of all that had stored what they read by the time of the load, it was the last. -/
def Stalled (stores : List (Nat × Nat)) (loadedAt checkedAt : Nat) : Prop :=
  ∃ readAt storedAt newer older, Saw stores loadedAt newer ((readAt, storedAt) :: older) ∧
    readAt + frameStallTimeout * nanosPerMilli < checkedAt

/-- `start` is the time at which `START` was set, if that matters. -/
def StartedAt (s : Watchdog) (start : Nat) : Prop := s.start = some start ∨ s.stores = []

structure Inv (s : Watchdog) : Prop where
  unset : s.start = none → s.callbacks = [] ∧ s.stores = []
  start : ∀ start, s.start = some start → start ≤ s.now
  callbacks : ∀ start readAt, s.start = some start → readAt ∈ s.callbacks →
    start ≤ readAt ∧ readAt ≤ s.now
  stores : ∀ start e, s.start = some start → e ∈ s.stores →
    start ≤ e.1 ∧ e.1 ≤ e.2 ∧ e.2 ≤ s.now
  lastFrame : ∀ start, s.StartedAt start → s.lastFrame = lastOf start s.stores
  loop : ∀ since, s.pc = .loop since → since ≤ s.now
  sleep : ∀ deadline, s.pc = .sleep deadline → deadline ≤ s.now + period
  loaded : ∀ last loadedAt, s.pc = .loaded last loadedAt → loadedAt ≤ s.now ∧
    ∃ newer older, Saw s.stores loadedAt newer older ∧
      ∀ start, s.StartedAt start → last = lastOf start older
  exited : ∀ loadedAt checkedAt, s.pc = .exited loadedAt checkedAt →
    Stalled s.stores loadedAt checkedAt

variable {s s' : Watchdog} {a : Action}

theorem inv_init (now : Nat) : (init now).Inv where
  unset _ := ⟨rfl, rfl⟩
  start := nofun
  callbacks := nofun
  stores := nofun
  lastFrame _ _ := rfl
  loop := nofun
  sleep := nofun
  loaded := nofun
  exited := nofun

theorem Saw.cons {stores newer older : List (Nat × Nat)} {loadedAt : Nat} {e : Nat × Nat}
    (h : Saw stores loadedAt newer older) (he : loadedAt ≤ e.2) :
    Saw (e :: stores) loadedAt (e :: newer) older where
  stores := congrArg (e :: ·) h.stores
  newer := List.forall_mem_cons.mpr ⟨he, h.newer⟩
  older := h.older

namespace Inv

/-- The clock was read for a store, and stored later. -/
theorem of_mem_stores {e : Nat × Nat} (h : s.Inv) (he : e ∈ s.stores) :
    s.getOrInit ≤ e.1 ∧ e.1 ≤ e.2 ∧ e.2 ≤ s.now := by
  cases hstart : s.start with
  | some start =>
      have hget : s.getOrInit = start := by simp [getOrInit, hstart]
      rw [hget]
      exact h.stores start e hstart he
  | none =>
      rw [(h.unset hstart).2] at he
      cases he

theorem startedAt (h : s.Inv) : s.StartedAt s.getOrInit := by
  unfold StartedAt getOrInit
  cases hstart : s.start with
  | some start => exact .inl rfl
  | none => exact .inr (h.unset hstart).2

theorem pass (h : s.Inv) (nanos : Nat) : Inv { s with now := s.now + nanos } where
  unset := h.unset
  start start hstart := Nat.le_add_right_of_le (h.start start hstart)
  callbacks start readAt hstart hmem := by
    obtain ⟨hle, hnow⟩ := h.callbacks start readAt hstart hmem
    exact ⟨hle, Nat.le_add_right_of_le hnow⟩
  stores start e hstart hmem := by
    obtain ⟨hle, hread, hnow⟩ := h.stores start e hstart hmem
    exact ⟨hle, hread, Nat.le_add_right_of_le hnow⟩
  lastFrame := h.lastFrame
  loop since hpc := Nat.le_add_right_of_le (h.loop since hpc)
  sleep deadline hpc := Nat.le_trans (h.sleep deadline hpc) (by simp)
  loaded last loadedAt hpc := by
    obtain ⟨hnow, hsaw⟩ := h.loaded last loadedAt hpc
    exact ⟨Nat.le_add_right_of_le hnow, hsaw⟩
  exited := h.exited

theorem touch (h : s.Inv) : s.touch.Inv := by
  cases hstart : s.start with
  | some start =>
      have hsame : s.touch = s := by
        cases s
        cases hstart
        rfl
      exact hsame ▸ h
  | none =>
      obtain ⟨hcallbacks, hstores⟩ := h.unset hstart
      refine
        { unset := nofun
          start := fun start hset => ?_
          callbacks := fun start readAt _ hmem => ?_
          stores := fun start e _ hmem => ?_
          lastFrame := fun start _ => h.lastFrame start (.inr hstores)
          loop := h.loop
          sleep := h.sleep
          loaded := fun last loadedAt hpc => ?_
          exited := h.exited }
      · have hset : s.start.getD s.now = start := Option.some.inj hset
        rw [← hset, hstart]
        exact Nat.le_refl _
      · have hmem : readAt ∈ s.callbacks := hmem
        rw [hcallbacks] at hmem
        cases hmem
      · have hmem : e ∈ s.stores := hmem
        rw [hstores] at hmem
        cases hmem
      · obtain ⟨hnow, newer, older, hsaw, hlast⟩ := h.loaded last loadedAt hpc
        exact ⟨hnow, newer, older, hsaw, fun start _ => hlast start (.inr hstores)⟩

theorem frame (h : s.Inv) : s.frame.Inv := by
  have ht := h.touch
  refine { ht with unset := nofun, callbacks := fun start readAt hstart hmem => ?_ }
  rcases List.mem_append.mp hmem with hold | hnew
  · exact ht.callbacks start readAt hstart hold
  · obtain rfl := List.mem_singleton.mp hnew
    exact ⟨ht.start start hstart, Nat.le_refl _⟩

theorem store {i : Nat} (h : s.Inv) (hexits : s.exits = false) (hstep : s.store i = some s') :
    s'.Inv := by
  obtain ⟨readAt, hget, rfl⟩ := Option.map_eq_some_iff.mp hstep
  have hmem : readAt ∈ s.callbacks := List.mem_of_getElem? hget
  obtain ⟨start, hstart⟩ : ∃ start, s.start = some start := by
    cases hstart : s.start with
    | some start => exact ⟨start, rfl⟩
    | none =>
        rw [(h.unset hstart).1] at hmem
        cases hmem
  obtain ⟨hread, hnow⟩ := h.callbacks start readAt hstart hmem
  have hget : s.getOrInit = start := by simp [getOrInit, hstart]
  refine
    { unset := fun hnone => absurd (hstart.symm.trans hnone) nofun
      start := h.start
      callbacks := fun start readAt hstart hmem => ?_
      stores := fun start' e hstart' hmem => ?_
      lastFrame := fun start' hstarted => ?_
      loop := h.loop
      sleep := h.sleep
      loaded := fun last loadedAt hpc => ?_
      exited := fun loadedAt checkedAt hpc => ?_ }
  · exact h.callbacks start readAt hstart (List.mem_of_mem_eraseIdx hmem)
  · rcases List.mem_cons.mp hmem with rfl | hmem
    · obtain rfl := Option.some.inj (hstart.symm.trans hstart')
      exact ⟨hread, hnow, Nat.le_refl _⟩
    · exact h.stores start' e hstart' hmem
  · rcases hstarted with hset | hnone
    · obtain rfl := Option.some.inj (hstart.symm.trans hset)
      simp [lastOf, hget]
    · cases hnone
  · obtain ⟨hloaded, newer, older, hsaw, hlast⟩ := h.loaded last loadedAt hpc
    refine ⟨hloaded, _, older, hsaw.cons hloaded, fun start' hstarted => hlast start' ?_⟩
    rcases hstarted with hset | hnone
    · exact .inl hset
    · cases hnone
  · have hpc : s.pc = .exited loadedAt checkedAt := hpc
    simp [exits, hpc] at hexits

theorem spawn (h : s.Inv) (hstep : s.spawn = some s') : s'.Inv := by
  unfold Watchdog.spawn at hstep
  split at hstep
  next =>
    obtain rfl := Option.some.inj hstep
    refine { h with loop := ?_, sleep := nofun, loaded := nofun, exited := nofun }
    rintro _ ⟨⟩
    exact Nat.le_refl _
  next => cases hstep

theorem onSleep (h : s.Inv) (hstep : s.sleep = some s') : s'.Inv := by
  unfold Watchdog.sleep at hstep
  split at hstep
  next =>
    obtain rfl := Option.some.inj hstep
    refine { h with loop := nofun, sleep := ?_, loaded := nofun, exited := nofun }
    rintro _ ⟨⟩
    exact Nat.le_refl _
  next => cases hstep

theorem load (h : s.Inv) (hstep : s.load = some s') : s'.Inv := by
  unfold Watchdog.load at hstep
  split at hstep
  next =>
    obtain ⟨-, hstep⟩ := Option.ite_none_right_eq_some.mp hstep
    obtain rfl := Option.some.inj hstep
    refine { h with loop := nofun, sleep := nofun, loaded := ?_, exited := nofun }
    rintro last loadedAt ⟨⟩
    refine ⟨Nat.le_refl _, [], s.stores, ⟨rfl, nofun, fun e he => ?_⟩, h.lastFrame⟩
    exact (h.of_mem_stores he).2.2
  next => cases hstep

/-- The task leaves only if what it loaded is 15 seconds old. -/
theorem stalled {last loadedAt : Nat} (h : s.Inv) (hpc : s.pc = .loaded last loadedAt)
    (hcond : last ≠ 0 ∧ frameStallTimeout < monoMillis s.getOrInit s.now - last) :
    Stalled s.stores loadedAt s.now := by
  obtain ⟨-, newer, older, hsaw, hlast⟩ := h.loaded last loadedAt hpc
  have hlast := hlast s.getOrInit h.startedAt
  cases older with
  | nil => exact absurd hlast hcond.1
  | cons e older =>
      have he : e ∈ s.stores := by simp [hsaw.stores]
      have hlast : last = monoMillis s.getOrInit e.1 := hlast
      rw [hlast] at hcond
      exact ⟨e.1, e.2, newer, older, hsaw, lt_of_monoMillis (h.of_mem_stores he).1 hcond.2⟩

theorem check (h : s.Inv) (hstep : s.check = some s') : s'.Inv := by
  unfold Watchdog.check at hstep
  split at hstep
  next last loadedAt hpc =>
    obtain rfl := Option.some.inj hstep
    have ht := h.touch
    split
    next hcond =>
      refine { ht with loop := nofun, sleep := nofun, loaded := nofun, exited := ?_ }
      rintro _ _ ⟨⟩
      exact h.stalled hpc hcond
    next =>
      refine { ht with loop := ?_, sleep := nofun, loaded := nofun, exited := nofun }
      rintro _ ⟨⟩
      exact Nat.le_refl _
  next => cases hstep

theorem step (h : s.Inv) (hstep : s.step a = some s') : s'.Inv := by
  cases a with
  | pass nanos => exact Option.some.inj hstep ▸ h.pass nanos
  | frame =>
      obtain ⟨-, hstep⟩ := Option.ite_none_left_eq_some.mp hstep
      exact Option.some.inj hstep ▸ h.frame
  | store i =>
      obtain ⟨hexits, hstep⟩ := Option.ite_none_left_eq_some.mp hstep
      exact h.store (Bool.not_eq_true _ ▸ hexits) hstep
  | spawn => exact h.spawn hstep
  | sleep => exact h.onSleep hstep
  | load => exact h.load hstep
  | check => exact h.check hstep

end Inv

theorem inv_of_reachable (h : system.Reachable s) : s.Inv :=
  h.invariant (fun _ ⟨now, hinit⟩ => hinit ▸ inv_init now) fun _ _ _ _ hi => hi.step

/-- The task ends the program only after a stall: no callback that had stored its time
when the task looked had read the clock in the 15 seconds before. -/
theorem stalled_of_reachable {loadedAt checkedAt : Nat} (h : system.Reachable s)
    (hexit : s.pc = .exited loadedAt checkedAt) : Stalled s.stores loadedAt checkedAt :=
  (inv_of_reachable h).exited loadedAt checkedAt hexit

/-! ## After every stall -/

/-- Time does not pass the task by: it is never more than `slack` late. -/
def Timely (slack : Nat) (s : Watchdog) : Action → Prop
  | .pass nanos =>
      match s.pc with
      | .loop due | .sleep due | .loaded _ due => s.now + nanos ≤ due + slack
      | .unspawned | .exited .. => True
  | _ => True

/-- The time within which a stall is noticed. -/
def notice (slack : Nat) : Nat := (frameStallTimeout + 1) * nanosPerMilli + period + 4 * slack

/-- Where the task may be, and how late it is, when no callback has read the clock since
the time `silent`. -/
def Due (slack silent : Nat) (s : Watchdog) : Prop :=
  let latest := silent + (frameStallTimeout + 1) * nanosPerMilli + slack
  match s.pc with
  | .unspawned => False
  | .loop since => since ≤ latest ∧ (s.now ≤ silent ∨ s.now ≤ since + slack)
  | .sleep deadline =>
      deadline ≤ latest + slack + period ∧ (s.now ≤ silent ∨ s.now ≤ deadline + slack)
  | .loaded last loadedAt =>
      loadedAt ≤ latest + 2 * slack + period ∧ (s.now ≤ silent ∨ s.now ≤ loadedAt + slack) ∧
        (last = s.lastFrame ∨ loadedAt ≤ silent)
  | .exited .. => True

/-- No callback has read the clock since the time `silent`. -/
structure Silent (slack silent : Nat) (s : Watchdog) : Prop where
  lastFrame : ∃ start readAt, s.start = some start ∧ start ≤ readAt ∧ readAt ≤ silent ∧
    s.lastFrame = monoMillis start readAt
  callbacks : s.callbacks = []
  now : silent ≤ s.now
  due : s.Due slack silent

namespace Silent
variable {slack silent : Nat}

theorem pass (h : Silent slack silent s) {nanos : Nat} (htimely : Timely slack s (.pass nanos)) :
    Silent slack silent { s with now := s.now + nanos } where
  lastFrame := h.lastFrame
  callbacks := h.callbacks
  now := Nat.le_add_right_of_le h.now
  due := by
    have hdue := h.due
    simp only [Due, Timely] at hdue htimely ⊢
    split at hdue
    next hpc => exact hdue.elim
    next hpc => simp only [hpc] at htimely ⊢; exact ⟨hdue.1, .inr htimely⟩
    next hpc => simp only [hpc] at htimely ⊢; exact ⟨hdue.1, .inr htimely⟩
    next hpc => simp only [hpc] at htimely ⊢; exact ⟨hdue.1, .inr htimely, hdue.2.2⟩
    next => trivial

theorem sleep (h : Silent slack silent s) (hstep : s.sleep = some s') :
    Silent slack silent s' := by
  unfold Watchdog.sleep at hstep
  split at hstep
  next since hpc =>
    obtain rfl := Option.some.inj hstep
    refine { h with due := ?_ }
    have hdue := h.due
    simp only [Due, hpc] at hdue ⊢
    omega
  next => cases hstep

theorem load (h : Silent slack silent s) (hstep : s.load = some s') :
    Silent slack silent s' := by
  unfold Watchdog.load at hstep
  split at hstep
  next deadline hpc =>
    obtain ⟨-, hstep⟩ := Option.ite_none_right_eq_some.mp hstep
    obtain rfl := Option.some.inj hstep
    refine { h with due := ?_ }
    have hdue := h.due
    simp only [Due, hpc] at hdue ⊢
    refine ⟨?_, .inr (Nat.le_add_right _ _), .inl trivial⟩
    omega
  next => cases hstep

theorem check (h : Silent slack silent s) (hstep : s.check = some s') :
    Silent slack silent s' := by
  obtain ⟨start, readAt, hstart, hle, hread, hlast⟩ := h.lastFrame
  have hget : s.getOrInit = start := by simp [getOrInit, hstart]
  unfold Watchdog.check at hstep
  split at hstep
  next last loadedAt hpc =>
    obtain rfl := Option.some.inj hstep
    refine ⟨⟨start, readAt, congrArg some hget, hle, hread, hlast⟩, h.callbacks, h.now, ?_⟩
    have hdue := h.due
    simp only [Due, hpc] at hdue
    obtain ⟨-, hnow, hfresh⟩ := hdue
    rw [hget]
    split
    next => exact trivial
    next hcond =>
      refine ⟨?_, .inr (Nat.le_add_right _ _)⟩
      rcases hfresh with rfl | hold
      · -- What was loaded is not old enough yet.
        rw [not_and, Nat.not_lt, hlast] at hcond
        have hyoung := hcond (Nat.succ_ne_zero _)
        by_contra hlate
        have hlt : frameStallTimeout < monoMillis start s.now - monoMillis start readAt := by
          apply monoMillis_of_le hle
          omega
        omega
      · omega
  next => cases hstep

theorem step (h : Silent slack silent s) (hframe : a ≠ .frame) (htimely : Timely slack s a)
    (hstep : s.step a = some s') : Silent slack silent s' := by
  cases a with
  | pass nanos => exact Option.some.inj hstep ▸ h.pass htimely
  | frame => exact absurd rfl hframe
  | store i =>
      obtain ⟨-, hstep⟩ := Option.ite_none_left_eq_some.mp hstep
      simp [store, h.callbacks] at hstep
  | spawn =>
      have hdue := h.due
      simp only [Watchdog.step, spawn] at hstep
      split at hstep
      next hpc => simp [Due, hpc] at hdue
      next => cases hstep
  | sleep => exact h.sleep hstep
  | load => exact h.load hstep
  | check => exact h.check hstep

end Silent

theorem Inv.silent {slack : Nat} (h : s.Inv) (hframe : s.lastFrame ≠ 0)
    (hcallbacks : s.callbacks = []) (hspawned : s.pc ≠ .unspawned) :
    Silent slack s.now s where
  lastFrame := by
    have hlast := h.lastFrame s.getOrInit h.startedAt
    cases hstores : s.stores with
    | nil => exact absurd (by rw [hlast, hstores]; rfl) hframe
    | cons e stores =>
        have he : e ∈ s.stores := by simp [hstores]
        obtain ⟨hle, hread, hnow⟩ := h.of_mem_stores he
        cases hstart : s.start with
        | none => exact absurd hstores (by simp [(h.unset hstart).2])
        | some start =>
            have hget : s.getOrInit = start := by simp [getOrInit, hstart]
            rw [hstores, hget] at hlast
            exact ⟨start, e.1, rfl, hget ▸ hle, Nat.le_trans hread hnow, hlast⟩
  callbacks := hcallbacks
  now := Nat.le_refl _
  due := by
    cases hpc : s.pc with
    | unspawned => exact absurd hpc hspawned
    | loop since =>
        have hsince := h.loop since hpc
        simp only [Due, hpc]
        omega
    | sleep deadline =>
        have hdeadline := h.sleep deadline hpc
        simp only [Due, hpc]
        omega
    | loaded last loadedAt =>
        have hloaded := (h.loaded last loadedAt hpc).1
        simp only [Due, hpc]
        omega
    | exited => simp only [Due, hpc]

/-- When no frame comes any more, the task ends the program within 20 seconds and what
it is late itself. -/
theorem exits_in_time {s₀ : Watchdog} {as : List Action} (slack : Nat)
    (h : system.Reachable s₀) (hframe : s₀.lastFrame ≠ 0) (hcallbacks : s₀.callbacks = [])
    (hspawned : s₀.pc ≠ .unspawned) (hrun : Transition.run step s₀ as = some s)
    (hsilent : ∀ a ∈ as, a ≠ .frame) (htimely : Transition.Always step s₀ as (Timely slack))
    (hnow : s₀.now + notice slack < s.now) : s.exits = true := by
  have hstart : Silent slack s₀.now s₀ :=
    (inv_of_reachable h).silent hframe hcallbacks hspawned
  have hquiet : Transition.Always step s₀ as fun t a => Timely slack t a ∧ a ≠ .frame :=
    fun bs a t hbs ht => ⟨htimely bs a t hbs ht, hsilent a (hbs.subset (by simp))⟩
  have hs := Transition.run_invariant_always
    (fun _ _ _ hP hi hstep => Silent.step hi hP.2 hP.1 hstep) hrun hquiet hstart
  have hdue := hs.due
  simp only [Due, notice] at hdue hnow
  cases hpc : s.pc with
  | exited => simp [exits, hpc]
  | unspawned => simp [hpc] at hdue
  | loop | sleep | loaded =>
      simp only [hpc] at hdue
      omega

/-! ## A camera that stops -/

theorem load_eq {deadline : Nat} (hpc : s.pc = .sleep deadline) (h : deadline ≤ s.now) :
    s.load = some { s with pc := .loaded s.lastFrame s.now } := by
  simp only [load, hpc, if_pos h]

theorem check_eq {last loadedAt : Nat} (hpc : s.pc = .loaded last loadedAt) (hlast : last ≠ 0)
    (h : frameStallTimeout < monoMillis s.getOrInit s.now - last) :
    s.check = some { s.touch with pc := .exited loadedAt s.now } := by
  simp only [check, hpc, if_pos (And.intro hlast h)]

/-- A frame has come and the task is at the top of its loop. -/
def oneFrame : Watchdog where
  now := 0
  start := some 0
  lastFrame := 1
  callbacks := []
  pc := .loop 0
  stores := [(0, 0)]

theorem reachable_oneFrame : system.Reachable oneFrame :=
  ⟨init 0, [.frame, .store 0, .spawn], ⟨0, rfl⟩, rfl⟩

/-- The task is late, and ends the program in its first round. -/
def lateRound (late rest : Nat) : List Action :=
  [.sleep, .pass late, .load, .check, .pass rest]

theorem run_lateRound (late : Nat) (hlate : (frameStallTimeout + 1) * nanosPerMilli ≤ late)
    (rest : Nat) :
    ∃ s, (Transition.run step oneFrame (lateRound late rest) = some s ∧
        Transition.Always step oneFrame (lateRound late rest) (Timely late)) ∧
      s.now = 0 + late + rest ∧ s.stores = [(0, 0)] ∧ s.pc = .exited (0 + late) (0 + late) := by
  have hload : 0 + period ≤ 0 + late := by
    simp only [period, frameStallTimeout, nanosPerMilli] at *
    omega
  have hold : frameStallTimeout < monoMillis 0 (0 + late) - monoMillis 0 0 :=
    monoMillis_of_le (Nat.le_refl 0) (by omega)
  let s₁ : Watchdog := { oneFrame with pc := .sleep (0 + period) }
  let s₂ : Watchdog := { s₁ with now := 0 + late }
  let s₃ : Watchdog := { s₂ with pc := .loaded 1 (0 + late) }
  let s₄ : Watchdog := { s₃ with pc := .exited (0 + late) (0 + late) }
  have hsleep : oneFrame.step .sleep = some s₁ := rfl
  have hpass : s₁.step (.pass late) = some s₂ := rfl
  have htimely : Timely late s₁ (.pass late) := by
    show 0 + late ≤ 0 + period + late
    omega
  have hload : s₂.step .load = some s₃ := load_eq (s := s₂) rfl hload
  have hcheck : s₃.step .check = some s₄ := check_eq (s := s₃) rfl Nat.one_ne_zero hold
  have hrest : s₄.step (.pass rest) = some { s₄ with now := 0 + late + rest } := rfl
  exact ⟨_, Transition.always_run_cons hsleep trivial (Transition.always_run_cons hpass htimely
    (Transition.always_run_cons hload trivial (Transition.always_run_cons hcheck trivial
    (Transition.always_run_cons hrest trivial ⟨rfl, Transition.always_nil⟩)))), rfl, rfl, rfl⟩

theorem stalled_of_reachable_lateRound :
    ∃ s, system.Reachable s ∧ s.stores = [(0, 0)] ∧
      Stalled s.stores 20000000000 20000000000 := by
  obtain ⟨s, ⟨hrun, -⟩, -, hstores, hpc⟩ := run_lateRound 20000000000 (by decide) 0
  rw [Nat.zero_add] at hpc
  have hreach := reachable_oneFrame.run hrun
  exact ⟨s, hreach, hstores, stalled_of_reachable hreach hpc⟩

theorem exits_in_time_lateRound :
    ∃ s, Transition.run step oneFrame (lateRound 20000000000 100000000000) = some s ∧
      s.exits = true := by
  obtain ⟨s, ⟨hrun, htimely⟩, hnow, -, -⟩ :=
    run_lateRound 20000000000 (by decide) 100000000000
  refine ⟨s, hrun, exits_in_time 20000000000 reachable_oneFrame Nat.one_ne_zero rfl nofun hrun
    ?_ htimely ?_⟩
  · simp [lateRound]
  · simp only [hnow, oneFrame, notice, period, frameStallTimeout, nanosPerMilli]
    omega

end Watchdog

-- SUMMARY: `TaskManager`: any number of `spawn` and `stop` calls, the tasks they start and stop, and the locks and channels between them.
import Mathlib.Logic.Function.Basic
import AtomRust.Base.Transition
import AtomRust.Runtime.Task

/-!
# The task manager

The state below is what the callers of `TaskManager::spawn`, the callers of
`TaskManager::stop`, the tasks and the owners of their `Task` handles share. A
call is a program counter that says which statement it executes next; one
action lets one call, task or owner take its next step, so a run is an
interleaving of all of them. Between two steps lies at least every point where
a mutex, a channel or the set of tasks is touched.

`hold_tx` senders are counted, as the channel counts them: the one in the
mutex, the clone in a `spawn` call, and the one in each context.
-/

namespace Runtime

/-- The holder of the `hold_tx` mutex: the `c`-th call of either function. -/
inductive Locker where
  | spawn (c : Nat)
  | stop (c : Nat)
  deriving DecidableEq

/-- The next statement of a `TaskManager::spawn` call. The guard of `hold_tx`
is a temporary of the `if let`, so the call holds it from `locked` until it
returns. -/
inductive SpawnPc where
  | lock
  /-- `.as_ref().cloned()` under the lock. -/
  | clone
  /-- `self.stop_tx.subscribe()`; the call owns a clone of `hold_tx`. -/
  | subscribe
  /-- `task::spawn`; the call also owns the receiver `stop_all_rx`. -/
  | spawn (stopAllRx : Nat)
  /-- The guard is dropped and the `Task` (`none` for `Task::none`) returned. -/
  | ret (task : Option Nat)
  | returned (task : Option Nat)
  deriving DecidableEq

/-- The next statement of a `TaskManager::stop` call. -/
inductive StopPc where
  | lock
  /-- `take()`, whose result is dropped at once. -/
  | take
  /-- The end of the statement, where the guard of `hold_tx` is dropped. -/
  | unlock
  /-- `self.stop_tx.send(())`. -/
  | send
  /-- `self.hold_rx.lock()`. -/
  | lockRx
  /-- `recv()` on the hold channel. -/
  | recv
  | ret
  | returned
  deriving DecidableEq

/-- The next statement of a `Task::stop` call on a handle. -/
inductive TaskStopPc where
  /-- No call is in progress; one may begin with `stop.send(())`. -/
  | send
  /-- `self.hold.take()`. -/
  | take
  /-- `hold.await`. -/
  | wait
  deriving DecidableEq

/-- A task the manager started. -/
structure TaskEntry where
  state : TaskState
  /-- The `Task` handle has not been dropped. -/
  handle : Bool
  stopping : TaskStopPc
  /-- Ghost: a `wait_for_stop` of this context has completed. -/
  consumed : Bool

structure TaskManager where
  /-- `hold_tx` is `Some`. -/
  holdTx : Bool
  holdTxLock : Option Locker
  /-- The number of senders of the hold channel. -/
  holds : Nat
  /-- The `stop` call that has locked `hold_rx`. -/
  holdRxLock : Option Nat
  /-- The stop signals broadcast so far. -/
  stopTx : List Unit
  tasks : List TaskEntry
  spawns : Nat → SpawnPc
  stops : Nat → StopPc

namespace TaskManager

/-- `TaskManager::new`. -/
def new : TaskManager where
  holdTx := true
  holdTxLock := none
  holds := 1
  holdRxLock := none
  stopTx := []
  tasks := []
  spawns := fun _ => .lock
  stops := fun _ => .lock

inductive Action where
  /-- The `c`-th call of `spawn` takes its next step. -/
  | spawn (c : Nat)
  /-- The `c`-th call of `stop` takes its next step. -/
  | stop (c : Nat)
  /-- A `wait_for_stop` of task `i` completes. -/
  | waitForStop (i : Nat) (src : StopSource)
  /-- The body of task `i` drops its context. -/
  | dropContext (i : Nat)
  /-- The owner of the handle of task `i` takes the next step of `Task::stop`. -/
  | taskStop (i : Nat)
  /-- The owner drops the handle of task `i`. -/
  | dropTask (i : Nat)

def setSpawn (m : TaskManager) (c : Nat) (pc : SpawnPc) : TaskManager :=
  { m with spawns := Function.update m.spawns c pc }

def setStop (m : TaskManager) (c : Nat) (pc : StopPc) : TaskManager :=
  { m with stops := Function.update m.stops c pc }

def setTask (m : TaskManager) (i : Nat) (t : TaskEntry) : TaskManager :=
  { m with tasks := m.tasks.set i t }

/-- `TaskManager::spawn`. -/
def spawnStep (m : TaskManager) (c : Nat) : Option TaskManager :=
  match m.spawns c with
  | .lock =>
      if m.holdTxLock = none then
        some ({ m with holdTxLock := some (.spawn c) }.setSpawn c .clone)
      else none
  | .clone =>
      if m.holdTx then some ({ m with holds := m.holds + 1 }.setSpawn c .subscribe)
      else some (m.setSpawn c (.ret none))
  | .subscribe => some (m.setSpawn c (.spawn (Broadcast.subscribe m.stopTx)))
  | .spawn stopAllRx =>
      let task : TaskEntry :=
        { state := .new stopAllRx, handle := true, stopping := .send, consumed := false }
      some ({ m with tasks := m.tasks ++ [task] }.setSpawn c (.ret (some m.tasks.length)))
  | .ret task => some ({ m with holdTxLock := none }.setSpawn c (.returned task))
  | .returned _ => none

/-- `TaskManager::stop`. -/
def stopStep (m : TaskManager) (c : Nat) : Option TaskManager :=
  match m.stops c with
  | .lock =>
      if m.holdTxLock = none then
        some ({ m with holdTxLock := some (.stop c) }.setStop c .take)
      else none
  | .take =>
      if m.holdTx then
        some ({ m with holdTx := false, holds := m.holds - 1 }.setStop c .unlock)
      else some (m.setStop c .unlock)
  | .unlock => some ({ m with holdTxLock := none }.setStop c .send)
  | .send => some ({ m with stopTx := m.stopTx ++ [()] }.setStop c .lockRx)
  | .lockRx =>
      if m.holdRxLock = none then some ({ m with holdRxLock := some c }.setStop c .recv)
      else none
  -- Nothing is ever sent on the hold channel: `recv` ends when its senders are gone.
  | .recv => if m.holds = 0 then some (m.setStop c .ret) else none
  | .ret => some ({ m with holdRxLock := none }.setStop c .returned)
  | .returned => none

/-- `Task::stop` on the handle of task `i`. -/
def taskStopStep (m : TaskManager) (i : Nat) (t : TaskEntry) : Option TaskManager :=
  match t.stopping with
  | .send => t.state.sendStop.map fun s => m.setTask i { t with state := s, stopping := .take }
  | .take =>
      let next := if t.state.hold then TaskStopPc.wait else .send
      some (m.setTask i { t with state := t.state.takeHold, stopping := next })
  | .wait => if t.state.released then some (m.setTask i { t with stopping := .send }) else none

def step (m : TaskManager) : Action → Option TaskManager
  | .spawn c => m.spawnStep c
  | .stop c => m.stopStep c
  | .waitForStop i src =>
      m.tasks[i]?.bind fun t =>
        if t.state.context then
          (t.state.waitForStop t.handle m.stopTx src).map fun s =>
            m.setTask i { t with state := s, consumed := true }
        else none
  | .dropContext i =>
      m.tasks[i]?.bind fun t =>
        if t.state.context then
          some ({ m with holds := m.holds - 1 }.setTask i { t with state := t.state.dropContext })
        else none
  | .taskStop i => m.tasks[i]?.bind fun t => if t.handle then m.taskStopStep i t else none
  | .dropTask i =>
      m.tasks[i]?.bind fun t =>
        if t.handle ∧ t.stopping = .send then some (m.setTask i { t with handle := false })
        else none

/-- The runs of a task manager. -/
def system : Transition.System TaskManager Action where
  init m := m = new
  step := step

end TaskManager

end Runtime

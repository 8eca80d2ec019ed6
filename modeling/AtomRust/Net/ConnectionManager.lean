-- SUMMARY: `ConnectionManager`: the connections it spawns, the map, the worker that removes those that report their end, and `stop`.
import Mathlib.Data.List.AList
import AtomRust.Base.Transition
import AtomRust.Runtime.Task
import AtomRust.Net.Connection

/-!
# The connection manager

The state is what `ConnectionManager`, its worker and the connection workers
share. Every `spawn` call starts one connection, so a number names both; what is
inside a connection is a `Connection`. `spawn` and `stop` take `&mut self`, so at
most one of them is in progress.

`log` is a ghost that records, newest first, what happened to the map.
-/

open Connection (Incoming)
open Runtime (StopSource TaskState)

structure ConnectionId where
  value : Nat
  deriving DecidableEq

structure ConnectionIdGenerator where
  next : Nat

namespace ConnectionIdGenerator

/-- `ConnectionIdGenerator::new`. -/
def new : ConnectionIdGenerator := ⟨0⟩

/-- The counter is a `usize`. A run has fewer than `2^64` calls: the addition of the next
one would overflow. -/
def generate (g : ConnectionIdGenerator) : Option (ConnectionId × ConnectionIdGenerator) :=
  if g.next + 1 < UInt64.size then some (⟨g.next⟩, ⟨g.next + 1⟩) else none

end ConnectionIdGenerator

namespace ConnectionManager

/-- The life of a connection worker's task. -/
inductive Life where
  /-- `spawn` returned `Task::none` and dropped the future. -/
  | refused
  /-- Not polled yet. -/
  | spawned
  /-- In `Connection::run`. -/
  | running
  /-- The future has finished, and its context is dropped. -/
  | finished
  deriving DecidableEq

/-- A `spawn` call: the connection it has started under `id`. -/
structure SpawnCall (μ κ ρ : Type) where
  id : ConnectionId
  conn : Connection μ κ ρ
  task : TaskState
  life : Life
  /-- The `Connection`, and so its `Task`, has not been dropped. -/
  handle : Bool

/-- The next statement of the manager's worker. -/
inductive WorkerPc where
  /-- The `select!` of `ConnectionManager::run`. -/
  | select
  /-- `connections.lock().await.remove(&connection_id)`. -/
  | remove (id : ConnectionId)
  /-- The loop is left. -/
  | left
  /-- The context is dropped, or there never was one. -/
  | ended
  deriving DecidableEq

/-- The next statement of a `ConnectionManager::stop` call. -/
inductive StopPc where
  /-- `stop.send(())` in `Task::stop`, on the worker. -/
  | stop
  /-- `self.hold.take()`. -/
  | takeHold
  /-- `hold.await`. -/
  | wait
  /-- The head of the `for` loop. -/
  | drain
  /-- The same three in `Connection::close`, on connection `i`. -/
  | close (i : Nat)
  | closeTakeHold (i : Nat)
  | closeWait (i : Nat)
  /-- The end of a round, where the `Connection` is dropped. -/
  | closed (i : Nat)
  deriving DecidableEq

/-- An entry of the log. -/
inductive Record where
  /-- `spawn` put the connection into the map. -/
  | inserted (id : ConnectionId)
  /-- The worker acted on the notice of the connection. -/
  | removed (id : ConnectionId)
  deriving DecidableEq

end ConnectionManager

open ConnectionManager (Life Record SpawnCall StopPc WorkerPc)

structure ConnectionManager (μ κ ρ : Type) where
  /-- The runtime still starts tasks. -/
  accepting : Bool
  /-- The stop broadcast of the runtime. -/
  stopAll : List Unit
  generator : ConnectionIdGenerator
  spawns : List (SpawnCall μ κ ρ)
  /-- The `spawn` call in progress, which has started its connection. -/
  spawning : Option Nat
  /-- The map, with a connection's number for its `Connection`. -/
  connections : AList fun _ : ConnectionId => Nat
  /-- The state channel. Whether a notice is `Disconnected` or `Closed` makes no
  difference to the worker; `true` is `Disconnected`. -/
  notices : List (ConnectionId × Bool)
  worker : TaskState
  workerPc : WorkerPc
  /-- The `stop` call in progress. -/
  stopPc : Option StopPc
  log : List Record

namespace ConnectionManager
variable {μ κ ρ : Type}

/-- `ConnectionManager::start`. -/
def start (accepted : Bool) (stopAll : List Unit) : ConnectionManager μ κ ρ where
  accepting := accepted
  stopAll := stopAll
  generator := .new
  spawns := []
  spawning := none
  connections := ∅
  notices := []
  worker := if accepted then .new (Broadcast.subscribe stopAll) else .none
  workerPc := if accepted then .select else .ended
  stopPc := none
  log := []

def note (m : ConnectionManager μ κ ρ) (r : Record) : ConnectionManager μ κ ρ :=
  { m with log := r :: m.log }

def setSpawn (m : ConnectionManager μ κ ρ) (i : Nat) (u : SpawnCall μ κ ρ) :
    ConnectionManager μ κ ρ :=
  { m with spawns := m.spawns.set i u }

/-- The `Connection` that is connection `i`, if any, is dropped. -/
def dropConnection (m : ConnectionManager μ κ ρ) (i : Option Nat) : ConnectionManager μ κ ρ :=
  match i, i.bind fun i => m.spawns[i]? with
  | some i, some u => m.setSpawn i { u with handle := false }
  | _, _ => m

/-! ## Spawning -/

/-- What `Connection::start` makes of `id`. -/
def started (m : ConnectionManager μ κ ρ) (id : ConnectionId) : SpawnCall μ κ ρ where
  id := id
  conn := .start
  task := if m.accepting then .new (Broadcast.subscribe m.stopAll) else .none
  life := if m.accepting then .spawned else .refused
  handle := true

/-- A `spawn` call up to the end of `Connection::start`. -/
def spawn (m : ConnectionManager μ κ ρ) : Option (ConnectionManager μ κ ρ) :=
  m.generator.generate.map fun (id, generator) =>
    { m with generator, spawns := m.spawns ++ [m.started id], spawning := some m.spawns.length }

/-- `self.connections.lock().await.insert(id, connection)`, which drops the old value
if there is one. -/
def insert (m : ConnectionManager μ κ ρ) : Option (ConnectionManager μ κ ρ) :=
  m.spawning.bind fun i =>
    m.spawns[i]?.map fun u =>
      { m.dropConnection (m.connections.lookup u.id) with
        spawning := none
        connections := m.connections.insert u.id i }.note (.inserted u.id)

/-! ## The connection workers -/

/-- The future of connection `i` is polled for the first time. -/
def poll (m : ConnectionManager μ κ ρ) (i : Nat) (u : SpawnCall μ κ ρ) :
    Option (ConnectionManager μ κ ρ) :=
  if u.life = .spawned then some (m.setSpawn i { u with life := .running }) else none

/-- The steps of a connection that concern nobody else. -/
def ofConnection : Connection.Action μ κ ρ → Bool
  | .waitForStop | .exit => false
  | _ => true

/-- Connection `i` takes a step of its own. -/
def connStep (m : ConnectionManager μ κ ρ) (i : Nat) (u : SpawnCall μ κ ρ)
    (a : Connection.Action μ κ ρ) : Option (ConnectionManager μ κ ρ) :=
  if u.life = .running ∧ ofConnection a then
    (u.conn.step a).map fun conn => m.setSpawn i { u with conn }
  else none

/-- Connection `i` sees a stop signal in its `select!`. -/
def connStop (m : ConnectionManager μ κ ρ) (i : Nat) (u : SpawnCall μ κ ρ) (src : StopSource) :
    Option (ConnectionManager μ κ ρ) :=
  if u.life = .running then
    (u.task.waitForStop u.handle m.stopAll src).bind fun task =>
      (u.conn.step .waitForStop).map fun conn => m.setSpawn i { u with conn, task }
  else none

/-- Connection `i` sends its notice. A notice that the manager's worker never takes
is lost in the implementation and stays in the channel here. -/
def connExit (m : ConnectionManager μ κ ρ) (i : Nat) (u : SpawnCall μ κ ρ) :
    Option (ConnectionManager μ κ ρ) :=
  match u.life, u.conn.pc with
  | .running, .left disconnected =>
      (u.conn.step .exit).map fun conn =>
        { m.setSpawn i { u with conn } with notices := m.notices ++ [(u.id, disconnected)] }
  | _, _ => none

/-- The future of connection `i` finishes. -/
def finish (m : ConnectionManager μ κ ρ) (i : Nat) (u : SpawnCall μ κ ρ) :
    Option (ConnectionManager μ κ ρ) :=
  match u.life, u.conn.pc with
  | .running, .ended _ =>
      some (m.setSpawn i { u with task := u.task.dropContext, life := .finished })
  | _, _ => none

/-! ## The manager's worker -/

/-- `connection_state_rx.recv()`. The manager itself keeps a sender, so the channel
does not break. -/
def recv (m : ConnectionManager μ κ ρ) : Option (ConnectionManager μ κ ρ) :=
  match m.workerPc, m.notices with
  | .select, (id, _) :: notices => some { m with workerPc := .remove id, notices }
  | _, _ => none

def remove (m : ConnectionManager μ κ ρ) : Option (ConnectionManager μ κ ρ) :=
  match m.workerPc with
  | .remove id =>
      some ({ m.dropConnection (m.connections.lookup id) with
        workerPc := .select
        connections := m.connections.erase id }.note (.removed id))
  | _ => none

def waitForStop (m : ConnectionManager μ κ ρ) (src : StopSource) :
    Option (ConnectionManager μ κ ρ) :=
  if m.workerPc = .select then
    (m.worker.waitForStop true m.stopAll src).map fun worker => { m with worker, workerPc := .left }
  else none

def exit (m : ConnectionManager μ κ ρ) : Option (ConnectionManager μ κ ρ) :=
  if m.workerPc = .left then some { m with worker := m.worker.dropContext, workerPc := .ended }
  else none

/-! ## Stopping -/

/-- One step of `stop`, the choice of the next connection apart. -/
def stopStep (m : ConnectionManager μ κ ρ) : StopPc → Option (ConnectionManager μ κ ρ)
  | .stop => m.worker.sendStop.map fun worker => { m with worker, stopPc := some .takeHold }
  | .takeHold =>
      let next := if m.worker.hold then StopPc.wait else .drain
      some { m with worker := m.worker.takeHold, stopPc := some next }
  | .wait => if m.worker.released then some { m with stopPc := some .drain } else none
  | .drain => if m.connections.entries.isEmpty then some { m with stopPc := none } else none
  | .close i =>
      m.spawns[i]?.bind fun u =>
        u.task.sendStop.map fun task =>
          { m.setSpawn i { u with task } with stopPc := some (.closeTakeHold i) }
  | .closeTakeHold i =>
      m.spawns[i]?.map fun u =>
        let next := if u.task.hold then StopPc.closeWait i else .closed i
        { m.setSpawn i { u with task := u.task.takeHold } with stopPc := some next }
  | .closeWait i =>
      m.spawns[i]?.bind fun u =>
        if u.task.released then some { m with stopPc := some (.closed i) } else none
  | .closed i => some { m.dropConnection (some i) with stopPc := some .drain }

/-- The next round of the `for` loop over `drain()`, which yields entries in any
order. -/
def drain (m : ConnectionManager μ κ ρ) (id : ConnectionId) : Option (ConnectionManager μ κ ρ) :=
  (m.connections.lookup id).map fun i =>
    { m with connections := m.connections.erase id, stopPc := some (.close i) }

/-! ## The system -/

inductive Action (μ κ ρ : Type) where
  /-- A new call of `spawn`. -/
  | spawn
  | insert
  | poll (i : Nat)
  | conn (i : Nat) (a : Connection.Action μ κ ρ)
  | connStop (i : Nat) (src : StopSource)
  | connExit (i : Nat)
  | finish (i : Nat)
  | recv
  | remove
  | waitForStop (src : StopSource)
  | exit
  /-- A new call of `stop`. -/
  | beginStop
  | stop
  | drain (id : ConnectionId)
  /-- The runtime begins to stop, and starts no more tasks. -/
  | refuse
  /-- The runtime sends a stop signal to all tasks. -/
  | stopAll

/-- No call is in progress. -/
def quiet (m : ConnectionManager μ κ ρ) : Bool := m.spawning.isNone && m.stopPc.isNone

def step (m : ConnectionManager μ κ ρ) : Action μ κ ρ → Option (ConnectionManager μ κ ρ)
  | .spawn => if m.quiet then m.spawn else none
  | .insert => m.insert
  | .poll i => m.spawns[i]?.bind (m.poll i)
  | .conn i a => m.spawns[i]?.bind fun u => m.connStep i u a
  | .connStop i src => m.spawns[i]?.bind fun u => m.connStop i u src
  | .connExit i => m.spawns[i]?.bind (m.connExit i)
  | .finish i => m.spawns[i]?.bind (m.finish i)
  | .recv => m.recv
  | .remove => m.remove
  | .waitForStop src => m.waitForStop src
  | .exit => m.exit
  | .beginStop => if m.quiet then some { m with stopPc := some .stop } else none
  | .stop => m.stopPc.bind m.stopStep
  | .drain id => if m.stopPc = some .drain then m.drain id else none
  | .refuse => some { m with accepting := false }
  | .stopAll => some { m with stopAll := m.stopAll ++ [()] }

/-- The runs of a connection manager. -/
def system (μ κ ρ : Type) : Transition.System (ConnectionManager μ κ ρ) (Action μ κ ρ) where
  init m := ∃ accepted stopAll, m = start accepted stopAll
  step := step

end ConnectionManager

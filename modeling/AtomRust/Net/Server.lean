-- SUMMARY: `Server`: the task that listens for clients, and the connection manager inside it.
import AtomRust.Net.ConnectionManager

/-!
# The server

The connection manager belongs to the task of the server: `run` starts it, has it spawn a
connection for every client, and stops it before it comes to its own end.

The runtime is not part of the state. Whether it still starts tasks and what it has
broadcast are arguments of the steps that ask for it; the connection manager keeps its
own record of both.
-/

open Runtime (StopSource TaskState)

namespace Server

/-- The next statement of the server's task. -/
inductive WorkerPc where
  /-- There is no task: `Server::start` has not been called, or `spawn` has refused it. -/
  | absent
  /-- Not polled yet. -/
  | spawned
  /-- The `select!` of `Server::run`. -/
  | select
  /-- `connection_manager.spawn(incoming).await`. -/
  | spawn
  /-- `connection_manager.stop().await`. -/
  | stop
  /-- The future has finished, and its context is dropped. -/
  | finished
  deriving DecidableEq

namespace WorkerPc

/-- The future exists. -/
def alive : WorkerPc → Bool
  | .spawned | .select | .spawn | .stop => true
  | .absent | .finished => false

/-- The worker is in its loop, or will be. -/
def running : WorkerPc → Bool
  | .spawned | .select | .spawn => true
  | .absent | .stop | .finished => false

end WorkerPc

end Server

open Server (WorkerPc)

structure Server (μ κ ρ : Type) where
  worker : TaskState
  workerPc : WorkerPc
  /-- `connection_manager`. -/
  connections : Option (ConnectionManager μ κ ρ)

namespace Server
variable {μ κ ρ : Type}

/-- Before `Server::start`. -/
def absent : Server μ κ ρ where
  worker := .none
  workerPc := .absent
  connections := none

/-- `Server::start`, with a listener. -/
def start (accepted : Bool) (stopAll : List Unit) : Server μ κ ρ where
  worker := if accepted then .new (Broadcast.subscribe stopAll) else .none
  workerPc := if accepted then .spawned else .absent
  connections := none

/-- The connection manager takes a step. -/
def onConnections (s : Server μ κ ρ) (a : ConnectionManager.Action μ κ ρ) : Option (Server μ κ ρ) :=
  s.connections.bind fun m => (m.step a).map fun m => { s with connections := some m }

/-! ## The task -/

/-- `ConnectionManager::start(handler, runtime)`. -/
def poll (s : Server μ κ ρ) (accepting : Bool) (stopAll : List Unit) : Option (Server μ κ ρ) :=
  if s.workerPc = .spawned then
    some { s with workerPc := .select, connections := some (.start accepting stopAll) }
  else none

/-- `listener.accept()` yields a client. When it yields an error, that is logged. -/
def accept (s : Server μ κ ρ) : Option (Server μ κ ρ) :=
  if s.workerPc = .select then
    (s.onConnections .spawn).map fun s => { s with workerPc := .spawn }
  else none

/-- `spawn` returns. -/
def insert (s : Server μ κ ρ) : Option (Server μ κ ρ) :=
  if s.workerPc = .spawn then
    (s.onConnections .insert).map fun s => { s with workerPc := .select }
  else none

/-- The loop is left, and `stop` called. -/
def waitForStop (s : Server μ κ ρ) (stopAll : List Unit) (src : StopSource) :
    Option (Server μ κ ρ) :=
  if s.workerPc = .select then
    (s.worker.waitForStop true stopAll src).bind fun worker =>
      (s.onConnections .beginStop).map fun s => { s with worker, workerPc := .stop }
  else none

/-- `stop` goes on. -/
def stop (s : Server μ κ ρ) : Option (Server μ κ ρ) :=
  if s.workerPc = .stop then s.onConnections .stop else none

def drain (s : Server μ κ ρ) (id : ConnectionId) : Option (Server μ κ ρ) :=
  if s.workerPc = .stop then s.onConnections (.drain id) else none

/-- `stop` has returned, and the future finishes. -/
def finish (s : Server μ κ ρ) : Option (Server μ κ ρ) :=
  if s.workerPc = .stop ∧ s.connections.all fun m => m.stopPc.isNone then
    some { s with worker := s.worker.dropContext, workerPc := .finished }
  else none

/-! ## The steps -/

/-- What the connection manager and its connections do by themselves. -/
def ofConnections : ConnectionManager.Action μ κ ρ → Bool
  | .poll _ | .conn .. | .connStop .. | .connExit _ | .finish _ => true
  | .recv | .remove | .waitForStop _ | .exit => true
  | .spawn | .insert | .beginStop | .stop | .drain _ | .refuse | .stopAll => false

inductive Action (μ κ ρ : Type) where
  | poll
  | accept
  | insert
  | waitForStop (src : StopSource)
  | stop
  | drain (id : ConnectionId)
  | finish
  | connections (a : ConnectionManager.Action μ κ ρ)

def step (s : Server μ κ ρ) (accepting : Bool) (stopAll : List Unit) :
    Action μ κ ρ → Option (Server μ κ ρ)
  | .poll => s.poll accepting stopAll
  | .accept => s.accept
  | .insert => s.insert
  | .waitForStop src => s.waitForStop stopAll src
  | .stop => s.stop
  | .drain id => s.drain id
  | .finish => s.finish
  | .connections a => if ofConnections a then s.onConnections a else none

/-- The runtime begins to stop. -/
def refuse (s : Server μ κ ρ) : Server μ κ ρ := (s.onConnections .refuse).getD s

/-- The runtime sends a stop signal to all tasks. -/
def signal (s : Server μ κ ρ) : Server μ κ ρ := (s.onConnections .stopAll).getD s

/-- Connection `i` is busy with a request. -/
def serving (s : Server μ κ ρ) (i : Nat) : Bool :=
  s.connections.any fun m => m.spawns[i]?.any fun u =>
    match u.conn.pc with
    | .handle _ => true
    | _ => false

end Server

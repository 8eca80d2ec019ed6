-- SUMMARY: The tasks of the program: what each future that is passed to `TaskManager::spawn` does, and where it drops its context.
import AtomRust.Runtime.Shutdown
import AtomRust.Session.Lifetime

/-!
# The program

A `Program` is the task manager together with the futures that it was given. Of a
future it is said in which order it comes to its loop, to the notice it sends and to
the drop of its context; what it does inside its loop is left open, up to the kinds of
deeds that others can see.

The parameters of a future are dropped when it finishes, so a body that keeps its
context to the end finishes with `dropContext`.
-/

open Runtime (StopSource TaskManager)

namespace Program

/-- What others can see of a future. -/
inductive Deed where
  /-- It sends on a channel. -/
  | send
  /-- It writes to a client. -/
  | write
  /-- It publishes to MQTT. -/
  | publish
  deriving DecidableEq

inductive Stmt where
  /-- A loop. With `stops` it has a branch for `wait_for_stop`, with `breaks` another
  way out. -/
  | loop (stops breaks : Bool) (deeds : List Deed)
  /-- Something else that is awaited. -/
  | call (deeds : List Deed)
  /-- The message on the state channel that says how the future ended. -/
  | notify
  | dropContext
  deriving DecidableEq

/-- The calls of `spawn`, by what they spawn. -/
inductive Kind where
  /-- `Server::run`. -/
  | server
  /-- `ConnectionManager::run`. -/
  | connectionManager
  /-- `Connection::run`. -/
  | connection
  /-- `SessionManager::run`. -/
  | sessionManager
  /-- `Session::run`. -/
  | session (target : Session.SessionSetupTarget)
  /-- `SourceManager::run`. -/
  | sourceManager
  /-- `Source::run`. -/
  | source
  /-- `run_mqtt_rate_publish`. -/
  | ratePublisher
  /-- `run_periodic_mqtt_publish`. -/
  | periodicPublisher
  /-- `run_mqtt_publish`. -/
  | mqttPublisher
  deriving DecidableEq

/-! ## Bodies -/

/-- The worker of a manager. -/
def managerBody : List Stmt := [.loop true true [], .dropContext]

def exitStmt : Session.ExitStep → Option Stmt
  | .dropContext => some .dropContext
  | .sendStopped => some .notify
  | .dropStreamStateTx | .dropControlRx => none

/-- With TCP, the context is an argument of `run_tcp_interleaved`. -/
def sessionBody : Session.SessionSetupTarget → List Stmt
  | .rtpTcp => .loop true true [.send] :: Session.tcpExit.filterMap exitStmt
  | .rtpUdp => Session.udpExit.filterMap exitStmt

/-- The closures `|_task_context| ..` of `create_mqtt_publisher` and its like make the
future and drop the context when they return, before the future is polled. -/
def publisherBody (breaks : Bool) : List Stmt := [.dropContext, .loop false breaks [.publish]]

def Kind.body : Kind → List Stmt
  -- `ConnectionManager::start`, the loop, and `connection_manager.stop()`.
  | .server => [.call [], .loop true false [], .call [.send], .dropContext]
  | .connectionManager => managerBody
  | .connection => [.loop true true [.send, .write], .notify, .dropContext]
  | .sessionManager => managerBody
  | .session target => sessionBody target
  | .sourceManager => managerBody
  | .source => [.loop true true [.send], .notify, .dropContext]
  | .ratePublisher => publisherBody true
  | .periodicPublisher => publisherBody false
  | .mqttPublisher => publisherBody true

/-- A future, with what it has left to do. -/
structure Body where
  kind : Kind
  todo : List Stmt
  deriving DecidableEq

/-- The future has finished. -/
def Body.finished (b : Body) : Bool := b.todo.isEmpty

end Program

open Program (Body Deed Kind Stmt)

structure Program where
  tasks : TaskManager
  /-- The body of each task. -/
  bodies : List Body
  /-- What the bodies did, newest first. -/
  log : List (Nat × Deed)

namespace Program

def start : Program where
  tasks := .new
  bodies := []
  log := []

def setTodo (p : Program) (i : Nat) (b : Body) (todo : List Stmt) : Program :=
  { p with bodies := p.bodies.set i { b with todo } }

/-- The `c`-th call of `spawn`, for a future of kind `kind`, takes its next step. -/
def spawn (p : Program) (c : Nat) (kind : Kind) : Option Program :=
  (p.tasks.step (.spawn c)).map fun tasks =>
    { p with
      tasks
      bodies :=
        if p.tasks.tasks.length < tasks.tasks.length then
          p.bodies ++ [{ kind, todo := kind.body }]
        else p.bodies }

/-- Body `i` acts in the loop or the call that it is in. -/
def act (p : Program) (i : Nat) (deed : Deed) : Option Program :=
  p.bodies[i]?.bind fun b =>
    match b.todo with
    | .loop _ _ deeds :: _ | .call deeds :: _ =>
        if deed ∈ deeds then some { p with log := (i, deed) :: p.log } else none
    | _ => none

/-- Body `i` goes on to its next statement, without a stop signal. -/
def advance (p : Program) (i : Nat) : Option Program :=
  p.bodies[i]?.bind fun b =>
    match b.todo with
    | .loop _ breaks _ :: todo => if breaks then some (p.setTodo i b todo) else none
    | .call _ :: todo => some (p.setTodo i b todo)
    | .notify :: todo => some { p.setTodo i b todo with log := (i, .send) :: p.log }
    | .dropContext :: todo =>
        (p.tasks.step (.dropContext i)).map fun tasks => { p.setTodo i b todo with tasks }
    | [] => none

/-- Body `i` leaves its loop on a stop signal. -/
def waitForStop (p : Program) (i : Nat) (src : StopSource) : Option Program :=
  p.bodies[i]?.bind fun b =>
    match b.todo with
    | .loop true _ _ :: todo =>
        (p.tasks.step (.waitForStop i src)).map fun tasks => { p.setTodo i b todo with tasks }
    | _ => none

/-- A step of the task manager that is nobody's body's. -/
def onTasks (p : Program) (a : TaskManager.Action) : Option Program :=
  (p.tasks.step a).map fun tasks => { p with tasks }

inductive Action where
  | spawn (c : Nat) (kind : Kind)
  /-- The `c`-th call of `TaskManager::stop` takes its next step. -/
  | stop (c : Nat)
  | act (i : Nat) (deed : Deed)
  | advance (i : Nat)
  | waitForStop (i : Nat) (src : StopSource)
  /-- The owner of the handle of task `i` takes the next step of `Task::stop`. -/
  | taskStop (i : Nat)
  /-- The owner drops the handle of task `i`. -/
  | dropTask (i : Nat)
  deriving DecidableEq

def step (p : Program) : Action → Option Program
  | .spawn c kind => p.spawn c kind
  | .stop c => p.onTasks (.stop c)
  | .act i deed => p.act i deed
  | .advance i => p.advance i
  | .waitForStop i src => p.waitForStop i src
  | .taskStop i => p.onTasks (.taskStop i)
  | .dropTask i => p.onTasks (.dropTask i)

/-- The runs of a program. -/
def system : Transition.System Program Action where
  init p := p = start
  step := step

end Program

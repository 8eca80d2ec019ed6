-- SUMMARY: `Connection::run`: the queue of a connection, its batches and its responses, one await point at a time.
import AtomRust.Session.Worker

/-!
# Connections

A connection's worker has two sources, the queue on which sessions put media and
the requests of the client, and one sink. `Pc` says at which `await` it stands
and `step` takes it to the next one; what the socket, the client and the request
handler do is in the action.

`wire` is a ghost. It records, newest first, what was handed to the outbound
writer and when the writer had written all of it. Nothing else is said of the
socket: a write that fails or times out ends the loop.
-/

namespace Connection

/-- `MEDIA_QUEUE_LEN`. -/
def mediaQueueLen : Nat := 1024

/-- `MAX_BATCH`. -/
def maxBatch : Nat := 64

/-- How a write ends. `failed` stands for every other error, and `timeout` for
`WRITE_TIMEOUT`. -/
inductive WriteResult where
  | ok
  | connectionReset
  | brokenPipe
  | failed
  | timeout
  deriving DecidableEq

/-- What `inbound.next()` yields. -/
inductive Incoming (κ : Type) where
  | message (request : κ)
  | interleaved
  /-- `None`. -/
  | eof
  | connectionReset
  /-- Every other error. -/
  | failed

/-- The next statement of the worker, for media `μ`, requests `κ` and responses
`ρ`. -/
inductive Pc (μ κ ρ : Type) where
  /-- The `select!`. -/
  | select
  /-- `outbound.feed(message)`, with `rounds` rounds of the `for` loop to come. -/
  | feed (message : μ) (rounds : Nat)
  /-- `response_rx.try_recv()`, with `rounds` more rounds to come. -/
  | tryRecv (rounds : Nat)
  /-- `outbound.flush()`. -/
  | flush
  /-- `handler.handle(&request, &response_tx)`. -/
  | handle (request : κ)
  /-- The first half of `outbound.send(response)`. -/
  | send (response : ρ)
  /-- The second half, which flushes. -/
  | flushResponse
  /-- The loop is left. -/
  | left (disconnected : Bool)
  /-- The state is reported and the receiver of the queue dropped. -/
  | ended (disconnected : Bool)

/-- The worker is not busy with a request, and has not left its loop. -/
def Pc.idle {μ κ ρ : Type} : Pc μ κ ρ → Bool
  | .select | .feed .. | .tryRecv _ | .flush => true
  | .handle _ | .send _ | .flushResponse | .left _ | .ended _ => false

/-- What the outbound writer got. -/
inductive Sent (μ ρ : Type) where
  | media (message : μ)
  | response (response : ρ)
  /-- All of it is written. -/
  | flushed

end Connection

open Connection (Incoming Pc Sent WriteResult maxBatch mediaQueueLen)
open Session (TrySendResult)

structure Connection (μ κ ρ : Type) where
  queue : List μ
  pc : Pc μ κ ρ
  wire : List (Sent μ ρ)

namespace Connection
variable {μ κ ρ : Type}

/-- `Connection::start`. -/
def start : Connection μ κ ρ where
  queue := []
  pc := .select
  wire := []

def note (conn : Connection μ κ ρ) (sent : Sent μ ρ) : Connection μ κ ρ :=
  { conn with wire := sent :: conn.wire }

/-- The receiver of the queue exists. -/
def receives (conn : Connection μ κ ρ) : Bool :=
  match conn.pc with
  | .ended _ => false
  | _ => true

/-! ## The queue -/

/-- What `try_send` returns. -/
def trySend (conn : Connection μ κ ρ) : TrySendResult :=
  if !conn.receives then .closed else if mediaQueueLen ≤ conn.queue.length then .full else .ok

def enqueue (conn : Connection μ κ ρ) (message : μ) : Connection μ κ ρ :=
  { conn with queue := conn.queue ++ [message] }

/-! ## Media -/

/-- `disconnected` after a batch that was not written. -/
def mediaDisconnects : WriteResult → Bool
  | .connectionReset | .brokenPipe | .timeout => true
  | .ok | .failed => false

/-- `response_rx.recv()`. The worker itself keeps a sender, so the channel does
not break. -/
def recv (conn : Connection μ κ ρ) : Option (Connection μ κ ρ) :=
  match conn.pc, conn.queue with
  | .select, message :: queue => some { conn with pc := .feed message (maxBatch - 1), queue }
  | _, _ => none

def feed (conn : Connection μ κ ρ) (r : WriteResult) : Option (Connection μ κ ρ) :=
  match conn.pc with
  | .feed message rounds =>
      if r = .ok then
        let pc := match rounds with
          | 0 => Pc.flush
          | rounds + 1 => .tryRecv rounds
        some ({ conn with pc }.note (.media message))
      else some { conn with pc := .left (mediaDisconnects r) }
  | _ => none

def tryRecv (conn : Connection μ κ ρ) : Option (Connection μ κ ρ) :=
  match conn.pc, conn.queue with
  | .tryRecv rounds, message :: queue => some { conn with pc := .feed message rounds, queue }
  | .tryRecv _, [] => some { conn with pc := .flush }
  | _, _ => none

def flush (conn : Connection μ κ ρ) (r : WriteResult) : Option (Connection μ κ ρ) :=
  match conn.pc with
  | .flush =>
      if r = .ok then some ({ conn with pc := .select }.note .flushed)
      else some { conn with pc := .left (mediaDisconnects r) }
  | _ => none

/-! ## Requests -/

/-- `disconnected` after a response that was not written. Here a broken pipe and a
timeout count as errors of the server. -/
def responseDisconnects : WriteResult → Bool
  | .connectionReset => true
  | .ok | .brokenPipe | .failed | .timeout => false

/-- `inbound.next()`. -/
def next (conn : Connection μ κ ρ) (incoming : Incoming κ) : Option (Connection μ κ ρ) :=
  match conn.pc with
  | .select =>
      match incoming with
      | .message request => some { conn with pc := .handle request }
      | .interleaved => some conn
      | .eof | .connectionReset => some { conn with pc := .left true }
      | .failed => some { conn with pc := .left false }
  | _ => none

/-- The handler comes back with a response. -/
def respond (conn : Connection μ κ ρ) (response : ρ) : Option (Connection μ κ ρ) :=
  match conn.pc with
  | .handle _ => some { conn with pc := .send response }
  | _ => none

def send (conn : Connection μ κ ρ) (r : WriteResult) : Option (Connection μ κ ρ) :=
  match conn.pc with
  | .send response =>
      if r = .ok then some ({ conn with pc := .flushResponse }.note (.response response))
      else some { conn with pc := .left (responseDisconnects r) }
  | _ => none

def flushResponse (conn : Connection μ κ ρ) (r : WriteResult) : Option (Connection μ κ ρ) :=
  match conn.pc with
  | .flushResponse =>
      if r = .ok then some ({ conn with pc := .select }.note .flushed)
      else some { conn with pc := .left (responseDisconnects r) }
  | _ => none

/-! ## The end -/

/-- `task_context.wait_for_stop()`. -/
def waitForStop (conn : Connection μ κ ρ) : Option (Connection μ κ ρ) :=
  match conn.pc with
  | .select => some { conn with pc := .left false }
  | _ => none

/-- The worker reports how it ended. The messages in the queue are dropped with
its receiver. -/
def exit (conn : Connection μ κ ρ) : Option (Connection μ κ ρ) :=
  match conn.pc with
  | .left disconnected => some { conn with pc := .ended disconnected, queue := [] }
  | _ => none

inductive Action (μ κ ρ : Type) where
  /-- The queue accepts a message. -/
  | enqueue (message : μ)
  | recv
  | feed (r : WriteResult)
  | tryRecv
  | flush (r : WriteResult)
  | next (incoming : Incoming κ)
  | respond (response : ρ)
  | send (r : WriteResult)
  | flushResponse (r : WriteResult)
  | waitForStop
  | exit

def step (conn : Connection μ κ ρ) : Action μ κ ρ → Option (Connection μ κ ρ)
  | .enqueue message => if conn.trySend = .ok then some (conn.enqueue message) else none
  | .recv => conn.recv
  | .feed r => conn.feed r
  | .tryRecv => conn.tryRecv
  | .flush r => conn.flush r
  | .next incoming => conn.next incoming
  | .respond response => conn.respond response
  | .send r => conn.send r
  | .flushResponse r => conn.flushResponse r
  | .waitForStop => conn.waitForStop
  | .exit => conn.exit

/-! ## What a step does -/

theorem respond_eq_some {conn conn' : Connection μ κ ρ} {response : ρ} :
    conn.respond response = some conn' ↔
      ∃ request, conn.pc = .handle request ∧ conn' = { conn with pc := .send response } := by
  unfold respond
  split
  next request hpc => simp [hpc, eq_comm]
  next hpc =>
    simp only [reduceCtorEq, false_iff]
    rintro ⟨request, h, -⟩
    exact hpc request h

/-- The ways in which a step leads from `conn` to `conn'`. -/
inductive Effect (conn conn' : Connection μ κ ρ) : Action μ κ ρ → Prop where
  | enqueued {message : μ} (h : conn' = conn.enqueue message) : Effect conn conn' (.enqueue message)
  | taken {a : Action μ κ ρ} {message : μ} {rounds : Nat} {queue : List μ}
      (pc : conn.pc = .select ∨ conn.pc = .tryRecv rounds) (hqueue : conn.queue = message :: queue)
      (h : conn' = { conn with pc := .feed message rounds, queue }) : Effect conn conn' a
  | fed {a : Action μ κ ρ} {message : μ} {rounds : Nat} {next : Pc μ κ ρ}
      (pc : conn.pc = .feed message rounds)
      (hnext : next = .flush ∨ ∃ rounds, next = .tryRecv rounds)
      (h : conn' = { conn with pc := next }.note (.media message)) : Effect conn conn' a
  | drained {a : Action μ κ ρ} {rounds : Nat} (pc : conn.pc = .tryRecv rounds)
      (h : conn' = { conn with pc := .flush }) : Effect conn conn' a
  | flushed {a : Action μ κ ρ} (pc : conn.pc = .flush ∨ conn.pc = .flushResponse)
      (h : conn' = { conn with pc := .select }.note .flushed) : Effect conn conn' a
  | requested {a : Action μ κ ρ} {request : κ} (pc : conn.pc = .select)
      (h : conn' = { conn with pc := .handle request }) : Effect conn conn' a
  | ignored {a : Action μ κ ρ} (pc : conn.pc = .select) (h : conn' = conn) : Effect conn conn' a
  | responded {request : κ} {response : ρ} (pc : conn.pc = .handle request)
      (h : conn' = { conn with pc := .send response }) : Effect conn conn' (.respond response)
  | sent {a : Action μ κ ρ} {response : ρ} (pc : conn.pc = .send response)
      (h : conn' = { conn with pc := .flushResponse }.note (.response response)) :
      Effect conn conn' a
  /-- The loop is left, and never while a request is handled. -/
  | broken {a : Action μ κ ρ} {disconnected : Bool} (pc : ∀ request, conn.pc ≠ .handle request)
      (h : conn' = { conn with pc := .left disconnected }) : Effect conn conn' a
  | ended {disconnected : Bool} (pc : conn.pc = .left disconnected)
      (h : conn' = { conn with pc := .ended disconnected, queue := [] }) : Effect conn conn' .exit

theorem effect_of_step {conn conn' : Connection μ κ ρ} {a : Action μ κ ρ}
    (h : conn.step a = some conn') : Effect conn conn' a := by
  cases a with
  | enqueue message =>
      simp only [step, Option.ite_none_right_eq_some, Option.some.injEq] at h
      exact .enqueued h.2.symm
  | recv =>
      simp only [step, recv] at h
      split at h
      next hpc hqueue =>
        cases h
        exact .taken (.inl hpc) hqueue rfl
      next => cases h
  | feed r =>
      simp only [step, feed] at h
      split at h
      next message rounds hpc =>
        split at h <;> cases h
        · exact .fed hpc (by cases rounds <;> simp) rfl
        · exact .broken (by simp [hpc]) rfl
      next => cases h
  | tryRecv =>
      simp only [step, tryRecv] at h
      split at h
      next hpc hqueue =>
        cases h
        exact .taken (.inr hpc) hqueue rfl
      next hpc _ =>
        cases h
        exact .drained hpc rfl
      next => cases h
  | flush r =>
      simp only [step, flush] at h
      split at h
      next hpc =>
        split at h <;> cases h
        · exact .flushed (.inl hpc) rfl
        · exact .broken (by simp [hpc]) rfl
      next => cases h
  | next incoming =>
      simp only [step, next] at h
      split at h
      next hpc =>
        split at h <;> cases h
        · exact .requested hpc rfl
        · exact .ignored hpc rfl
        · exact .broken (by simp [hpc]) rfl
        · exact .broken (by simp [hpc]) rfl
        · exact .broken (by simp [hpc]) rfl
      next => cases h
  | respond response =>
      obtain ⟨request, hpc, rfl⟩ := respond_eq_some.mp h
      exact .responded hpc rfl
  | send r =>
      simp only [step, send] at h
      split at h
      next hpc =>
        split at h <;> cases h
        · exact .sent hpc rfl
        · exact .broken (by simp [hpc]) rfl
      next => cases h
  | flushResponse r =>
      simp only [step, flushResponse] at h
      split at h
      next hpc =>
        split at h <;> cases h
        · exact .flushed (.inr hpc) rfl
        · exact .broken (by simp [hpc]) rfl
      next => cases h
  | waitForStop =>
      simp only [step, waitForStop] at h
      split at h
      next hpc =>
        cases h
        exact .broken (by simp [hpc]) rfl
      next => cases h
  | exit =>
      simp only [step, exit] at h
      split at h
      next hpc =>
        cases h
        exact .ended hpc rfl
      next => cases h

end Connection

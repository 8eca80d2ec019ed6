-- SUMMARY: What a connection hands to its writer: an exact merge of its responses and its media, flushed at every `select!`.
import Mathlib.Data.List.Infix
import AtomRust.Base.Transition
import AtomRust.Net.Connection

/-!
# The merge

`accepted`, `requested` and `responded` read off the actions of a run what came
to the connection, and `wire` holds what went out. `Ledger` balances the two: what
came in is handed over, or at hand, or waits in the queue, until the loop is left.
-/

namespace Connection
variable {μ κ ρ : Type} {conn conn' : Connection μ κ ρ} {as : List (Action μ κ ρ)}

/-! ## What came in -/

def Action.accepts : Action μ κ ρ → Option μ
  | .enqueue message => some message
  | _ => none

def Action.requests : Action μ κ ρ → Option κ
  | .next (.message request) => some request
  | _ => none

def Action.responds : Action μ κ ρ → Option ρ
  | .respond response => some response
  | _ => none

/-- The media messages that the queue accepted, in order. -/
def accepted (as : List (Action μ κ ρ)) : List μ := as.filterMap Action.accepts

/-- The requests that the worker read, in order. -/
def requested (as : List (Action μ κ ρ)) : List κ := as.filterMap Action.requests

/-- The responses that the handler returned, in order. -/
def responded (as : List (Action μ κ ρ)) : List ρ := as.filterMap Action.responds

@[simp] theorem accepted_concat (as : List (Action μ κ ρ)) (a : Action μ κ ρ) :
    accepted (as ++ [a]) = accepted as ++ a.accepts.toList := by
  cases h : a.accepts <;> simp [accepted, h]

@[simp] theorem requested_concat (as : List (Action μ κ ρ)) (a : Action μ κ ρ) :
    requested (as ++ [a]) = requested as ++ a.requests.toList := by
  cases h : a.requests <;> simp [requested, h]

@[simp] theorem responded_concat (as : List (Action μ κ ρ)) (a : Action μ κ ρ) :
    responded (as ++ [a]) = responded as ++ a.responds.toList := by
  cases h : a.responds <;> simp [responded, h]

/-! ## What went out -/

/-- What was handed to the outbound writer, oldest first. -/
def written (conn : Connection μ κ ρ) : List (Sent μ ρ) := conn.wire.reverse

def Sent.media? : Sent μ ρ → Option μ
  | .media m => some m
  | _ => none

def Sent.response? : Sent μ ρ → Option ρ
  | .response r => some r
  | _ => none

/-- The media that was handed over. -/
def media (conn : Connection μ κ ρ) : List μ := conn.written.filterMap Sent.media?

/-- The responses that were handed over. -/
def responses (conn : Connection μ κ ρ) : List ρ := conn.written.filterMap Sent.response?

@[simp] theorem note_pc (conn : Connection μ κ ρ) (s : Sent μ ρ) : (conn.note s).pc = conn.pc := rfl

@[simp] theorem note_queue (conn : Connection μ κ ρ) (s : Sent μ ρ) :
    (conn.note s).queue = conn.queue := rfl

@[simp] theorem note_wire (conn : Connection μ κ ρ) (s : Sent μ ρ) :
    (conn.note s).wire = s :: conn.wire := rfl

@[simp] theorem media_note (conn : Connection μ κ ρ) (s : Sent μ ρ) :
    (conn.note s).media = conn.media ++ s.media?.toList := by
  cases h : s.media? <;> simp [media, written, note, h]

@[simp] theorem responses_note (conn : Connection μ κ ρ) (s : Sent μ ρ) :
    (conn.note s).responses = conn.responses ++ s.response?.toList := by
  cases h : s.response? <;> simp [responses, written, note, h]

@[simp] theorem media_mk (queue : List μ) (pc : Pc μ κ ρ) :
    media { queue, pc, wire := conn.wire } = conn.media := rfl

@[simp] theorem responses_mk (queue : List μ) (pc : Pc μ κ ρ) :
    responses { queue, pc, wire := conn.wire } = conn.responses := rfl

/-- `sent` interleaves `media` with `responses`. -/
inductive Merge : List μ → List ρ → List (Sent μ ρ) → Prop where
  | nil : Merge [] [] []
  | media {media : List μ} {responses : List ρ} {sent : List (Sent μ ρ)} (message : μ)
      (h : Merge media responses sent) :
      Merge (message :: media) responses (.media message :: sent)
  | response {media : List μ} {responses : List ρ} {sent : List (Sent μ ρ)} (response : ρ)
      (h : Merge media responses sent) :
      Merge media (response :: responses) (.response response :: sent)
  | flushed {media : List μ} {responses : List ρ} {sent : List (Sent μ ρ)}
      (h : Merge media responses sent) : Merge media responses (.flushed :: sent)

/-- A list of messages merges what it has of each kind. -/
theorem merge_filterMap (sent : List (Sent μ ρ)) :
    Merge (sent.filterMap Sent.media?) (sent.filterMap Sent.response?) sent := by
  induction sent with
  | nil => exact .nil
  | cons s sent ih =>
      cases s with
      | media message => exact .media message ih
      | response response => exact .response response ih
      | flushed => exact .flushed ih

/-- What was handed over since the last flush. -/
def unflushed : List (Sent μ ρ) → List (Sent μ ρ)
  | .media message :: wire => .media message :: unflushed wire
  | .response response :: wire => .response response :: unflushed wire
  | .flushed :: _ | [] => []

/-- No batch is longer than `MAX_BATCH`: a stretch of `wire` without a flush holds
at most so many media messages. -/
def Batched (wire : List (Sent μ ρ)) : Prop :=
  ∀ batch, batch <:+: wire → (∀ s ∈ batch, s ≠ .flushed) →
    (batch.filterMap Sent.media?).length ≤ maxBatch

/-- A stretch that reaches to the end lies behind the last flush. -/
theorem prefix_unflushed {batch wire : List (Sent μ ρ)} (h : batch <+: wire)
    (hno : ∀ s ∈ batch, s ≠ .flushed) : batch <+: unflushed wire := by
  induction wire generalizing batch with
  | nil => exact List.prefix_nil.mp h ▸ List.nil_prefix
  | cons x wire ih =>
      rcases List.prefix_cons_iff.mp h with rfl | ⟨rest, rfl, hrest⟩
      · exact List.nil_prefix
      · have htail := ih hrest fun s hs => hno s (List.mem_cons_of_mem _ hs)
        cases x with
        | media message => exact (List.prefix_cons_inj _).mpr htail
        | response response => exact (List.prefix_cons_inj _).mpr htail
        | flushed => exact absurd rfl (hno .flushed List.mem_cons_self)

theorem Batched.cons {s : Sent μ ρ} {wire : List (Sent μ ρ)} (h : Batched wire)
    (hlast : ((unflushed (s :: wire)).filterMap Sent.media?).length ≤ maxBatch) :
    Batched (s :: wire) := by
  intro batch hbatch hno
  rcases List.infix_cons_iff.mp hbatch with hpre | hin
  · have hsub := ((prefix_unflushed hpre hno).filterMap Sent.media?).length_le
    exact hsub.trans hlast
  · exact h batch hin hno

/-! ## What is at hand -/

namespace Pc

/-- The media message that is taken from the queue and not handed over. -/
def taking : Pc μ κ ρ → List μ
  | .feed message _ => [message]
  | .select | .tryRecv _ | .flush | .handle _ | .send _ | .flushResponse | .left _ | .ended _ => []

/-- The request that the handler is busy with. -/
def handling : Pc μ κ ρ → List κ
  | .handle request => [request]
  | .select | .feed .. | .tryRecv _ | .flush | .send _ | .flushResponse | .left _ | .ended _ => []

/-- The response that is not handed over yet. -/
def answering : Pc μ κ ρ → List ρ
  | .send response => [response]
  | .select | .feed .. | .tryRecv _ | .flush | .handle _ | .flushResponse | .left _ | .ended _ => []

/-- The loop is left. -/
def departed : Pc μ κ ρ → Bool
  | .left _ | .ended _ => true
  | .select | .feed .. | .tryRecv _ | .flush | .handle _ | .send _ | .flushResponse => false

/-- Everything that was handed over is flushed. -/
def settled : Pc μ κ ρ → Bool
  | .select | .handle _ | .send _ => true
  | .feed .. | .tryRecv _ | .flush | .flushResponse | .left _ | .ended _ => false

/-- The rest of the batch: how many messages may still be handed over before the
flush. -/
def room : Pc μ κ ρ → Nat
  | .feed _ rounds | .tryRecv rounds => rounds + 1
  | .select | .handle _ | .send _ => maxBatch
  | .flush | .flushResponse | .left _ | .ended _ => 0

end Pc

/-- The books of a connection that has taken the actions `as`. -/
structure Ledger (as : List (Action μ κ ρ)) (conn : Connection μ κ ρ) : Prop where
  media : ∃ lost, accepted as = conn.media ++ conn.pc.taking ++ lost ++ conn.queue ∧
    (conn.pc.departed = false → lost = [])
  responses : ∃ lost, responded as = conn.responses ++ conn.pc.answering ++ lost ∧
    (conn.pc.departed = false → lost = []) ∧ lost.length ≤ 1
  requests : ∃ handled : List (κ × ρ), requested as = handled.map Prod.fst ++ conn.pc.handling ∧
    responded as = handled.map Prod.snd
  batched : Batched conn.wire
  room : ((unflushed conn.wire).filterMap Sent.media?).length + conn.pc.room ≤ maxBatch
  settled : conn.pc.settled → unflushed conn.wire = []

namespace Ledger

theorem nil : Ledger [] (start : Connection μ κ ρ) where
  media := ⟨[], rfl, fun _ => rfl⟩
  responses := ⟨[], rfl, fun _ => rfl, Nat.zero_le _⟩
  requests := ⟨[], rfl, rfl⟩
  batched := by
    intro batch hbatch _
    simp [List.infix_nil.mp hbatch]
  room := by simp [start, unflushed, Pc.room]
  settled := fun _ => rfl

/-! ## Actions that bring something -/

theorem enqueue (hi : Ledger as conn) (message : μ) :
    Ledger (as ++ [.enqueue message]) (conn.enqueue message) := by
  obtain ⟨lost, hmedia, hover⟩ := hi.media
  refine { hi with media := ⟨lost, ?_, hover⟩, responses := ?_, requests := ?_ }
  · simp [hmedia, Action.accepts, Connection.enqueue]
  · simpa [Action.responds, Connection.enqueue] using hi.responses
  · simpa [Action.requests, Action.responds, Connection.enqueue] using hi.requests

theorem request (hi : Ledger as conn) (hpc : conn.pc = .select) (request : κ) :
    Ledger (as ++ [.next (.message request)]) { conn with pc := .handle request } := by
  obtain ⟨handled, hrequests, hresponds⟩ := hi.requests
  have hsettled := hi.settled (by rw [hpc]; rfl)
  refine { hi with media := ?_, responses := ?_, requests := ⟨handled, ?_, ?_⟩,
                   room := ?_, settled := fun _ => hsettled }
  · simpa [Action.accepts, hpc, Pc.taking, Pc.departed] using hi.media
  · simpa [Action.responds, hpc, Pc.answering, Pc.departed] using hi.responses
  · simpa [Action.requests, hpc, Pc.handling] using hrequests
  · simpa [Action.responds] using hresponds
  · simp [hsettled, Pc.room]

theorem respond {request : κ} (hi : Ledger as conn) (hpc : conn.pc = .handle request)
    (response : ρ) : Ledger (as ++ [.respond response]) { conn with pc := .send response } := by
  obtain ⟨handled, hrequests, hresponds⟩ := hi.requests
  obtain ⟨lost, hlost, hover, -⟩ := hi.responses
  obtain rfl := hover (by rw [hpc]; rfl)
  have hsettled := hi.settled (by rw [hpc]; rfl)
  refine { hi with media := ?_, responses := ⟨[], ?_, fun _ => rfl, Nat.zero_le _⟩,
                   requests := ⟨handled ++ [(request, response)], ?_, ?_⟩,
                   room := ?_, settled := fun _ => hsettled }
  · simpa [Action.accepts, hpc, Pc.taking, Pc.departed] using hi.media
  · simp [hlost, Action.responds, hpc, Pc.answering]
  · simp [hrequests, Action.requests, hpc, Pc.handling]
  · simp [hresponds, Action.responds]
  · simp [hsettled, Pc.room]

/-! ## Actions that bring nothing -/

/-- An action that brings nothing to the connection does not count. -/
theorem snoc {a : Action μ κ ρ} (hi : Ledger as conn) (hmedia : a.accepts = none)
    (hrequest : a.requests = none) (hresponse : a.responds = none) : Ledger (as ++ [a]) conn where
  media := by simpa [hmedia] using hi.media
  responses := by simpa [hresponse] using hi.responses
  requests := by simpa [hrequest, hresponse] using hi.requests
  batched := hi.batched
  room := hi.room
  settled := hi.settled

/-- The worker goes from one place in its loop to another and may take a message
from the queue. -/
theorem move {pc : Pc μ κ ρ} {queue : List μ} (hi : Ledger as conn)
    (hnot : conn.pc.departed = false)
    (hmedia : conn.pc.taking ++ conn.queue = pc.taking ++ queue)
    (hhandling : conn.pc.handling = pc.handling) (hanswering : conn.pc.answering = pc.answering)
    (hroom : pc.room ≤ conn.pc.room) (hsettled : pc.settled → conn.pc.settled) :
    Ledger as { conn with pc, queue } := by
  obtain ⟨lost, haccepted, hover⟩ := hi.media
  obtain ⟨lost', hresponded, hover', -⟩ := hi.responses
  obtain rfl := hover hnot
  obtain rfl := hover' hnot
  refine { hi with media := ⟨[], ?_, fun _ => rfl⟩,
                   responses := ⟨[], ?_, fun _ => rfl, Nat.zero_le _⟩, requests := ?_,
                   room := (Nat.add_le_add_left hroom _).trans hi.room,
                   settled := fun h => hi.settled (hsettled h) }
  · simp [haccepted, ← hmedia]
  · simp [hresponded, ← hanswering]
  · simpa [← hhandling] using hi.requests

/-- What is at hand goes to the writer. -/
theorem hand {s : Sent μ ρ} {pc : Pc μ κ ρ} (hi : Ledger as conn) (hnot : conn.pc.departed = false)
    (hmedia : conn.pc.taking = s.media?.toList ++ pc.taking)
    (hhandling : conn.pc.handling = pc.handling)
    (hanswering : conn.pc.answering = s.response?.toList ++ pc.answering)
    (hroom : ((unflushed (s :: conn.wire)).filterMap Sent.media?).length + pc.room ≤ maxBatch)
    (hsettled : pc.settled → unflushed (s :: conn.wire) = []) :
    Ledger as ({ conn with pc }.note s) := by
  obtain ⟨lost, haccepted, hover⟩ := hi.media
  obtain ⟨lost', hresponded, hover', -⟩ := hi.responses
  obtain rfl := hover hnot
  obtain rfl := hover' hnot
  refine ⟨⟨[], ?_, fun _ => rfl⟩, ⟨[], ?_, fun _ => rfl, Nat.zero_le _⟩, ?_,
    hi.batched.cons ((Nat.le_add_right _ _).trans hroom), hroom, hsettled⟩
  · simp [haccepted, hmedia]
  · simp [hresponded, hanswering]
  · simpa [hhandling] using hi.requests

/-- The loop is left, and what was at hand is lost. -/
theorem leave (hi : Ledger as conn) (disconnected : Bool)
    (hpc : ∀ request, conn.pc ≠ .handle request) (hnot : conn.pc.departed = false) :
    Ledger as { conn with pc := .left disconnected } := by
  obtain ⟨lost, hmedia, hover⟩ := hi.media
  obtain ⟨lost', hlost, hover', -⟩ := hi.responses
  obtain rfl := hover hnot
  obtain rfl := hover' hnot
  have hhandling : conn.pc.handling = [] := by
    cases h : conn.pc with
    | handle request => exact absurd h (hpc request)
    | _ => rfl
  have hone : conn.pc.answering.length ≤ 1 := by
    cases conn.pc <;> simp [Pc.answering]
  refine { hi with media := ⟨conn.pc.taking, by simp [hmedia, Pc.taking], nofun⟩,
                   responses := ⟨conn.pc.answering, by simp [hlost, Pc.answering], nofun, hone⟩,
                   requests := ?_, room := (Nat.le_add_right _ _).trans hi.room,
                   settled := nofun }
  have hrequests := hi.requests
  rw [hhandling] at hrequests
  exact hrequests

/-- The queue is dropped. -/
theorem exit {disconnected : Bool} (hi : Ledger as conn) (hpc : conn.pc = .left disconnected) :
    Ledger as { conn with pc := .ended disconnected, queue := [] } := by
  obtain ⟨lost, hmedia, -⟩ := hi.media
  refine { hi with media := ⟨lost ++ conn.queue, ?_, nofun⟩, responses := ?_, requests := ?_,
                   room := (Nat.le_add_right _ _).trans hi.room, settled := nofun }
  · simp [hmedia, hpc, Pc.taking]
  · simpa [hpc, Pc.answering, Pc.departed] using hi.responses
  · simpa [hpc, Pc.handling] using hi.requests

theorem step {a : Action μ κ ρ} (hi : Ledger as conn) (h : conn.step a = some conn') :
    Ledger (as ++ [a]) conn' := by
  cases a with
  | enqueue message =>
      simp only [Connection.step, Option.ite_none_right_eq_some, Option.some.injEq] at h
      exact h.2 ▸ hi.enqueue message
  | recv =>
      simp only [Connection.step, recv] at h
      split at h <;> cases h
      next message queue hpc hqueue =>
        refine (hi.move ?_ ?_ ?_ ?_ ?_ ?_).snoc rfl rfl rfl <;>
          simp [hpc, hqueue, Pc.taking, Pc.handling, Pc.answering, Pc.departed, Pc.settled, Pc.room,
            maxBatch]
  | feed r =>
      simp only [Connection.step, feed] at h
      split at h
      next message rounds hpc =>
        split at h <;> cases h
        · have hroom := hi.room
          simp only [hpc, Pc.room] at hroom
          cases rounds <;> refine (hi.hand ?_ ?_ ?_ ?_ ?_ ?_).snoc rfl rfl rfl <;>
            simp [hpc, Pc.taking, Pc.handling, Pc.answering, Pc.departed, Pc.settled, Pc.room,
              unflushed, Sent.media?, Sent.response?] <;> omega
        · exact (hi.leave _ (by simp [hpc]) (by simp [hpc, Pc.departed])).snoc rfl rfl rfl
      next => cases h
  | tryRecv =>
      simp only [Connection.step, tryRecv] at h
      split at h
      next rounds message queue hpc hqueue =>
        cases h
        refine (hi.move ?_ ?_ ?_ ?_ ?_ ?_).snoc rfl rfl rfl <;>
          simp [hpc, hqueue, Pc.taking, Pc.handling, Pc.answering, Pc.departed, Pc.settled, Pc.room]
      next rounds hpc hqueue =>
        cases h
        refine (hi.move ?_ ?_ ?_ ?_ ?_ ?_).snoc rfl rfl rfl <;>
          simp [hpc, Pc.taking, Pc.handling, Pc.answering, Pc.departed, Pc.settled, Pc.room]
      next => cases h
  | flush r =>
      simp only [Connection.step, flush] at h
      split at h
      next hpc =>
        split at h <;> cases h
        · refine (hi.hand ?_ ?_ ?_ ?_ ?_ ?_).snoc rfl rfl rfl <;>
            simp [hpc, Pc.taking, Pc.handling, Pc.answering, Pc.departed, Pc.room, unflushed,
              Sent.media?, Sent.response?]
        · exact (hi.leave _ (by simp [hpc]) (by simp [hpc, Pc.departed])).snoc rfl rfl rfl
      next => cases h
  | next incoming =>
      simp only [Connection.step, next] at h
      split at h
      next hpc =>
        have hleave := fun d : Bool => hi.leave d (by simp [hpc]) (by simp [hpc, Pc.departed])
        split at h <;> cases h
        · exact hi.request hpc _
        · exact hi.snoc rfl rfl rfl
        · exact (hleave true).snoc rfl rfl rfl
        · exact (hleave true).snoc rfl rfl rfl
        · exact (hleave false).snoc rfl rfl rfl
      next => cases h
  | respond response =>
      obtain ⟨request, hpc, rfl⟩ := respond_eq_some.mp h
      exact hi.respond hpc response
  | send r =>
      simp only [Connection.step, send] at h
      split at h
      next response hpc =>
        split at h <;> cases h
        · have hsettled := hi.settled (by rw [hpc]; rfl)
          refine (hi.hand ?_ ?_ ?_ ?_ ?_ ?_).snoc rfl rfl rfl <;>
            simp [hpc, Pc.taking, Pc.handling, Pc.answering, Pc.departed, Pc.settled, Pc.room,
              unflushed, hsettled, List.filterMap_cons, Sent.media?, Sent.response?]
        · exact (hi.leave _ (by simp [hpc]) (by simp [hpc, Pc.departed])).snoc rfl rfl rfl
      next => cases h
  | flushResponse r =>
      simp only [Connection.step, flushResponse] at h
      split at h
      next hpc =>
        split at h <;> cases h
        · refine (hi.hand ?_ ?_ ?_ ?_ ?_ ?_).snoc rfl rfl rfl <;>
            simp [hpc, Pc.taking, Pc.handling, Pc.answering, Pc.departed, Pc.room, unflushed,
              Sent.media?, Sent.response?]
        · exact (hi.leave _ (by simp [hpc]) (by simp [hpc, Pc.departed])).snoc rfl rfl rfl
      next => cases h
  | waitForStop =>
      simp only [Connection.step, waitForStop] at h
      split at h <;> cases h
      next hpc =>
        exact (hi.leave false (by simp [hpc]) (by simp [hpc, Pc.departed])).snoc rfl rfl rfl
  | exit =>
      simp only [Connection.step, Connection.exit] at h
      split at h <;> cases h
      next disconnected hpc => exact (hi.exit hpc).snoc rfl rfl rfl

end Ledger

theorem ledger_of_run (h : Transition.run step start as = some conn) : Ledger as conn :=
  Transition.run_history (I := Ledger) .nil (fun _ _ _ _ _ hi hs => hi.step hs) as conn h

/-! ## Every run -/

/-- A connection writes an exact merge: what it hands to its writer interleaves the
responses, one for each request and in the order of the requests, with a prefix of
the media that its queue accepted, and no more than `MAX_BATCH` messages of it lie
between two flushes. Back at the `select!`, all that was taken from the queue and
all responses are handed over and flushed. Before the loop is left, only the message
or response at hand is not handed over. -/
theorem exact_merge (h : Transition.run step start as = some conn) :
    (∃ (media : List μ) (responses : List ρ) (handled : List (κ × ρ)),
      Merge media responses conn.written ∧ media <+: accepted as ∧
      requested as = handled.map Prod.fst ++ conn.pc.handling ∧
      responded as = handled.map Prod.snd ∧ responses <+: responded as ∧
      (responded as).length ≤ responses.length + 1 ∧
      (conn.pc.departed = false →
        accepted as = media ++ conn.pc.taking ++ conn.queue ∧
        responded as = responses ++ conn.pc.answering) ∧
      (conn.pc = .select → accepted as = media ++ conn.queue ∧ responded as = responses ∧
        (requested as).length = responses.length ∧ unflushed conn.wire = [])) ∧
    Batched conn.wire := by
  have hi := ledger_of_run h
  obtain ⟨lost, hmedia, hover⟩ := hi.media
  obtain ⟨lost', hresponses, hover', hone⟩ := hi.responses
  obtain ⟨handled, hrequested, hresponded⟩ := hi.requests
  refine ⟨⟨conn.media, conn.responses, handled, merge_filterMap _, ?_, hrequested, hresponded,
    ?_, ?_, fun hnot => ?_, fun hpc => ?_⟩, hi.batched⟩
  · rw [hmedia, List.append_assoc, List.append_assoc]
    exact List.prefix_append _ _
  · rw [hresponses, List.append_assoc]
    exact List.prefix_append _ _
  · have hanswering : conn.pc.answering.length + lost'.length ≤ 1 := by
      cases hpc : conn.pc <;> simp_all [Pc.answering, Pc.departed]
    simp only [hresponses, List.length_append]
    omega
  · rw [hover hnot] at hmedia
    rw [hover' hnot] at hresponses
    exact ⟨by simpa using hmedia, by simpa using hresponses⟩
  · obtain rfl := hover (by rw [hpc]; rfl)
    obtain rfl := hover' (by rw [hpc]; rfl)
    have hall : responded as = conn.responses := by simpa [hpc, Pc.answering] using hresponses
    refine ⟨by simpa [hpc, Pc.taking] using hmedia, hall, ?_, hi.settled (by rw [hpc]; rfl)⟩
    rw [← hall, hrequested, hresponded]
    simp [hpc, Pc.handling]

/-- Two frames reach the queue, one of them while the worker is busy with a request
and with the first batch. -/
def mergeRun : List (Action Nat Nat Nat) :=
  [.enqueue 0, .recv, .enqueue 1, .feed .ok, .tryRecv, .feed .ok, .tryRecv, .flush .ok,
    .next (.message 7), .enqueue 2, .respond 70, .send .ok, .flushResponse .ok]

theorem exact_merge_mergeRun :
    ∃ conn, Transition.run step (start (μ := Nat) (κ := Nat) (ρ := Nat)) mergeRun = some conn ∧
      conn.written = [.media 0, .media 1, .flushed, .response 70, .flushed] ∧ conn.queue = [2] ∧
      Batched conn.wire := by
  obtain ⟨conn, hrun, hwritten, hqueue⟩ :
      ∃ conn, Transition.run step (start (μ := Nat) (κ := Nat) (ρ := Nat)) mergeRun = some conn ∧
        conn.written = [.media 0, .media 1, .flushed, .response 70, .flushed] ∧
        conn.queue = [2] := ⟨_, rfl, rfl, rfl⟩
  exact ⟨conn, hrun, hwritten, hqueue, (exact_merge hrun).2⟩

end Connection

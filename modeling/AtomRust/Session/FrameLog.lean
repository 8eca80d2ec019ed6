-- SUMMARY: What became of the frames a session worker received: a log of fates, the rule of the keyframe gate, and what the rule says about the messages sent.
import Mathlib.Data.List.Basic
import Mathlib.Data.List.Range
import AtomRust.Session.Worker

/-!
# The frame log

A log has one entry for each frame that a worker received and one for each PLAY
message it took, newest first. The connection's queue has received exactly what
the log says was enqueued.

A client can decode a frame that is not a keyframe only if it has the frame
before it, and so on back to a keyframe. `Gate` is the rule that decides which
frames are offered to the queue; `Linked.chain` is what a client gets from it.
-/

namespace Session
open Media (RtpBuf Video)

/-- What the worker did with a frame it received. -/
inductive Fate where
  /-- Dropped unread while waiting for a keyframe. -/
  | skipped
  /-- Muxed in the Ready state, where nothing is sent. -/
  | muxed
  /-- The muxer failed. -/
  | failed
  /-- Muxed into `messages` while playing; the queue accepted `enqueued`, and
  then refused a message if `refused`. -/
  | offered (messages enqueued : List RtpBuf) (refused : Bool)

/-- An entry of the log. -/
inductive Entry where
  /-- The worker took a PLAY message. -/
  | play
  | frame (index : Nat) (fate : Fate)

namespace Entry

def enqueue (message : RtpBuf) : Entry → Entry
  | .frame k (.offered messages enqueued refused) =>
      .frame k (.offered messages (enqueued ++ [message]) refused)
  | e => e

def refuse : Entry → Entry
  | .frame k (.offered messages enqueued _) => .frame k (.offered messages enqueued true)
  | e => e

/-- Frame `k` was offered and all its messages were enqueued. -/
def Complete (k : Nat) (e : Entry) : Prop :=
  ∃ messages, e = .frame k (.offered messages messages false)

/-- The worker is through with an entry: a frame was enqueued completely or
refused by the queue. -/
def Settled : Entry → Prop
  | .frame _ (.offered messages enqueued refused) => enqueued = messages ∨ refused = true
  | _ => True

end Entry

/-- The messages that the muxer made of frame `k`, as the log has them. -/
def messagesOf : List Entry → Nat → List RtpBuf
  | [], _ => []
  | .frame i (.offered messages _ _) :: log, k => if i = k then messages else messagesOf log k
  | _ :: log, k => messagesOf log k

/-- All messages of the frames `j` to `k - 1`, with the number of their frame. -/
def messagesFrom (log : List Entry) (j k : Nat) : List (Nat × RtpBuf) :=
  (List.range' j (k - j)).flatMap fun i => (messagesOf log i).map (i, ·)

/-- The enqueued messages according to the log, oldest first. -/
def enqueuedOf : List Entry → List (Nat × RtpBuf)
  | [] => []
  | .frame k (.offered _ enqueued _) :: log => enqueuedOf log ++ enqueued.map (k, ·)
  | _ :: log => enqueuedOf log

/-! ## The rule of the gate -/

/-- Every frame of the log comes before frame `n`, and newer ones after older
ones. -/
def Before : List Entry → Nat → Prop
  | [], _ => True
  | .play :: log, n => Before log n
  | .frame k _ :: log, n => k < n ∧ Before log k

/-- The entry below frame `k` in the log is frame `k - 1`, enqueued completely. -/
def Linked (log : List Entry) (k : Nat) : Prop :=
  ∃ j e older, k = j + 1 ∧ log = e :: older ∧ e.Complete j

variable {V : Video} {source : Nat → V.Packet}

/-- The rule by which frame `k`, received on top of `log`, got its fate. -/
def Gate (source : Nat → V.Packet) (log : List Entry) (k : Nat) : Fate → Prop
  | .skipped => .play ∈ log ∧ V.isKey (source k) = false ∧ ¬ Linked log k
  | .muxed => .play ∉ log
  | .failed => ∃ muxer, (V.mux muxer (source k)).2 = none
  | .offered messages enqueued _ =>
      .play ∈ log ∧ (∃ muxer, (V.mux muxer (source k)).2 = some messages) ∧
        enqueued <+: messages ∧ (V.isKey (source k) = true ∨ Linked log k)

/-- Every entry followed the rule. -/
def Gated (source : Nat → V.Packet) : List Entry → Prop
  | [] => True
  | .play :: log => Gated source log
  | .frame k fate :: log => Gate source log k fate ∧ Gated source log

/-- The frame before frame `k` was enqueued completely, and no PLAY message came
after it. -/
def Follows (log : List Entry) (k : Nat) : Prop :=
  ∃ j e newer older, k = j + 1 ∧ log = newer ++ e :: older ∧ e.Complete j ∧ .play ∉ newer

/-- `j` is the latest keyframe before frame `k`. -/
def LatestKey (source : Nat → V.Packet) (j k : Nat) : Prop :=
  j < k ∧ V.isKey (source j) = true ∧ ∀ i, j < i → i < k → V.isKey (source i) = false

theorem Linked.of_complete {j : Nat} {e : Entry} {older : List Entry} (h : e.Complete j) :
    Linked (e :: older) (j + 1) := ⟨j, e, older, rfl, rfl, h⟩

theorem not_linked_play {log : List Entry} {k : Nat} : ¬ Linked (.play :: log) k := by
  rintro ⟨j, e, older, -, heq, messages, rfl⟩
  cases heq

/-- Only a frame that was offered, and completely enqueued, links to the next
one. -/
theorem not_linked_frame {log : List Entry} {i k : Nat} {fate : Fate}
    (h : ∀ messages, fate ≠ .offered messages messages false) :
    ¬ Linked (.frame i fate :: log) k := by
  rintro ⟨j, e, older, -, heq, messages, rfl⟩
  simp only [List.cons.injEq, Entry.frame.injEq] at heq
  exact h messages heq.1.2

/-- Nothing links over a gap. -/
theorem Before.not_linked {log : List Entry} {n k : Nat} (h : Before log n) (hk : n < k) :
    ¬ Linked log k := by
  rintro ⟨j, e, older, rfl, rfl, messages, rfl⟩
  have hlt : j < n := h.1
  omega

theorem Before.mono {log : List Entry} {n m : Nat} (h : Before log n) (hle : n ≤ m) :
    Before log m := by
  induction log with
  | nil => trivial
  | cons e log ih =>
      cases e with
      | play => exact ih h
      | frame k fate => exact ⟨lt_of_lt_of_le h.1 hle, h.2⟩

theorem Before.lt {log : List Entry} {n k : Nat} {fate : Fate} (h : Before log n)
    (hmem : .frame k fate ∈ log) : k < n := by
  induction log generalizing n with
  | nil => cases hmem
  | cons e log ih =>
      rcases List.mem_cons.mp hmem with rfl | hmem'
      · exact h.1
      · cases e with
        | play => exact ih h hmem'
        | frame i _ => exact (ih h.2 hmem').trans h.1

/-- What lies above a frame is newer than it, what lies below it is older. -/
theorem Before.split {newer older : List Entry} {n k : Nat} {fate : Fate}
    (h : Before (newer ++ .frame k fate :: older) n) :
    (∀ i fate', .frame i fate' ∈ newer → k < i) ∧ Before older k := by
  induction newer generalizing n with
  | nil => exact ⟨by simp, h.2⟩
  | cons e newer ih =>
      cases e with
      | play =>
          obtain ⟨hnewer, holder⟩ := ih h
          exact ⟨fun i fate' hi => hnewer i fate' (by simpa using hi), holder⟩
      | frame i _ =>
          obtain ⟨hnewer, holder⟩ := ih h.2
          refine ⟨fun i' fate' hi => ?_, holder⟩
          rcases List.mem_cons.mp hi with heq | hi
          · have hlt : k < i := Before.lt h.2 (List.mem_append_right newer List.mem_cons_self)
            simp only [Entry.frame.injEq] at heq
            omega
          · exact hnewer i' fate' hi

/-- Nothing but a PLAY message fits between a frame and its successor. -/
theorem Before.follows_iff {log : List Entry} {k : Nat} (h : Before log k) :
    Follows log k ↔ Linked log k := by
  constructor
  · rintro ⟨j, e, newer, older, rfl, rfl, ⟨messages, rfl⟩, hplay⟩
    cases newer with
    | nil => exact ⟨j, _, older, rfl, rfl, messages, rfl⟩
    | cons e newer =>
        cases e with
        | play => exact absurd List.mem_cons_self hplay
        | frame i _ =>
            have hi : i < j + 1 := h.1
            have hj : j < i := Before.lt h.2 (List.mem_append_right newer List.mem_cons_self)
            omega
  · rintro ⟨j, e, older, rfl, rfl, he⟩
    exact ⟨j, e, [], older, rfl, rfl, he, List.not_mem_nil⟩

theorem Gated.split {newer older : List Entry} {k : Nat} {fate : Fate}
    (h : Gated source (newer ++ .frame k fate :: older)) :
    Gate source older k fate ∧ Gated source older := by
  induction newer with
  | nil => exact h
  | cons e newer ih =>
      cases e with
      | play => exact ih h
      | frame i _ => exact ih h.2

/-! ## The messages that were sent -/

theorem enqueuedOf_append (newer older : List Entry) :
    enqueuedOf (newer ++ older) = enqueuedOf older ++ enqueuedOf newer := by
  induction newer with
  | nil => simp [enqueuedOf]
  | cons e newer ih =>
      rw [List.cons_append]
      match e with
      | .frame k (.offered messages enqueued refused) =>
          simp only [enqueuedOf, ih, List.append_assoc]
      | .play | .frame k .skipped | .frame k .muxed | .frame k .failed => exact ih

theorem mem_enqueuedOf {log : List Entry} {k : Nat} {message : RtpBuf} :
    (k, message) ∈ enqueuedOf log ↔
      ∃ messages enqueued refused, .frame k (.offered messages enqueued refused) ∈ log ∧
        message ∈ enqueued := by
  induction log with
  | nil => simp [enqueuedOf]
  | cons e log ih =>
      match e with
      | .frame i (.offered messages enqueued refused) =>
          simp only [enqueuedOf, List.mem_append, ih, List.mem_map, Prod.mk.injEq, List.mem_cons,
            Entry.frame.injEq, Fate.offered.injEq]
          constructor
          · rintro (⟨ms, enq, r, hmem, hmsg⟩ | ⟨b, hb, rfl, rfl⟩)
            · exact ⟨ms, enq, r, .inr hmem, hmsg⟩
            · exact ⟨messages, enqueued, refused, .inl ⟨rfl, rfl, rfl, rfl⟩, hb⟩
          · rintro ⟨ms, enq, r, ⟨rfl, rfl, rfl, rfl⟩ | hmem, hmsg⟩
            · exact .inr ⟨message, hmsg, rfl, rfl⟩
            · exact .inl ⟨ms, enq, r, hmem, hmsg⟩
      | .play | .frame i .skipped | .frame i .muxed | .frame i .failed =>
          simpa [enqueuedOf] using ih

/-- Nothing was enqueued for a frame that is not in the log. -/
theorem enqueuedOf_lt {log : List Entry} {k : Nat} (h : ∀ i fate, .frame i fate ∈ log → k < i) :
    ∀ p ∈ enqueuedOf log, k < p.1 := by
  rintro ⟨i, message⟩ hp
  obtain ⟨messages, enqueued, refused, hmem, -⟩ := mem_enqueuedOf.mp hp
  exact h i _ hmem

theorem Before.enqueuedOf_lt {log : List Entry} {n : Nat} (h : Before log n) :
    ∀ p ∈ enqueuedOf log, p.1 < n := by
  rintro ⟨i, message⟩ hp
  obtain ⟨messages, enqueued, refused, hmem, -⟩ := mem_enqueuedOf.mp hp
  exact h.lt hmem

theorem messagesOf_append {newer older : List Entry} {k : Nat}
    (h : ∀ fate, .frame k fate ∉ newer) : messagesOf (newer ++ older) k = messagesOf older k := by
  induction newer with
  | nil => rfl
  | cons e newer ih =>
      have ih := ih fun fate hmem => h fate (List.mem_cons_of_mem _ hmem)
      rw [List.cons_append]
      match e with
      | .frame i (.offered messages enqueued refused) =>
          have hne : i ≠ k := by
            rintro rfl
            exact h _ List.mem_cons_self
          simpa [messagesOf, hne] using ih
      | .play | .frame i .skipped | .frame i .muxed | .frame i .failed => exact ih

/-- The newer part of a log adds nothing to the messages of older frames. -/
theorem messagesFrom_append (newer : List Entry) {older : List Entry} {j k : Nat}
    (h : ∀ i fate, .frame i fate ∈ newer → k ≤ i) :
    messagesFrom (newer ++ older) j k = messagesFrom older j k := by
  refine List.flatMap_congr fun i hi => ?_
  have hlt : i < k := by
    have := List.mem_range'_1.mp hi
    omega
  rw [messagesOf_append fun fate hmem => absurd (h i fate hmem) (by omega)]

/-- The enqueued messages come in the order of their frames. -/
theorem Before.sorted {log : List Entry} {n : Nat} (h : Before log n) :
    ((enqueuedOf log).map Prod.fst).Pairwise (· ≤ ·) := by
  induction log generalizing n with
  | nil => exact List.Pairwise.nil
  | cons e log ih =>
      match e, h with
      | .play, h => exact ih h
      | .frame k .skipped, h | .frame k .muxed, h | .frame k .failed, h => exact ih h.2
      | .frame k (.offered messages enqueued refused), h =>
          simp only [enqueuedOf, List.map_append, List.pairwise_append]
          have hsame : ((enqueued.map (k, ·)).map Prod.fst).Pairwise (· ≤ ·) := by
            rw [List.pairwise_map, List.pairwise_map]
            exact List.pairwise_of_forall fun _ _ => Nat.le_refl k
          refine ⟨ih h.2, hsame, fun i hi i' hi' => ?_⟩
          obtain ⟨p, hp, rfl⟩ := List.mem_map.mp hi
          obtain rfl : k = i' := by
            simp only [List.map_map, List.mem_map] at hi'
            obtain ⟨b, -, rfl⟩ := hi'
            rfl
          exact (h.2.enqueuedOf_lt p hp).le

/-- Of each frame, a prefix of its messages was enqueued. -/
theorem Gated.enqueuedOf_prefix {log : List Entry} {n : Nat} (hg : Gated source log)
    (hb : Before log n) (k : Nat) :
    ((enqueuedOf log).filter (·.1 = k)).map Prod.snd <+: messagesOf log k := by
  induction log generalizing n with
  | nil => exact List.nil_prefix
  | cons e log ih =>
      match e, hg, hb with
      | .play, hg, hb => exact ih hg hb
      | .frame i .skipped, hg, hb | .frame i .muxed, hg, hb | .frame i .failed, hg, hb =>
          exact ih hg.2 hb.2
      | .frame i (.offered messages enqueued refused), ⟨⟨_, _, hprefix, _⟩, hg⟩, hb =>
          simp only [enqueuedOf, messagesOf, List.filter_append, List.map_append]
          by_cases hik : i = k
          · subst hik
            have hnone : (enqueuedOf log).filter (·.1 = i) = [] :=
              List.filter_eq_nil_iff.mpr fun p hp => by
                simpa using (hb.2.enqueuedOf_lt p hp).ne
            have hall : (enqueued.map (i, ·)).filter (·.1 = i) = enqueued.map (i, ·) :=
              List.filter_eq_self.mpr fun p hp => by
                obtain ⟨b, -, rfl⟩ := List.mem_map.mp hp
                simp
            rw [hnone, hall]
            simpa [Function.comp_def] using hprefix
          · have hnone : (enqueued.map (i, ·)).filter (·.1 = k) = [] :=
              List.filter_eq_nil_iff.mpr fun p hp => by
                obtain ⟨b, -, rfl⟩ := List.mem_map.mp hp
                simpa using hik
            rw [hnone, if_neg hik]
            simpa using ih hg hb.2

/-- A run of complete frames back to a keyframe lies below a linked frame, and
its messages are the last ones sent. -/
theorem Linked.chain {log : List Entry} {n k : Nat} (hg : Gated source log) (hb : Before log n)
    (hl : Linked log k) :
    ∃ j older, LatestKey source j k ∧ (∀ i, j ≤ i → i < k → ∃ e ∈ log, e.Complete i) ∧
      Before older j ∧ enqueuedOf log = enqueuedOf older ++ messagesFrom log j k := by
  induction log generalizing n k with
  | nil =>
      obtain ⟨j, e, older, -, heq, -⟩ := hl
      cases heq
  | cons e log ih =>
      obtain ⟨i, _, _, rfl, heq, messages, rfl⟩ := hl
      obtain ⟨rfl, rfl⟩ := List.cons.inj heq
      obtain ⟨⟨-, -, -, hrule⟩, hg⟩ := hg
      have hcomplete : (Entry.frame i (.offered messages messages false)).Complete i :=
        ⟨messages, rfl⟩
      have hmessages : messagesOf (.frame i (.offered messages messages false) :: log) i = messages := by
        simp [messagesOf]
      cases hkey : V.isKey (source i) with
      | true =>
          refine ⟨i, log, ⟨Nat.lt_succ_self i, hkey, by omega⟩, fun i' h₁ h₂ => ?_, hb.2, ?_⟩
          · obtain rfl : i = i' := by omega
            exact ⟨_, List.mem_cons_self, hcomplete⟩
          · simp [enqueuedOf, messagesFrom, hmessages]
      | false =>
          have hlink : Linked log i := hrule.resolve_left (by simp [hkey])
          obtain ⟨j, older, ⟨hlt, hj, hbetween⟩, hall, hbefore, heq⟩ := ih hg hb.2 hlink
          refine ⟨j, older, ⟨by omega, hj, fun i' h₁ h₂ => ?_⟩, fun i' h₁ h₂ => ?_, hbefore, ?_⟩
          · rcases Nat.lt_succ_iff_lt_or_eq.mp h₂ with h₂ | rfl
            · exact hbetween i' h₁ h₂
            · exact hkey
          · rcases Nat.lt_succ_iff_lt_or_eq.mp h₂ with h₂ | rfl
            · obtain ⟨e, he, hc⟩ := hall i' h₁ h₂
              exact ⟨e, List.mem_cons_of_mem _ he, hc⟩
            · exact ⟨_, List.mem_cons_self, hcomplete⟩
          · -- Frame `i` extends the chain that ends below it.
            have hrange : List.range' j (i + 1 - j) = List.range' j (i - j) ++ [i] := by
              rw [show i + 1 - j = i - j + 1 by omega, List.range'_1_concat,
                show j + (i - j) = i by omega]
            have hbelow : messagesFrom (.frame i (.offered messages messages false) :: log) j i =
                messagesFrom log j i :=
              messagesFrom_append [.frame i (.offered messages messages false)]
                (by simp)
            have hsplit : messagesFrom (.frame i (.offered messages messages false) :: log) j (i + 1) =
                messagesFrom log j i ++ messages.map (i, ·) := by
              rw [← hbelow, messagesFrom, hrange, List.flatMap_append]
              simp [messagesFrom, hmessages]
            rw [hsplit, enqueuedOf, heq, List.append_assoc]

end Session

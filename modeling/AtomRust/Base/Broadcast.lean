-- SUMMARY: Bounded broadcast channels: every subscriber reads every value, and one that falls too far behind is told how many it missed.
import Mathlib.Data.List.Basic

/-!
# Broadcast channels

A channel is the list of the values sent on it, oldest first, and a subscriber
is a position in that list. The channel keeps the last `capacity` values; a
subscriber whose next value has been overwritten gets `lagged` once, with the
number of values it lost, and continues at the oldest value that is left.

A value sent while nobody is subscribed is lost in the implementation and stays
in the list here. Nobody can tell: a later subscriber starts at the end of the
list.
-/

namespace Broadcast

/-- What a subscriber reads. -/
inductive Received (α : Type*) where
  | value (a : α)
  | lagged (skipped : Nat)

variable {α : Type*} {capacity : Nat} {sent : List α} {cursor : Nat}

/-- The position of a subscriber that joins now. -/
def subscribe (sent : List α) : Nat := sent.length

/-- The next thing to read at `cursor`, and the position after it. `none` says
that there is nothing to read yet. -/
def recv (capacity : Nat) (sent : List α) (cursor : Nat) : Option (Received α × Nat) :=
  if cursor < sent.length - capacity then
    some (.lagged (sent.length - capacity - cursor), sent.length - capacity)
  else
    (sent[cursor]?).map fun a => (.value a, cursor + 1)

theorem recv_eq_none : recv capacity sent cursor = none ↔ sent.length ≤ cursor := by
  unfold recv
  split
  · simp only [reduceCtorEq, false_iff]; omega
  · simp

/-- A subscriber that is at most `capacity` behind reads the value at its
position. -/
theorem recv_of_getElem? {a : α} (h : sent[cursor]? = some a)
    (hcap : sent.length ≤ cursor + capacity) :
    recv capacity sent cursor = some (.value a, cursor + 1) := by
  unfold recv
  rw [if_neg (by omega), h]
  rfl

/-- A subscriber that reads a value is at most `capacity` behind. -/
theorem of_recv_value {a : α} {cursor' : Nat}
    (h : recv capacity sent cursor = some (.value a, cursor')) :
    sent[cursor]? = some a ∧ sent.length ≤ cursor + capacity := by
  unfold recv at h
  split at h
  · cases h
  next hlt =>
    obtain ⟨b, hb, heq⟩ := Option.map_eq_some_iff.mp h
    cases heq
    exact ⟨hb, by omega⟩

/-- One that has lost values is further behind. -/
theorem of_recv_lagged {skipped cursor' : Nat}
    (h : recv capacity sent cursor = some (.lagged skipped, cursor')) :
    cursor + capacity < sent.length := by
  unfold recv at h
  split at h
  next hlt => omega
  · obtain ⟨b, -, heq⟩ := Option.map_eq_some_iff.mp h
    cases heq

/-- It goes on behind the values that it lost. -/
theorem cursor_of_recv_lagged {skipped cursor' : Nat}
    (h : recv capacity sent cursor = some (.lagged skipped, cursor')) :
    0 < skipped ∧ cursor' = cursor + skipped := by
  unfold recv at h
  split at h
  next hlt =>
    cases h
    omega
  · obtain ⟨b, -, heq⟩ := Option.map_eq_some_iff.mp h
    cases heq

/-- Reading moves the subscriber forward, and never past the end. -/
theorem cursor_of_recv {r : Received α} {cursor' : Nat}
    (h : recv capacity sent cursor = some (r, cursor')) :
    cursor < cursor' ∧ cursor' ≤ sent.length := by
  unfold recv at h
  split at h
  · simp only [Option.some.injEq, Prod.mk.injEq] at h
    omega
  · obtain ⟨a, ha, heq⟩ := Option.map_eq_some_iff.mp h
    have hlt : cursor < sent.length := (List.getElem?_eq_some_iff.mp ha).1
    simp only [Prod.mk.injEq] at heq
    omega

/-! ## What a subscriber has read -/

variable {joined : Nat} {read : List (α × Nat)}

/-- What a subscriber that joined at `joined` has read when it stands at `cursor`. Each
value has its position with it. -/
structure Followed (capacity : Nat) (sent : List α) (joined cursor : Nat)
    (read : List (α × Nat)) : Prop where
  joined_le : joined ≤ cursor
  cursor_le : cursor ≤ sent.length
  sublist : read.Sublist ((sent.take cursor).zipIdx.drop joined)
  /-- A value is passed over only when it has been overwritten. -/
  passed : ∀ a i, joined ≤ i → i < cursor → sent[i]? = some a → (a, i) ∉ read →
    i + capacity < sent.length

/-- The value that a subscriber reads, if it is one. -/
def Received.value? : Received α → Option α
  | .value a => some a
  | .lagged _ => none

theorem followed_subscribe (capacity : Nat) (sent : List α) :
    Followed capacity sent (subscribe sent) (subscribe sent) [] where
  joined_le := Nat.le_refl _
  cursor_le := Nat.le_refl _
  sublist := List.nil_sublist _
  passed := fun _ _ hle hlt => absurd hlt (Nat.not_lt_of_le hle)

namespace Followed

theorem send (h : Followed capacity sent joined cursor read) (a : α) :
    Followed capacity (sent ++ [a]) joined cursor read where
  joined_le := h.joined_le
  cursor_le := Nat.le_trans h.cursor_le (by simp)
  sublist := by
    rw [List.take_append_of_le_length h.cursor_le]
    exact h.sublist
  passed := by
    intro b i hle hlt hb hmem
    rw [List.getElem?_append_left (Nat.lt_of_lt_of_le hlt h.cursor_le)] at hb
    have hover := h.passed b i hle hlt hb hmem
    rw [List.length_append]
    exact Nat.lt_of_lt_of_le hover (Nat.le_add_right _ _)

theorem value {a : α} (h : Followed capacity sent joined cursor read)
    (ha : sent[cursor]? = some a) :
    Followed capacity sent joined (cursor + 1) (read ++ [(a, cursor)]) where
  joined_le := Nat.le_succ_of_le h.joined_le
  cursor_le := (List.getElem?_eq_some_iff.mp ha).1
  sublist := by
    obtain ⟨hlt, rfl⟩ := List.getElem?_eq_some_iff.mp ha
    have hlength : (sent.take cursor).length = cursor := List.length_take_of_le h.cursor_le
    rw [List.take_succ_eq_append_getElem hlt, List.zipIdx_append,
      List.drop_append_of_le_length (by simp [hlength, h.joined_le]), hlength, Nat.zero_add]
    exact h.sublist.append_right _
  passed := by
    intro b i hle hlt hb hmem
    rw [List.mem_append, List.mem_singleton, not_or] at hmem
    rcases Nat.lt_succ_iff_lt_or_eq.mp hlt with hlt | rfl
    · exact h.passed b i hle hlt hb hmem.1
    · obtain rfl := Option.some.inj (ha.symm.trans hb)
      exact absurd rfl hmem.2

theorem lagged (h : Followed capacity sent joined cursor read)
    (hlag : cursor + capacity < sent.length) :
    Followed capacity sent joined (sent.length - capacity) read where
  joined_le := Nat.le_trans h.joined_le (by omega)
  cursor_le := Nat.sub_le _ _
  sublist := by
    have hprefix : sent.take cursor <+: sent.take (sent.length - capacity) :=
      List.take_prefix_take_left (by omega)
    obtain ⟨rest, hrest⟩ := hprefix
    have hlength : (sent.take cursor).length = cursor := List.length_take_of_le h.cursor_le
    rw [← hrest, List.zipIdx_append,
      List.drop_append_of_le_length (by simp [hlength, h.joined_le])]
    exact h.sublist.trans (List.sublist_append_left _ _)
  passed := fun _ i _ hlt _ _ => by omega

theorem recv {r : Received α} {cursor' : Nat} (h : Followed capacity sent joined cursor read)
    (hr : recv capacity sent cursor = some (r, cursor')) :
    Followed capacity sent joined cursor' (read ++ (r.value?.map fun a => (a, cursor)).toList) := by
  cases r with
  | value a =>
      obtain ⟨ha, -⟩ := of_recv_value hr
      obtain rfl : cursor + 1 = cursor' := by
        rw [recv_of_getElem? ha (of_recv_value hr).2] at hr
        cases hr
        rfl
      exact h.value ha
  | lagged skipped =>
      have hlag := of_recv_lagged hr
      obtain rfl : sent.length - capacity = cursor' := by
        rw [Broadcast.recv, if_pos (by omega)] at hr
        cases hr
        rfl
      simpa [Received.value?] using h.lagged hlag

theorem of_mem (h : Followed capacity sent joined cursor read) {a : α} {i : Nat}
    (hmem : (a, i) ∈ read) : joined ≤ i ∧ i < cursor ∧ sent[i]? = some a := by
  have hmem := h.sublist.subset hmem
  obtain ⟨k, hk, heq⟩ := List.mem_iff_getElem.mp hmem
  simp only [List.length_drop, List.length_zipIdx, List.length_take] at hk
  simp only [List.getElem_drop, List.getElem_zipIdx, List.getElem_take, Nat.zero_add,
    Prod.mk.injEq] at heq
  obtain ⟨rfl, rfl⟩ := heq
  exact ⟨Nat.le_add_right _ _, by omega, List.getElem?_eq_getElem _⟩

theorem increasing (h : Followed capacity sent joined cursor read) :
    (read.map Prod.snd).Pairwise (· < ·) := by
  have hall : (((sent.take cursor).zipIdx.drop joined).map Prod.snd).Pairwise (· < ·) := by
    rw [List.map_drop, List.zipIdx_map_snd]
    exact List.Pairwise.sublist (List.drop_sublist _ _) List.pairwise_lt_range'
  exact hall.sublist (h.sublist.map _)

/-- What was read is part of what was sent since, in the same order. -/
theorem values_sublist (h : Followed capacity sent joined cursor read) :
    (read.map Prod.fst).Sublist (sent.drop joined) := by
  have hvalues := h.sublist.map Prod.fst
  rw [List.map_drop, List.zipIdx_map_fst] at hvalues
  exact hvalues.trans ((List.take_sublist _ _).drop _)

/-- A subscriber that has nothing left to read has read the last value. -/
theorem getLast? (h : Followed capacity sent joined cursor read) (hcap : 0 < capacity)
    (hend : sent.length ≤ cursor) (hjoined : joined < sent.length) :
    (read.map Prod.fst).getLast? = sent.getLast? := by
  have hlast : sent[sent.length - 1]? = some sent[sent.length - 1] :=
    List.getElem?_eq_getElem (by omega)
  have hmem : (sent[sent.length - 1], sent.length - 1) ∈ read := by
    by_contra hnot
    have hover := h.passed _ _ (by omega) (by omega) hlast hnot
    omega
  rw [List.getLast?_eq_getElem? (l := sent), hlast]
  rcases List.eq_nil_or_concat' read with rfl | ⟨init, ⟨a, i⟩, rfl⟩
  · cases hmem
  · have hi := h.of_mem (a := a) (i := i) (by simp)
    have hcursor := h.cursor_le
    rcases List.mem_append.mp hmem with hinit | hsame
    · -- The last value read would come behind the last one sent.
      have hpairwise := h.increasing
      rw [List.map_append, List.pairwise_append] at hpairwise
      have hlt := hpairwise.2.2 _ (List.mem_map_of_mem hinit) i (by simp)
      simp only at hlt
      omega
    · obtain ⟨rfl, -⟩ := Prod.mk.inj (List.mem_singleton.mp hsame)
      simp

end Followed
/-! ## Subscribers -/

/-- The number of values that a channel made with `capacity` keeps. -/
def buffered (capacity : Nat) : Nat := capacity.nextPowerOfTwo

theorem buffered_pos (capacity : Nat) : 0 < buffered capacity :=
  Nat.pos_of_isPowerOfTwo (Nat.isPowerOfTwo_nextPowerOfTwo capacity)

/-- A receiver, with ghosts for where it joined and what it has read. -/
structure Subscriber (α : Type*) where
  joined : Nat
  cursor : Nat
  read : List (α × Nat)

namespace Subscriber

/-- The receiver of someone who joins now. -/
def join (sent : List α) : Subscriber α where
  joined := subscribe sent
  cursor := subscribe sent
  read := []

def recv (capacity : Nat) (sent : List α) (s : Subscriber α) :
    Option (Received α × Subscriber α) :=
  (Broadcast.recv capacity sent s.cursor).map fun r =>
    (r.1, { s with
      cursor := r.2
      read := s.read ++ (r.1.value?.map fun a => (a, s.cursor)).toList })

/-- What the receiver has read is what it could read. -/
def Follows (capacity : Nat) (sent : List α) (s : Subscriber α) : Prop :=
  Followed capacity sent s.joined s.cursor s.read

/-- The values that were read, oldest first. -/
def values (s : Subscriber α) : List α := s.read.map Prod.fst

variable {s s' : Subscriber α} {r : Received α}

theorem follows_join (capacity : Nat) (sent : List α) : Follows capacity sent (join sent) :=
  followed_subscribe capacity sent

theorem recv_eq_none : s.recv capacity sent = none ↔ sent.length ≤ s.cursor := by
  rw [recv, Option.map_eq_none_iff, Broadcast.recv_eq_none]

/-- What is sent meanwhile makes no difference. -/
theorem Follows.send (h : s.Follows capacity sent) (as : List α) :
    s.Follows capacity (sent ++ as) := by
  induction as generalizing sent with
  | nil => rwa [List.append_nil]
  | cons a as ih =>
      rw [List.append_cons]
      exact ih (Followed.send h a)

theorem Follows.recv (h : s.Follows capacity sent) (hr : s.recv capacity sent = some (r, s')) :
    s'.Follows capacity sent := by
  obtain ⟨⟨r', cursor'⟩, hrecv, heq⟩ := Option.map_eq_some_iff.mp hr
  cases heq
  exact Followed.recv h hrecv

/-- A value that is read is the one at the receiver's place. -/
theorem of_recv_value {a : α} (hr : s.recv capacity sent = some (.value a, s')) :
    sent[s.cursor]? = some a ∧ s'.cursor = s.cursor + 1 ∧ s'.read = s.read ++ [(a, s.cursor)] := by
  obtain ⟨⟨r', cursor'⟩, hrecv, heq⟩ := Option.map_eq_some_iff.mp hr
  cases heq
  obtain ⟨ha, hroom⟩ := Broadcast.of_recv_value hrecv
  rw [recv_of_getElem? ha hroom] at hrecv
  cases hrecv
  exact ⟨ha, rfl, rfl⟩

theorem of_recv_lagged {skipped : Nat} (hr : s.recv capacity sent = some (.lagged skipped, s')) :
    0 < skipped ∧ s'.cursor = s.cursor + skipped ∧ s'.read = s.read := by
  obtain ⟨⟨r', cursor'⟩, hrecv, heq⟩ := Option.map_eq_some_iff.mp hr
  cases heq
  obtain ⟨hpos, hcursor⟩ := cursor_of_recv_lagged hrecv
  exact ⟨hpos, hcursor, by simp [Received.value?]⟩

theorem values_recv (hr : s.recv capacity sent = some (r, s')) :
    s'.values = s.values ++ r.value?.toList := by
  obtain ⟨⟨r', cursor'⟩, -, heq⟩ := Option.map_eq_some_iff.mp hr
  cases heq
  cases r' <;> simp [values, Received.value?]

/-- One that has read everything reads the next value. -/
theorem recv_next (hcap : 0 < capacity) (hcursor : s.cursor = sent.length) (a : α) :
    s.recv capacity (sent ++ [a]) =
      some (.value a, { s with cursor := s.cursor + 1, read := s.read ++ [(a, s.cursor)] }) := by
  have hnext : (sent ++ [a])[s.cursor]? = some a := by simp [hcursor]
  have hroom : (sent ++ [a]).length ≤ s.cursor + capacity := by
    rw [List.length_append, List.length_singleton, hcursor]
    omega
  rw [recv, recv_of_getElem? hnext hroom]
  rfl

theorem joined_recv (hr : s.recv capacity sent = some (r, s')) : s'.joined = s.joined := by
  obtain ⟨⟨r', cursor'⟩, -, heq⟩ := Option.map_eq_some_iff.mp hr
  cases heq
  rfl

end Subscriber

end Broadcast

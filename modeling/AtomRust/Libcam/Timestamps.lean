-- SUMMARY: The timestamps that the muxer gets: they increase strictly, never fall behind the sensor, and lead it by a bounded amount.
import AtomRust.Libcam.LibCam

/-!
# Timestamps

A frame whose sensor timestamp does not go beyond the last `pts` is corrected: it gets
the last `pts` and one frame duration. The next frame is compared with that. `pts` is
the resulting sequence over the integers; the callback computes it without an overflow
as long as the sensor's timestamps and their number are bounded.
-/

namespace Timestamps

/-! ## The sequence -/

section Sequence
variable (ts : ℕ → ℤ) (dur : ℤ)

def pts : ℕ → ℤ
  | 0 => 0
  | n + 1 => if ts (n + 1) - ts 0 ≤ pts n then pts n + dur else ts (n + 1) - ts 0

/-- The number of consecutive corrected frames that end with frame `n`. -/
def corrections (published : ℕ → ℤ) : ℕ → ℕ
  | 0 => 0
  | n + 1 => if ts (n + 1) - ts 0 ≤ published n then corrections published n + 1 else 0

variable {ts dur}

theorem corrections_congr {p q : ℕ → ℤ} {n : ℕ} (h : ∀ k < n, p k = q k) :
    corrections ts p n = corrections ts q n := by
  induction n with
  | zero => rfl
  | succ n ih =>
      rw [corrections, corrections, h n (Nat.lt_succ_self n),
        ih fun k hk => h k (Nat.lt_succ_of_lt hk)]

theorem corrections_le (published : ℕ → ℤ) (n : ℕ) : corrections ts published n ≤ n := by
  induction n with
  | zero => exact le_rfl
  | succ n ih =>
      rw [corrections]
      split <;> omega

theorem pts_lt_succ (hdur : 0 < dur) (n : ℕ) : pts ts dur n < pts ts dur (n + 1) := by
  rw [pts]
  split <;> omega

theorem pts_lt_of_lt (hdur : 0 < dur) {m n : ℕ} (h : m < n) : pts ts dur m < pts ts dur n := by
  induction h with
  | refl => exact pts_lt_succ hdur m
  | step _ ih => exact ih.trans (pts_lt_succ hdur _)

theorem sub_le_pts (hdur : 0 < dur) (n : ℕ) : ts n - ts 0 ≤ pts ts dur n := by
  cases n with
  | zero => simp [pts]
  | succ n =>
      rw [pts]
      split <;> omega

theorem pts_eq_of_lt {n : ℕ} (h : pts ts dur n < ts (n + 1) - ts 0) :
    pts ts dur (n + 1) = ts (n + 1) - ts 0 := by
  rw [pts, if_neg (not_le_of_gt h)]

/-- A sensor that never stands still is followed exactly. -/
theorem pts_eq_of_increasing {n : ℕ} (h : ∀ k < n, ts k < ts (k + 1)) :
    pts ts dur n = ts n - ts 0 := by
  induction n with
  | zero => simp [pts]
  | succ n ih =>
      have hprev := ih fun k hk => h k (Nat.lt_succ_of_lt hk)
      have hlast := h n (Nat.lt_succ_self n)
      exact pts_eq_of_lt (by omega)

/-- The lead over the sensor comes from the corrections alone. -/
theorem exists_pts_le (ts : ℕ → ℤ) (dur : ℤ) (n : ℕ) :
    ∃ k ≤ n, pts ts dur n ≤ ts k - ts 0 + dur * corrections ts (pts ts dur) n := by
  induction n with
  | zero => exact ⟨0, le_rfl, by simp [pts, corrections]⟩
  | succ n ih =>
      obtain ⟨k, hk, hle⟩ := ih
      rw [pts, corrections]
      split
      · refine ⟨k, hk.trans (Nat.le_succ n), ?_⟩
        push_cast
        linarith
      · exact ⟨n + 1, le_rfl, by simp⟩

theorem pts_nonneg (ts : ℕ → ℤ) (hdur : 0 < dur) (n : ℕ) : 0 ≤ pts ts dur n := by
  cases n with
  | zero => exact le_rfl
  | succ n => exact (pts_lt_of_lt hdur n.succ_pos).le

theorem pts_le {bound : ℤ} (hdur : 0 < dur) {n : ℕ} (h : ∀ k ≤ n, ts k - ts 0 ≤ bound) :
    pts ts dur n ≤ bound + dur * n := by
  obtain ⟨k, hk, hle⟩ := exists_pts_le ts dur n
  have hcorrections : dur * corrections ts (pts ts dur) n ≤ dur * n :=
    mul_le_mul_of_nonneg_left (by exact_mod_cast corrections_le _ n) hdur.le
  have hbound := h k hk
  omega

end Sequence

end Timestamps

/-! ## The two builds -/

theorem I64.wrap_of_check {x y : ℤ} (h : check x = some y) : wrap x = pure y := by
  obtain ⟨hx, heq⟩ := Option.ite_none_right_eq_some.mp h
  obtain rfl := Option.some.inj heq
  exact Int.bmod_eq_of_le (by omega) (by omega)

theorem I64.check_of_bounds {x : ℤ} (hlow : -2 ^ 63 ≤ x) (hhigh : x < 2 ^ 63) :
    check x = some x := if_pos ⟨hlow, hhigh⟩

namespace H264State
variable {st : H264State} {t : ℤ}

/-- Without an overflow the release build computes the same. -/
theorem correct_of_check {elapsed pts : ℤ} (h : st.correct I64.check elapsed = some pts) :
    st.correct I64.wrap elapsed = pure pts := by
  unfold correct at h ⊢
  split at h
  next hle => rw [if_pos hle, I64.wrap_of_check h]
  next hlt => rw [if_neg hlt, Option.some.inj h]

theorem stamp_of_check {r : ℤ × H264State} (h : st.stamp I64.check t = some r) :
    st.stamp I64.wrap t = pure r := by
  unfold stamp at h ⊢
  obtain ⟨elapsed, helapsed, h⟩ := Option.bind_eq_some_iff.mp h
  obtain ⟨pts, hpts, h⟩ := Option.bind_eq_some_iff.mp h
  rw [I64.wrap_of_check helapsed, pure_bind, correct_of_check hpts, pure_bind, ← Option.some.inj h]

end H264State

namespace LibCamCallback
variable {S F : Type} {c c' : LibCamCallback S F}

theorem sendPacket_of_check {f : H264Frame S} (h : c.sendPacket I64.check f = some c') :
    c.sendPacket I64.wrap f = pure c' := by
  unfold sendPacket at h ⊢
  split at h
  next hstream =>
    obtain ⟨r, hstamp, h⟩ := Option.bind_eq_some_iff.mp h
    rw [if_pos hstream, H264State.stamp_of_check hstamp, pure_bind, ← Option.some.inj h]
  next hstream =>
    rw [if_neg hstream, Option.some.inj h]

theorem callbackH264_of_check {f : H264Frame S} (h : callbackH264 I64.check c f = some c') :
    callbackH264 I64.wrap c f = pure c' := by
  unfold callbackH264 at h ⊢
  obtain ⟨c₁, hsend, h⟩ := Option.bind_eq_some_iff.mp h
  rw [sendPacket_of_check hsend, pure_bind, ← Option.some.inj h]

theorem foldlM_of_check {fs : List (H264Frame S)}
    (h : fs.foldlM (callbackH264 I64.check) c = some c') :
    fs.foldlM (callbackH264 I64.wrap) c = pure c' := by
  induction fs generalizing c with
  | nil => exact congrArg pure (Option.some.inj h)
  | cons f fs ih =>
      obtain ⟨c₁, hf, hfs⟩ := Option.bind_eq_some_iff.mp h
      rw [List.foldlM_cons, callbackH264_of_check hf, pure_bind]
      exact ih hfs

/-! ## The run -/

open Timestamps (corrections pts)

/-- The frames that come when the stream is known. -/
def known (fs : List (H264Frame S)) : List (H264Frame S) := fs.dropWhile fun f => !f.analyzed

theorem known_concat (fs : List (H264Frame S)) (f : H264Frame S) :
    known (fs ++ [f]) =
      if !(known fs).isEmpty || f.analyzed then known fs ++ [f] else known fs := by
  unfold known
  rw [List.dropWhile_append]
  cases hempty : (fs.dropWhile fun f => !f.analyzed).isEmpty with
  | false => simp
  | true =>
      rw [List.isEmpty_iff.mp hempty]
      cases hf : f.analyzed <;> simp [hf]

/-- The state after `n` timestamps. -/
structure Stamped (ts : ℕ → ℤ) (dur : ℤ) (n : ℕ) (st : H264State) : Prop where
  first : st.firstTsUs = if n = 0 then none else some (ts 0)
  last : st.lastPtsUs = if n = 0 then -1 else pts ts dur (n - 1)
  duration : st.frameDurationUs = dur

/-- The sensor's timestamps and their number are bounded, and so is the duration. -/
structure Bounded (ts : ℕ → ℤ) (dur : ℤ) (count : ℕ) : Prop where
  pos : 0 < dur
  le : dur ≤ 1000000
  count_lt : count < 2 ^ 40
  ts : ∀ n < count, 0 ≤ ts n ∧ ts n < 2 ^ 62

theorem Bounded.pts_lt {ts : ℕ → ℤ} {dur : ℤ} {count n : ℕ} (h : Bounded ts dur count)
    (hn : n < count) : pts ts dur n < 2 ^ 63 := by
  have hlead : ∀ k ≤ n, ts k - ts 0 ≤ 2 ^ 62 := by
    intro k hk
    have hk := h.ts k (by omega)
    have hzero := h.ts 0 (by omega)
    omega
  have hmul : dur * n ≤ 1000000 * 2 ^ 40 := by
    apply mul_le_mul h.le _ (Nat.cast_nonneg n) (by decide)
    have hcount := h.count_lt
    exact_mod_cast (by omega : n ≤ 2 ^ 40)
  have hle := Timestamps.pts_le h.pos hlead
  omega

/-- No operation on the next timestamp overflows. -/
theorem Stamped.stamp {ts : ℕ → ℤ} {dur : ℤ} {count n : ℕ} {st : H264State}
    (h : Stamped ts dur n st) (hb : Bounded ts dur count) (hn : n < count) :
    ∃ st', st.stamp I64.check (ts n) = some (pts ts dur n, st') ∧ Stamped ts dur (n + 1) st' ∧
      st'.stream = st.stream := by
  have hfirst : st.first (ts n) = ts 0 := by
    rw [H264State.first, h.first]
    split
    next hzero => rw [hzero]; rfl
    next hpos => rfl
  have helapsed : I64.check (ts n - ts 0) = some (ts n - ts 0) := by
    have hts := hb.ts n hn
    have hzero := hb.ts 0 (by omega)
    exact I64.check_of_bounds (by omega) (by omega)
  have hpts : I64.check (pts ts dur n) = some (pts ts dur n) := by
    have hnonneg := Timestamps.pts_nonneg ts hb.pos n
    exact I64.check_of_bounds (by omega) (hb.pts_lt hn)
  have hcorrect : st.correct I64.check (ts n - ts 0) = some (pts ts dur n) := by
    rw [H264State.correct, h.last, h.duration]
    cases n with
    | zero => simp [pts]
    | succ n =>
        rw [pts] at hpts ⊢
        simp only [Nat.succ_ne_zero, if_false, Nat.add_sub_cancel]
        split
        next hle => rwa [if_pos hle] at hpts
        next hlt => rfl
  refine ⟨{ st with firstTsUs := some (ts 0), lastPtsUs := pts ts dur n }, ?_, ⟨?_, ?_, ?_⟩, rfl⟩
  · simp only [H264State.stamp, hfirst, helapsed, Option.bind_eq_bind, Option.bind_some, hcorrect]
    rfl
  · rfl
  · rfl
  · exact h.duration

/-- What the callbacks have done with the frames so far. -/
structure Sent (ts : ℕ → ℤ) (dur : ℤ) (n : ℕ) (c : LibCamCallback S F) : Prop where
  stream : c.h264.stream = decide (0 < n)
  stamped : Stamped ts dur n c.h264
  pts : c.packetTx.map (·.pts) = (List.range n).map (pts ts dur)

theorem findStream_h264 (c : LibCamCallback S F) (f : H264Frame S) :
    (c.findStream f).h264 = { c.h264 with stream := c.h264.stream || f.analyzed } := by
  obtain ⟨⟨reporter, stream, first, last, duration⟩, lowres, rest⟩ := c
  unfold findStream
  cases stream <;> cases f.analyzed <;> rfl

theorem findStream_packetTx (c : LibCamCallback S F) (f : H264Frame S) :
    (c.findStream f).packetTx = c.packetTx := by
  unfold findStream
  split <;> rfl

theorem Sent.step {ts : ℕ → ℤ} {dur : ℤ} {count n : ℕ} (h : Sent ts dur n c)
    (hb : Bounded ts dur count) {f : H264Frame S} (hknown : 0 < n ∨ f.analyzed)
    (hn : n < count) (hf : f.timestampUs = ts n) :
    ∃ c', callbackH264 I64.check c f = some c' ∧ Sent ts dur (n + 1) c' := by
  have hh264 := findStream_h264 { c with lastFrame := f.monoMillis } f
  have hpackets := findStream_packetTx { c with lastFrame := f.monoMillis } f
  have hstream : (c.h264.stream || f.analyzed) = true := by
    rw [h.stream]
    simpa using hknown
  rw [hstream] at hh264
  have hstamped : Stamped ts dur n { c.h264 with stream := true } :=
    ⟨h.stamped.first, h.stamped.last, h.stamped.duration⟩
  obtain ⟨st, hstamp, hst, hst'⟩ := hstamped.stamp hb hn
  unfold callbackH264 sendPacket
  rw [hh264, if_pos rfl, hf, hstamp, hpackets]
  refine ⟨_, rfl, ?_, ?_, ?_⟩
  · exact hst'.trans (by simp)
  · exact ⟨hst.first, hst.last, hst.duration⟩
  · simp [reportH264, packet, h.pts, List.range_succ]

/-- A frame is not looked at further while the stream is unknown. -/
theorem Sent.step_unknown {ts : ℕ → ℤ} {dur : ℤ} (h : Sent ts dur 0 c)
    {f : H264Frame S} (hf : f.analyzed = false) :
    ∃ c', callbackH264 I64.check c f = some c' ∧ Sent ts dur 0 c' := by
  have hh264 := findStream_h264 { c with lastFrame := f.monoMillis } f
  have hpackets := findStream_packetTx { c with lastFrame := f.monoMillis } f
  have hstream : (c.h264.stream || f.analyzed) = false := by
    rw [h.stream, hf]
    rfl
  rw [hstream] at hh264
  unfold callbackH264 sendPacket
  rw [hh264, if_neg Bool.false_ne_true]
  refine ⟨_, rfl, ?_, ?_, ?_⟩
  · simp [reportH264, hh264]
  · simp only [reportH264, hh264]
    exact ⟨h.stamped.first, h.stamped.last, h.stamped.duration⟩
  · simp only [reportH264, hpackets]
    exact h.pts

/-- The stream's timestamps, with nothing behind the last. -/
def sensor (fs : List (H264Frame S)) (n : ℕ) : ℤ := (fs.map (·.timestampUs)).getD n 0

theorem exists_sent {K : List (H264Frame S)} {dur : ℤ} (hb : Bounded (sensor K) dur K.length)
    (h₀ : Sent (sensor K) dur 0 c) (fs : List (H264Frame S)) (hfs : known fs <+: K) :
    ∃ c', fs.foldlM (callbackH264 I64.check) c = some c' ∧
      Sent (sensor K) dur (known fs).length c' := by
  induction fs using List.reverseRecOn with
  | nil => exact ⟨c, rfl, h₀⟩
  | append_singleton fs f ih =>
      rw [known_concat] at hfs ⊢
      rw [List.foldlM_append]
      split at hfs
      next hknown =>
        obtain ⟨c', hrun, hsent⟩ := ih ((List.prefix_append _ _).trans hfs)
        have hpos : 0 < (known fs).length ∨ f.analyzed := by
          simpa [List.length_pos_iff] using hknown
        have hlen : (known fs).length < K.length := by
          have hle := hfs.length_le
          rw [List.length_append, List.length_singleton] at hle
          exact hle
        have hf : f.timestampUs = sensor K (known fs).length := by
          obtain ⟨rest, rfl⟩ := hfs
          simp [sensor]
        obtain ⟨c'', hstep, hsent'⟩ := hsent.step hb hpos hlen hf
        rw [if_pos hknown]
        exact ⟨c'', by simp [hrun, hstep], by simpa using hsent'⟩
      next hunknown =>
        obtain ⟨c', hrun, hsent⟩ := ih hfs
        obtain ⟨hnil, hf⟩ : known fs = [] ∧ f.analyzed = false := by simpa using hunknown
        rw [hnil] at hsent
        obtain ⟨c'', hstep, hsent'⟩ := hsent.step_unknown hf
        rw [if_neg hunknown, hnil]
        exact ⟨c'', by simp [hrun, hstep], hsent'⟩

/-- What is said of the published `pts`, given the sensor's timestamps. -/
structure Follows (dur : ℤ) (ts published : List ℤ) : Prop where
  length : published.length = ts.length
  start : ∀ p, published[0]? = some p → p = 0
  increasing : published.Pairwise (· < ·)
  no_lag : ∀ (n : ℕ) (t₀ t p : ℤ), ts[0]? = some t₀ → ts[n]? = some t →
    published[n]? = some p → t - t₀ ≤ p
  resync : ∀ (n : ℕ) (t₀ t q p : ℤ), ts[0]? = some t₀ → ts[n + 1]? = some t →
    published[n]? = some q → published[n + 1]? = some p → q < t - t₀ → p = t - t₀
  exact : ts.Pairwise (· < ·) → ∀ (n : ℕ) (t₀ t p : ℤ), ts[0]? = some t₀ → ts[n]? = some t →
    published[n]? = some p → p = t - t₀
  lead : ∀ (n : ℕ) (t₀ p : ℤ), ts[0]? = some t₀ → published[n]? = some p →
    ∃ k t, k ≤ n ∧ ts[k]? = some t ∧
      p ≤ t - t₀ + dur * corrections (fun k => ts.getD k 0) (fun k => published.getD k 0) n

theorem follows_of_pts {dur : ℤ} (ts : List ℤ) (hdur : 0 < dur) :
    Follows dur ts ((List.range ts.length).map (pts (fun k => ts.getD k 0) dur)) := by
  set f : ℕ → ℤ := fun k => ts.getD k 0 with hf
  have hts : ∀ (n : ℕ) (t : ℤ), ts[n]? = some t → f n = t := by
    intro n t h
    simp [hf, h]
  have hpts : ∀ (n : ℕ) (p : ℤ), ((List.range ts.length).map (pts f dur))[n]? = some p →
      n < ts.length ∧ pts f dur n = p := by
    intro n p h
    obtain ⟨hlen, rfl⟩ := List.getElem?_eq_some_iff.mp h
    exact ⟨by simpa using hlen, by simp⟩
  refine
    { length := by simp
      start := ?_
      increasing := ?_
      no_lag := ?_
      resync := ?_
      exact := ?_
      lead := ?_ }
  · intro p hp
    exact (hpts 0 p hp).2.symm
  · rw [List.pairwise_map]
    exact List.pairwise_lt_range.imp fun h => Timestamps.pts_lt_of_lt hdur h
  · intro n t₀ t p h₀ ht hp
    rw [← hts 0 t₀ h₀, ← hts n t ht, ← (hpts n p hp).2]
    exact Timestamps.sub_le_pts hdur n
  · intro n t₀ t q p h₀ ht hq hp hlt
    rw [← hts 0 t₀ h₀, ← hts _ t ht, ← (hpts _ p hp).2]
    rw [← hts 0 t₀ h₀, ← hts _ t ht, ← (hpts n q hq).2] at hlt
    exact Timestamps.pts_eq_of_lt hlt
  · intro hincreasing n t₀ t p h₀ ht hp
    rw [← hts 0 t₀ h₀, ← hts n t ht, ← (hpts n p hp).2]
    apply Timestamps.pts_eq_of_increasing
    intro k hk
    have hlen : k + 1 < ts.length := by
      have hn := (hpts n p hp).1
      omega
    have hk := List.pairwise_iff_getElem.mp hincreasing k (k + 1) (by omega) hlen (by omega)
    simpa [hf, hlen, Nat.lt_of_succ_lt hlen] using hk
  · intro n t₀ p h₀ hp
    obtain ⟨hn, rfl⟩ := hpts n p hp
    obtain ⟨k, hk, hle⟩ := Timestamps.exists_pts_le f dur n
    have hk' : ts[k]? = some (f k) := by
      have hlen : k < ts.length := by omega
      simp [hf, hlen]
    refine ⟨k, f k, hk, hk', ?_⟩
    rw [← hts 0 t₀ h₀]
    convert hle using 4
    apply Timestamps.corrections_congr
    intro j hj
    have hlen : j < ts.length := by omega
    simp [hlen]

/-- The timestamps that are published start at 0, increase strictly and follow the
sensor, and no operation on them overflows: the build that checks goes through, and the
release build publishes the same. -/
theorem pts_follow_sensor (framerate : UInt8) (tflite : Bool) (nowH264 nowLowres : ℕ)
    (fs : List (H264Frame S)) (hcount : (known fs).length < 2 ^ 40)
    (hts : ∀ f ∈ known fs, 0 ≤ f.timestampUs ∧ f.timestampUs < 2 ^ 62) :
    ∃ c : LibCamCallback S F,
      fs.foldlM (callbackH264 I64.check) (new framerate tflite nowH264 nowLowres) = some c ∧
      fs.foldlM (callbackH264 I64.wrap) (new framerate tflite nowH264 nowLowres) =
        (c : Id (LibCamCallback S F)) ∧
      Follows (1000000 / (max framerate.toNat 1 : ℕ)) ((known fs).map (·.timestampUs))
        (c.packetTx.map (·.pts)) := by
  set dur : ℤ := 1000000 / (max framerate.toNat 1 : ℕ) with hdur
  have hrate : 1 ≤ max framerate.toNat 1 ∧ max framerate.toNat 1 < 256 :=
    ⟨le_max_right _ _, max_lt framerate.toNat_lt (by decide)⟩
  have hpos : (0 : ℤ) < (max framerate.toNat 1 : ℕ) := by omega
  have hb : Bounded (sensor (known fs)) dur (known fs).length :=
    { pos := by
        have hone : 1 ≤ dur := (Int.le_ediv_iff_mul_le hpos).mpr (by omega)
        omega
      le := Int.ediv_le_self _ (by decide)
      count_lt := hcount
      ts := by
        intro n hn
        have hf := hts (known fs)[n] (List.getElem_mem hn)
        simpa [sensor, hn] using hf }
  have h₀ : Sent (sensor (known fs)) dur 0
      (new framerate tflite nowH264 nowLowres : LibCamCallback S F) :=
    ⟨rfl, ⟨rfl, rfl, rfl⟩, rfl⟩
  obtain ⟨c, hrun, hsent⟩ := exists_sent hb h₀ fs List.prefix_rfl
  refine ⟨c, hrun, foldlM_of_check hrun, ?_⟩
  have hfollows := follows_of_pts ((known fs).map (·.timestampUs)) hb.pos
  rw [hsent.pts]
  rwa [List.length_map] at hfollows

/-- A frame at a sensor time. -/
def frameAt (timestampUs : ℤ) (analyzed : Bool) : H264Frame Unit where
  bytes := [0]
  timestampUs := timestampUs
  keyframe := true
  monoMillis := 1
  analyzed := analyzed
  streamInfo := some ()
  clock := { timeToReport := 0, rate := 0, tick := 0, reset := 0 }

/-- After an unknown frame, a sensor that goes back once and comes forward again. -/
def jumpRun : List (H264Frame Unit) :=
  [frameAt 7 false, frameAt 1000 true, frameAt 35000 true, frameAt 900 true, frameAt 36000 true,
    frameAt 200000 true]

theorem pts_follow_sensor_jumpRun :
    ∃ c : LibCamCallback Unit Unit,
      jumpRun.foldlM (callbackH264 I64.check) (new 30 true 0 0) = some c ∧
      jumpRun.foldlM (callbackH264 I64.wrap) (new 30 true 0 0) =
        (c : Id (LibCamCallback Unit Unit)) ∧
      Follows 33333 [1000, 35000, 900, 36000, 200000] (c.packetTx.map (·.pts)) :=
  pts_follow_sensor 30 true 0 0 jumpRun (by decide) (by decide)

end LibCamCallback

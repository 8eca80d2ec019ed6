-- SUMMARY: What the server uses of `video_rs`: packets, the RTP muxer, and how the muxer numbers its packets.

/-!
# Video

`video_rs` is not part of this repository. A `Video` is an implementation of
the part that the server calls: any packets, and any muxer that turns a packet
into RTP and RTCP buffers or fails.
-/

namespace Media

/-- `media::StreamState`: what a PLAY response announces in `RTP-Info`. -/
structure StreamState where
  rtpSeq : UInt16
  rtpTimestamp : UInt32
  deriving DecidableEq, Repr

/-- `video::rtp::RtpBuf`. -/
inductive RtpBuf where
  | rtp (payload : List UInt8)
  | rtcp (payload : List UInt8)
  deriving DecidableEq, Repr

structure Video where
  Packet : Type
  isKey : Packet → Bool
  RtpMuxer : Type
  /-- `none` is an error, after which the muxer is only dropped. -/
  mux : RtpMuxer → Packet → RtpMuxer × Option (List RtpBuf)
  seqAndTimestamp : RtpMuxer → UInt16 × UInt32

/-- The `StreamState` that a session reads off its muxer. -/
def Video.streamState (V : Video) (muxer : V.RtpMuxer) : StreamState :=
  { rtpSeq := (V.seqAndTimestamp muxer).1, rtpTimestamp := (V.seqAndTimestamp muxer).2 }

/-! ## Sequence numbers -/

/-- The payloads of the RTP buffers, without the RTCP ones. -/
def rtps (bufs : List RtpBuf) : List (List UInt8) :=
  bufs.filterMap fun
    | .rtp payload => some payload
    | .rtcp _ => none

/-- The sequence number in an RTP header: its third and fourth byte. -/
def rtpSeq (payload : List UInt8) : UInt16 :=
  UInt16.ofNat (256 * (payload.getD 2 0).toNat + (payload.getD 3 0).toNat)

/-- The muxer numbers RTP packets consecutively modulo 2^16, and
`seq_and_timestamp` returns the number that the next one will carry. -/
structure Video.Numbers (V : Video) : Prop where
  consecutive : ∀ muxer packet bufs, (V.mux muxer packet).2 = some bufs →
    (rtps bufs).map rtpSeq =
      (List.range (rtps bufs).length).map fun i =>
        (V.seqAndTimestamp muxer).1 + UInt16.ofNat i
  next : ∀ muxer packet bufs, (V.mux muxer packet).2 = some bufs →
    (V.seqAndTimestamp (V.mux muxer packet).1).1 =
      (V.seqAndTimestamp muxer).1 + UInt16.ofNat (rtps bufs).length

@[simp] theorem rtps_nil : rtps [] = [] := rfl
@[simp] theorem rtps_rtp (payload : List UInt8) (bufs : List RtpBuf) :
    rtps (.rtp payload :: bufs) = payload :: rtps bufs := rfl
@[simp] theorem rtps_rtcp (payload : List UInt8) (bufs : List RtpBuf) :
    rtps (.rtcp payload :: bufs) = rtps bufs := rfl
@[simp] theorem rtps_append (bufs bufs' : List RtpBuf) :
    rtps (bufs ++ bufs') = rtps bufs ++ rtps bufs' :=
  List.filterMap_append

/-- The first RTP packet of a muxed frame carries the number that the muxer
announced. -/
theorem Video.Numbers.first {V : Video} (hV : V.Numbers) {muxer : V.RtpMuxer}
    {packet : V.Packet} {bufs : List RtpBuf} {payload : List UInt8} {rest : List (List UInt8)}
    (hmux : (V.mux muxer packet).2 = some bufs) (hbufs : rtps bufs = payload :: rest) :
    rtpSeq payload = (V.seqAndTimestamp muxer).1 := by
  have h := hV.consecutive muxer packet bufs hmux
  rw [hbufs, List.length_cons, List.range_succ_eq_map] at h
  simpa using (List.cons.inj h).1

/-! ## A small muxer -/

/-- An RTP packet that is nothing but its sequence number. -/
def stamp (seq : UInt16) : List UInt8 :=
  [0, 0, UInt8.ofNat (seq.toNat / 256), UInt8.ofNat (seq.toNat % 256)]

theorem rtpSeq_stamp (seq : UInt16) : rtpSeq (stamp seq) = seq := by
  have hlt : seq.toNat < 65536 := seq.toNat_lt
  apply UInt16.toNat_inj.mp
  simp only [rtpSeq, stamp, List.getD_cons_succ, List.getD_cons_zero, UInt8.toNat_ofNat',
    UInt16.toNat_ofNat']
  omega

/-- A video whose muxer puts every frame into one RTP packet. A packet says
whether it is a keyframe. -/
def Video.counting : Video where
  Packet := Bool
  isKey packet := packet
  RtpMuxer := UInt16
  mux seq _ := (seq + 1, some [.rtp (stamp seq)])
  seqAndTimestamp seq := (seq, 0)

theorem Video.counting_numbers : Video.counting.Numbers where
  consecutive seq packet bufs h := by
    obtain rfl := Option.some.inj h
    exact congrArg (· :: []) ((rtpSeq_stamp seq).trans (UInt16.add_zero _).symm)
  next seq packet bufs h := by
    obtain rfl := Option.some.inj h
    rfl

end Media

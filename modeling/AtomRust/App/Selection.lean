-- SUMMARY: Which candidate transport a SETUP request is set up with, and the channels that it is told of.
import AtomRust.App.Carrier

/-!
# Selecting a transport

`is_supported` decides which candidate is taken, `resolve_transport` completes it, and
`from_rtsp_transport` reads the target off the result. The three go over the parameters
on their own, and a missing lower protocol is TCP for the first, but nothing to the
last.
-/

open Media (RtpMuxers Video)

namespace Transport

/-- A supported transport that names its lower protocol names TCP. -/
theorem lower_of_isSupported {transport : Rtsp.Transport} (h : isSupported transport)
    (hlower : transport.lower.isSome) : transport.lower = some .tcp := by
  obtain ⟨lower, hlower⟩ := Option.isSome_iff_exists.mp hlower
  cases lower with
  | tcp => exact hlower
  | udp => simp [isSupported, hlower, isLowerProtocolSupported] at h

end Transport

namespace App
variable {V : Video} {B : RtpMuxers V} {mediaInfo : MediaInfo B.StreamInfo}
  {builder builder' : B.Builder} {candidates : List Rtsp.Transport} {transport : Rtsp.Transport}

section Selecting
variable [Rtsp.Crate]

namespace SessionSetup

/-- The session that a candidate asks for, over TCP and on the channels it resolves to. -/
def overTcp (rtpMuxer : V.RtpMuxer) (transport : Rtsp.Transport) : SessionSetup V where
  rtspTransport := Transport.resolveTransport transport
  rtpMuxer
  rtpTarget := .rtpTcp (SessionSetupTarget.channels (Transport.resolvedChannel transport))

end SessionSetup

theorem SessionSetupTarget.fromRtspTransport_resolveTransport
    (h : Transport.isSupported transport) (hlower : transport.lower.isSome) :
    fromRtspTransport (Transport.resolveTransport transport) =
      some (.rtpTcp (channels (Transport.resolvedChannel transport))) := by
  rw [fromRtspTransport, Transport.lower_resolveTransport,
    Transport.interleavedChannel_resolveTransport, Transport.lower_of_isSupported h hlower]
  rfl

namespace SessionSetup

/-- When muxing is no obstacle, all depends on the candidate that is selected. -/
theorem fromRtspCandidateTransports_eq
    (hstreams : mediaInfo.streams.foldlM B.withStream builder = .ok builder') :
    fromRtspCandidateTransports B candidates mediaInfo (.ok builder) =
      match candidates.find? Transport.isSupported with
      | none => .error .transportNotSupported
      | some transport =>
          let rtspTransport := Transport.resolveTransport transport
          match SessionSetupTarget.fromRtspTransport rtspTransport with
          | none => .error .destinationInvalid
          | some rtpTarget => .ok { rtspTransport, rtpMuxer := B.build builder', rtpTarget } := by
  unfold fromRtspCandidateTransports
  cases candidates.find? Transport.isSupported with
  | none => rfl
  | some transport =>
      simp only [Except.okOr, Except.mapError, bind, Except.bind]
      cases SessionSetupTarget.fromRtspTransport (Transport.resolveTransport transport) with
      | none => rfl
      | some target => simp only [hstreams]; rfl

/-- How candidates are selected, among those that name their lower protocol. -/
structure Selects (B : RtpMuxers V) (mediaInfo : MediaInfo B.StreamInfo) (builder : B.Builder)
    (rtpMuxer : V.RtpMuxer) : Prop where
  target : ∀ transport, Transport.isSupported transport → transport.lower.isSome →
    SessionSetupTarget.fromRtspTransport (Transport.resolveTransport transport) =
      some (overTcp rtpMuxer transport).rtpTarget
  refused : ∀ candidates,
    fromRtspCandidateTransports B candidates mediaInfo (.ok builder) =
        .error .transportNotSupported ↔
      ∀ transport ∈ candidates, ¬ Transport.isSupported transport
  valid : ∀ candidates,
    (∀ transport ∈ candidates, Transport.isSupported transport → transport.lower.isSome) →
    fromRtspCandidateTransports B candidates mediaInfo (.ok builder) ≠ .error .destinationInvalid
  first : ∀ unsupported transport candidates,
    (∀ transport ∈ unsupported, ¬ Transport.isSupported transport) →
    Transport.isSupported transport → transport.lower.isSome →
    fromRtspCandidateTransports B (unsupported ++ transport :: candidates) mediaInfo
      (.ok builder) = .ok (overTcp rtpMuxer transport)

/-- The first supported candidate is set up, over TCP, if it names its lower protocol;
without a supported candidate the transport is not supported. -/
theorem selects_first_supported
    (hstreams : mediaInfo.streams.foldlM B.withStream builder = .ok builder') :
    Selects B mediaInfo builder (B.build builder') where
  target transport h hlower := SessionSetupTarget.fromRtspTransport_resolveTransport h hlower
  refused candidates := by
    rw [fromRtspCandidateTransports_eq hstreams, ← List.find?_eq_none]
    cases candidates.find? Transport.isSupported with
    | none => simp
    | some transport =>
        cases h : SessionSetupTarget.fromRtspTransport (Transport.resolveTransport transport) <;>
          simp [h]
  valid candidates hlower := by
    rw [fromRtspCandidateTransports_eq hstreams]
    cases hfind : candidates.find? Transport.isSupported with
    | none => simp
    | some transport =>
        have hsupported := List.find?_some hfind
        have hmem := List.mem_of_find?_eq_some hfind
        simp [SessionSetupTarget.fromRtspTransport_resolveTransport hsupported
          (hlower transport hmem hsupported)]
  first unsupported transport candidates hnone h hlower := by
    have hfind : (unsupported ++ transport :: candidates).find? Transport.isSupported =
        some transport := by
      rw [List.find?_append, List.find?_eq_none.mpr hnone, Option.none_or,
        List.find?_cons_of_pos h]
    rw [fromRtspCandidateTransports_eq hstreams, hfind]
    simp only [SessionSetupTarget.fromRtspTransport_resolveTransport h hlower, overTcp]

end SessionSetup
end Selecting

namespace SessionSetup

section First
attribute [local instance] Rtsp.Crate.first

theorem selects_first_supported_counting :
    Selects Carrier.countingMuxers (.fromStreamInfo ()) (0 : UInt16) (0 : UInt16) :=
  selects_first_supported rfl

/-- A transport that `from_rtsp_transport` accepts, but not `is_supported`. -/
def overUdp : Rtsp.Transport where
  lower := some .udp
  parameters := [.unicast, .destination (.v4 0x7f000001), .clientPort (.range 5000 5001)]

theorem not_selected_overUdp :
    (SessionSetupTarget.fromRtspTransport (Transport.resolveTransport overUdp)).isSome ∧
      fromRtspCandidateTransports Carrier.countingMuxers [overUdp] (.fromStreamInfo ())
        (.ok (0 : UInt16)) = .error .transportNotSupported :=
  ⟨rfl, rfl⟩

end First

end SessionSetup
end App

/-! ## The channels that a client is told of -/

namespace Rtsp.Channel

/-- What the `interleaved` parameter of a response says: the channel after a single one is
for RTCP. -/
def announced : Channel → ℕ × ℕ
  | .single rtpChannel => (rtpChannel.toNat, rtpChannel.toNat + 1)
  | .range rtpChannel rtcpChannel => (rtpChannel.toNat, rtcpChannel.toNat)

end Rtsp.Channel

namespace App
variable {V : Video} {B : RtpMuxers V} {mediaInfo : MediaInfo B.StreamInfo}
  {builder : Except B.Error B.Builder} {candidates : List Rtsp.Transport}
  {transport : Rtsp.Transport} {setup : SessionSetup V} {target : SendInterleaved}

/-- `SessionSetupTarget.channels`, with `none` when the addition overflows. -/
def SessionSetupTarget.checkedChannels : Rtsp.Channel → Option SendInterleaved
  | .single rtpChannel =>
      if rtpChannel.toNat + 1 < UInt8.size then
        some { rtpChannel, rtcpChannel := rtpChannel + 1 }
      else none
  | .range rtpChannel rtcpChannel => some { rtpChannel, rtcpChannel }

section Sound
variable [Rtsp.Crate]

/-- The channels that the `Transport` header of a response announces. -/
def Reply.announced : Reply → Option (ℕ × ℕ)
  | .setup _ transport => transport.interleavedChannel.map Rtsp.Channel.announced
  | .response _ => none

/-- The target of a session that is set up is sound. -/
structure SessionSetup.Sound (setup : SessionSetup V) (target : SendInterleaved) : Prop where
  /-- No overflow. -/
  checked : setup.rtspTransport.interleavedChannel.bind SessionSetupTarget.checkedChannels =
    some target
  distinct : target.rtpChannel ≠ target.rtcpChannel
  announced : ∀ sessionId, (finishSetup setup.rtspTransport (.ok sessionId)).announced =
    some (target.rtpChannel.toNat, target.rtcpChannel.toNat)
  apart : ∀ rtp rtcp, (target.frame (.rtp rtp)).1 ≠ (target.frame (.rtcp rtcp)).1
  /-- Every frame is on a channel that the client was told of. -/
  told : ∀ sessionId buf,
    ∃ channels, (finishSetup setup.rtspTransport (.ok sessionId)).announced = some channels ∧
      ((target.frame buf).1.toNat = channels.1 ∨ (target.frame buf).1.toNat = channels.2)

namespace SessionSetup

/-- The channels of a target come from the `interleaved` parameter that is announced. -/
theorem channels_of_fromRtspTransport {rtspTransport : Rtsp.Transport}
    (h : SessionSetupTarget.fromRtspTransport rtspTransport = some (.rtpTcp target)) :
    ∃ channel, rtspTransport.interleavedChannel = some channel ∧
      target = SessionSetupTarget.channels channel := by
  obtain ⟨lower, -, h⟩ := Option.bind_eq_some_iff.mp h
  cases lower with
  | udp =>
      obtain ⟨addr, -, h⟩ := Option.bind_eq_some_iff.mp h
      obtain ⟨port, -, h⟩ := Option.map_eq_some_iff.mp h
      cases h
  | tcp =>
      obtain ⟨channel, hchannel, h⟩ := Option.map_eq_some_iff.mp h
      cases h
      exact ⟨channel, hchannel, rfl⟩

/-- A target is sound if its channels differ and the addition does not overflow. -/
theorem sound_of_checked {channel : Rtsp.Channel}
    (hchannel : setup.rtspTransport.interleavedChannel = some channel)
    (hchecked : SessionSetupTarget.checkedChannels channel = some target)
    (hannounced : channel.announced = (target.rtpChannel.toNat, target.rtcpChannel.toNat))
    (hdistinct : target.rtpChannel ≠ target.rtcpChannel) : setup.Sound target := by
  have hreply : ∀ sessionId, (finishSetup setup.rtspTransport (.ok sessionId)).announced =
      some (target.rtpChannel.toNat, target.rtcpChannel.toNat) := by
    intro sessionId
    simp only [finishSetup, replyToSetup, Reply.announced, hchannel, Option.map_some, hannounced]
  refine ⟨by rw [hchannel]; exact hchecked, hdistinct, hreply, fun _ _ => hdistinct, ?_⟩
  intro sessionId buf
  refine ⟨_, hreply sessionId, ?_⟩
  cases buf with
  | rtp payload => exact .inl rfl
  | rtcp payload => exact .inr rfl

/-- Soundness, by the channel parameter that is announced. -/
theorem sound_channels_iff {channel : Rtsp.Channel}
    (hchannel : setup.rtspTransport.interleavedChannel = some channel) :
    setup.Sound (SessionSetupTarget.channels channel) ↔
      channel ≠ .single 255 ∧ ∀ c, channel ≠ .range c c := by
  cases channel with
  | single c =>
      simp only [ne_eq, Rtsp.Channel.single.injEq, reduceCtorEq, not_false_eq_true, implies_true,
        and_true]
      constructor
      · rintro h rfl
        have hchecked := h.checked
        rw [hchannel] at hchecked
        cases hchecked
      · intro hc
        have hlt : c.toNat + 1 < UInt8.size := by
          have hne : c.toNat ≠ 255 := fun h => hc (UInt8.toNat_inj.mp h)
          have hc256 := c.toNat_lt_size
          simp only [UInt8.size] at hc256 ⊢
          omega
        have hadd : (c + 1).toNat = c.toNat + 1 := by
          rw [UInt8.toNat_add]
          exact Nat.mod_eq_of_lt hlt
        apply sound_of_checked hchannel
        · exact if_pos hlt
        · simp only [Rtsp.Channel.announced, SessionSetupTarget.channels, hadd]
        · intro h
          have hsame := congrArg UInt8.toNat h
          simp only [SessionSetupTarget.channels, hadd] at hsame
          omega
  | range rtp rtcp =>
      simp only [ne_eq, Rtsp.Channel.range.injEq, reduceCtorEq, not_false_eq_true, true_and]
      constructor
      · rintro h c ⟨rfl, rfl⟩
        exact h.distinct rfl
      · intro hne
        exact sound_of_checked hchannel rfl rfl fun h => hne rtp ⟨rfl, h.symm⟩

/-- The channels of a session that is set up are sound if and only if the client has not
asked for the single channel 255, nor for a range of one channel. -/
theorem sound_iff
    (hsetup : fromRtspCandidateTransports B candidates mediaInfo builder = .ok setup)
    (htarget : setup.rtpTarget = .rtpTcp target)
    (hselected : candidates.find? Transport.isSupported = some transport) :
    setup.Sound target ↔
      transport.interleavedChannel ≠ some (.single 255) ∧
        ∀ c, transport.interleavedChannel ≠ some (.range c c) := by
  obtain ⟨transport', hfind, hresolved, hfrom⟩ := of_fromRtspCandidateTransports hsetup
  obtain rfl : transport' = transport := Option.some.inj (hfind.symm.trans hselected)
  rw [htarget] at hfrom
  obtain ⟨channel, hchannel, rfl⟩ := channels_of_fromRtspTransport hfrom
  rw [sound_channels_iff hchannel]
  rw [hresolved, Transport.interleavedChannel_resolveTransport] at hchannel
  obtain rfl := Option.some.inj hchannel
  unfold Transport.resolvedChannel
  cases transport'.interleavedChannel with
  | none => simp
  | some channel => simp

end SessionSetup
end Sound

namespace SessionSetup

section First
attribute [local instance] Rtsp.Crate.first

/-- A SETUP request over TCP, on the given channels. -/
def overChannels (channel : Rtsp.Channel) : Rtsp.Transport where
  lower := some .tcp
  parameters := [.unicast, .interleaved channel]

theorem sound_iff_single :
    ∃ setup : SessionSetup .counting,
      fromRtspCandidateTransports Carrier.countingMuxers [overUdp, overChannels (.single 4)]
          (.fromStreamInfo ()) (.ok (0 : UInt16)) = .ok setup ∧
        (setup.Sound { rtpChannel := 4, rtcpChannel := 5 } ↔
          (overChannels (.single 4)).interleavedChannel ≠ some (.single 255) ∧
            ∀ c, (overChannels (.single 4)).interleavedChannel ≠ some (.range c c)) := by
  obtain ⟨setup, hsetup, htarget⟩ : ∃ setup : SessionSetup .counting,
      fromRtspCandidateTransports Carrier.countingMuxers [overUdp, overChannels (.single 4)]
          (.fromStreamInfo ()) (.ok (0 : UInt16)) = .ok setup ∧
        setup.rtpTarget = .rtpTcp { rtpChannel := 4, rtcpChannel := 5 } := ⟨_, rfl, rfl⟩
  exact ⟨setup, hsetup, sound_iff hsetup htarget rfl⟩

/-- The single channel 255 is accepted. It is announced alone, and RTCP goes to channel 0. -/
theorem not_sound_lastChannel :
    ∃ setup : SessionSetup .counting,
      fromRtspCandidateTransports Carrier.countingMuxers [overChannels (.single 255)]
          (.fromStreamInfo ()) (.ok (0 : UInt16)) = .ok setup ∧
        setup.rtpTarget = .rtpTcp { rtpChannel := 255, rtcpChannel := 0 } ∧
        (∀ sessionId, (finishSetup setup.rtspTransport (.ok sessionId)).announced =
          some (255, 256)) ∧
        ¬ setup.Sound { rtpChannel := 255, rtcpChannel := 0 } := by
  refine ⟨_, rfl, rfl, fun _ => rfl, ?_⟩
  intro h
  have hannounced := h.announced (.generate 10000000)
  exact absurd hannounced (by decide)

end First

end SessionSetup
end App

-- SUMMARY: How a SETUP request becomes a session: the transport that is selected, the target it names, and what the handler answers.
import AtomRust.Base.Fallible
import AtomRust.App.Link
import AtomRust.Session.Transport
import AtomRust.Source.Source

/-!
# SETUP

`SessionSetup::from_rtsp_candidate_transports` takes the first candidate that is
supported and resolves it; `SessionSetupTarget::from_rtsp_transport` reads the target
off the result. Neither looks at what the connection carries already.
-/

open Media (Video)
open SessionManager (RegisterSessionError)

/-- What the server uses of `video::rtp::RtpMuxerBuilder`. -/
structure Media.RtpMuxers (V : Video) where
  StreamInfo : Type
  Error : Type
  Builder : Type
  withStream : Builder → StreamInfo → Except Error Builder
  build : Builder → V.RtpMuxer

open Media (RtpMuxers)

namespace App

/-- `setup::SendOverSocket`. -/
structure SendOverSocket where
  rtpRemote : Rtsp.IpAddr × UInt16
  rtcpRemote : Rtsp.IpAddr × UInt16

/-- `setup::SessionSetupTarget`. The sender in `SendInterleaved` is that of the
connection that handles the request. -/
inductive SessionSetupTarget where
  | rtpUdp (target : SendOverSocket)
  | rtpTcp (target : SendInterleaved)

namespace SessionSetupTarget

/-- Which transport the target names. -/
def kind : SessionSetupTarget → Session.SessionSetupTarget
  | .rtpUdp _ => .rtpUdp
  | .rtpTcp _ => .rtpTcp

/-- The ports of a `client_port` parameter. A single port at its maximum wraps. -/
def ports : Rtsp.Port → UInt16 × UInt16
  | .single rtpPort => (rtpPort, rtpPort + 1)
  | .range rtpPort rtcpPort => (rtpPort, rtcpPort)

/-- The channels of an `interleaved` parameter. A single channel at its maximum
wraps. -/
def channels : Rtsp.Channel → SendInterleaved
  | .single rtpChannel => { rtpChannel, rtcpChannel := rtpChannel + 1 }
  | .range rtpChannel rtcpChannel => { rtpChannel, rtcpChannel }

/-- `SessionSetupTarget::from_rtsp_transport`. -/
def fromRtspTransport [Rtsp.Crate] (rtspTransport : Rtsp.Transport) : Option SessionSetupTarget :=
  rtspTransport.lower.bind fun
    | .udp =>
        rtspTransport.destination.bind fun addr =>
          rtspTransport.clientPort.map fun port =>
            .rtpUdp { rtpRemote := (addr, (ports port).1), rtcpRemote := (addr, (ports port).2) }
    | .tcp => rtspTransport.interleavedChannel.map fun channel => .rtpTcp (channels channel)

end SessionSetupTarget

/-- `setup::SessionSetup`. -/
structure SessionSetup (V : Video) where
  rtspTransport : Rtsp.Transport
  rtpMuxer : V.RtpMuxer
  rtpTarget : SessionSetupTarget

/-- `setup::SessionSetupError`. -/
inductive SessionSetupError (ε : Type) where
  | transportNotSupported
  | destinationInvalid
  | media (error : ε)

/-- `SessionSetup::from_rtsp_candidate_transports`. `builder` is what
`make_rtp_muxer_builder` returns. -/
def SessionSetup.fromRtspCandidateTransports [Rtsp.Crate] {V : Video} (B : RtpMuxers V)
    (candidateTransports : List Rtsp.Transport) (mediaInfo : MediaInfo B.StreamInfo)
    (builder : Except B.Error B.Builder) :
    Except (SessionSetupError B.Error) (SessionSetup V) := do
  let transport ← Except.okOr (candidateTransports.find? Transport.isSupported)
    .transportNotSupported
  let rtpMuxerBuilder ← builder.mapError .media
  let resolvedTransport := Transport.resolveTransport transport
  let rtpTarget ← Except.okOr (SessionSetupTarget.fromRtspTransport resolvedTransport)
    .destinationInvalid
  let rtpMuxerBuilder ← (mediaInfo.streams.foldlM B.withStream rtpMuxerBuilder).mapError .media
  return { rtspTransport := resolvedTransport, rtpMuxer := B.build rtpMuxerBuilder, rtpTarget }

/-! ## The handler -/

/-- A request with its `Transport` header. -/
structure ClientRequest where
  request : Request
  /-- `request.transport()`, with `none` for an error. -/
  transport : Option (List Rtsp.Transport)

/-- What the handler answers. The response to a SETUP request has two headers more. -/
inductive Reply where
  | setup (sessionId : SessionId) (transport : Rtsp.Transport)
  | response (response : Response)

def replyToSetup (sessionId : SessionId) (transport : Rtsp.Transport) : Reply :=
  .setup sessionId transport

def replyNotFound : Response := .error .notFound
def replyUnsupportedTransport : Response := .error .unsupportedTransport

/-- How the SETUP branch goes on. -/
inductive SetupNext (V : Video) where
  | reply (reply : Reply)
  /-- It calls `setup` of the session manager. -/
  | setup (sessionSetup : SessionSetup V)

/-- The SETUP branch up to its call. `mediaInfo` is `none` when `subscribe` found no
source, and `some none` when the source did not answer the query. -/
def handleSetup [Rtsp.Crate] {V : Video} (B : RtpMuxers V) (request : ClientRequest)
    (mediaInfo : Option (Option (MediaInfo B.StreamInfo))) (builder : Except B.Error B.Builder) :
    SetupNext V :=
  match request.transport, mediaInfo with
  | none, _ => .reply (.response replyUnsupportedTransport)
  | some _, none => .reply (.response replyNotFound)
  | some _, some none => .reply (.response replyInternalServerError)
  | some transport, some (some mediaInfo) =>
      match SessionSetup.fromRtspCandidateTransports B transport mediaInfo builder with
      | .ok sessionSetup => .setup sessionSetup
      | .error .transportNotSupported | .error .destinationInvalid =>
          .reply (.response replyUnsupportedTransport)
      | .error (.media _) => .reply (.response replyInternalServerError)

/-- The rest of the branch. -/
def finishSetup (transport : Rtsp.Transport) :
    Except RegisterSessionError SessionId → Reply
  | .ok sessionId => replyToSetup sessionId transport
  | .error .alreadyRegistered => .response replyInternalServerError

/-! ## The transport that was selected -/

/-- The candidate that the request is set up with, if there is one. -/
def ClientRequest.selected (request : ClientRequest) : Option Rtsp.Transport :=
  request.transport.bind fun transport => transport.find? Transport.isSupported

theorem of_fromRtspCandidateTransports [Rtsp.Crate] {V : Video} {B : RtpMuxers V}
    {candidates : List Rtsp.Transport} {mediaInfo : MediaInfo B.StreamInfo}
    {builder : Except B.Error B.Builder} {setup : SessionSetup V}
    (h : SessionSetup.fromRtspCandidateTransports B candidates mediaInfo builder = .ok setup) :
    ∃ transport, candidates.find? Transport.isSupported = some transport ∧
      setup.rtspTransport = Transport.resolveTransport transport ∧
      SessionSetupTarget.fromRtspTransport setup.rtspTransport = some setup.rtpTarget := by
  obtain ⟨transport, hfind, h⟩ := Except.bind_eq_ok.mp h
  obtain ⟨muxerBuilder, -, h⟩ := Except.bind_eq_ok.mp h
  obtain ⟨target, htarget, h⟩ := Except.bind_eq_ok.mp h
  obtain ⟨muxerBuilder', -, h⟩ := Except.bind_eq_ok.mp h
  cases h
  exact ⟨transport, Except.okOr_eq_ok.mp hfind, rfl, Except.okOr_eq_ok.mp htarget⟩

/-- A session that is set up sends over TCP, on the channels that the selected
transport resolves to. -/
theorem target_of_handleSetup [Rtsp.Crate] {V : Video} {B : RtpMuxers V} {request : ClientRequest}
    {mediaInfo : Option (Option (MediaInfo B.StreamInfo))} {builder : Except B.Error B.Builder}
    {setup : SessionSetup V} (h : handleSetup B request mediaInfo builder = .setup setup) :
    ∃ transport, request.selected = some transport ∧
      setup.rtpTarget =
        .rtpTcp (SessionSetupTarget.channels (Transport.resolvedChannel transport)) := by
  unfold handleSetup at h
  split at h
  · cases h
  · cases h
  · cases h
  next candidates mediaInfo hcandidates =>
    split at h
    next hsetup =>
      cases h
      obtain ⟨transport, hfind, hresolved, hfrom⟩ := of_fromRtspCandidateTransports hsetup
      refine ⟨transport, by simp [ClientRequest.selected, hcandidates, hfind], ?_⟩
      have hsupported := List.find?_some hfind
      rw [hresolved, SessionSetupTarget.fromRtspTransport, Transport.lower_resolveTransport,
        Transport.interleavedChannel_resolveTransport] at hfrom
      obtain ⟨lower, hlower, hfrom⟩ := Option.bind_eq_some_iff.mp hfrom
      cases lower with
      | tcp => exact (Option.some.inj hfrom).symm
      | udp =>
          simp [Transport.isSupported, hlower, Transport.isLowerProtocolSupported] at hsupported
    all_goals cases h

end App

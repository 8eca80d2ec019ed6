-- SUMMARY: The `Transport` header of a SETUP request: its parameters, which of them the server supports, and the default for a missing `interleaved`.
import Mathlib.Data.List.Basic

/-!
# Transports

The types are those of the RTSP crate, which is not part of this repository; what the
server calls of it is a parameter, `Rtsp.Crate`. Of a parameter of a transport the server
reads the value only if it is `destination`, `interleaved`, `client_port` or `mode`; the
values of the others are left out.
-/

namespace Rtsp

inductive Lower where
  | tcp
  | udp
  deriving DecidableEq

inductive Channel where
  | single (channel : UInt8)
  | range (rtp rtcp : UInt8)
  deriving DecidableEq

inductive Port where
  | single (port : UInt16)
  | range (rtp rtcp : UInt16)
  deriving DecidableEq

inductive IpAddr where
  | v4 (bits : BitVec 32)
  | v6 (bits : BitVec 128)
  deriving DecidableEq

inductive Parameter where
  | unicast
  | multicast
  | destination (addr : IpAddr)
  | interleaved (channel : Channel)
  | append
  | ttl
  | layers
  | port
  | clientPort (port : Port)
  | serverPort
  | ssrc
  /-- Of the method, whether it is PLAY. -/
  | mode (isPlay : Bool)
  deriving DecidableEq

structure Transport where
  lower : Option Lower
  parameters : List Parameter
  deriving DecidableEq

def Parameter.channel? : Parameter → Option Channel
  | .interleaved channel => some channel
  | _ => none

/-- What the server calls of the crate, and what it relies on there. -/
class Crate where
  /-- `Transport::with_parameter`. -/
  withParameter (transport : Transport) (parameter : Parameter) : Transport
  /-- `Transport::interleaved_channel`. -/
  interleavedChannel (transport : Transport) : Option Channel
  /-- `Transport::destination`. -/
  destination (transport : Transport) : Option IpAddr
  /-- `Transport::client_port`. -/
  clientPort (transport : Transport) : Option Port
  withParameter_eq (transport : Transport) (parameter : Parameter) :
    withParameter transport parameter =
      { transport with parameters := transport.parameters ++ [parameter] }
  interleavedChannel_eq (transport : Transport) :
    interleavedChannel transport = transport.parameters.findSome? Parameter.channel?

/-- Of each kind the first parameter counts. -/
@[reducible] def Crate.first : Crate where
  withParameter transport parameter :=
    { transport with parameters := transport.parameters ++ [parameter] }
  interleavedChannel transport := transport.parameters.findSome? Parameter.channel?
  destination transport := transport.parameters.findSome? fun
    | .destination addr => some addr
    | _ => none
  clientPort transport := transport.parameters.findSome? fun
    | .clientPort port => some port
    | _ => none
  withParameter_eq _ _ := rfl
  interleavedChannel_eq _ := rfl

namespace Transport

export Crate (withParameter interleavedChannel destination clientPort)

end Transport

end Rtsp

namespace Transport

open Rtsp (Lower Parameter)

/-- `resolve_transport`. -/
def resolveTransport [Rtsp.Crate] (rtspTransport : Rtsp.Transport) : Rtsp.Transport :=
  if rtspTransport.interleavedChannel.isSome then rtspTransport
  else rtspTransport.withParameter (.interleaved (.range 0 1))

/-- `is_lower_protocol_supported`. -/
def isLowerProtocolSupported : Lower → Bool
  | .udp => false
  | .tcp => true

/-- `is_parameter_supported`. -/
def isParameterSupported : Parameter → Bool
  | .unicast => true
  | .multicast => false
  | .destination _ => false
  | .interleaved _ => true
  | .append => false
  | .ttl => false
  | .layers => false
  | .port => false
  | .clientPort _ => false
  | .serverPort => false
  | .ssrc => false
  | .mode isPlay => isPlay

/-- `is_supported`. -/
def isSupported (transport : Rtsp.Transport) : Bool :=
  (transport.lower.map isLowerProtocolSupported).getD true &&
    transport.parameters.all isParameterSupported

/-! ## The channels of a resolved transport -/

section Resolved
variable [Rtsp.Crate]

/-- The channel parameter that a transport has after `resolve_transport`. -/
def resolvedChannel (rtspTransport : Rtsp.Transport) : Rtsp.Channel :=
  rtspTransport.interleavedChannel.getD (.range 0 1)

theorem interleavedChannel_resolveTransport (rtspTransport : Rtsp.Transport) :
    (resolveTransport rtspTransport).interleavedChannel =
      some (resolvedChannel rtspTransport) := by
  unfold resolveTransport resolvedChannel
  cases h : rtspTransport.interleavedChannel with
  | some channel => simpa using h
  | none =>
      rw [Rtsp.Crate.interleavedChannel_eq] at h
      simp [Rtsp.Crate.interleavedChannel_eq, Rtsp.Crate.withParameter_eq, h,
        Rtsp.Parameter.channel?]

theorem lower_resolveTransport (rtspTransport : Rtsp.Transport) :
    (resolveTransport rtspTransport).lower = rtspTransport.lower := by
  unfold resolveTransport
  split
  · rfl
  · rw [Rtsp.Crate.withParameter_eq]

end Resolved

end Transport

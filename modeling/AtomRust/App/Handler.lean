-- SUMMARY: `AppHandler::handle`: what it asks the session manager for, and the responses it makes of the answers.
import AtomRust.Session.SessionManager

/-!
# The request handler

`handle` waits in one place, for the session manager, so it is cut there:
`handle` goes up to the call and `finish` makes a response of what the call
returns. What DESCRIBE and SETUP answer also depends on the source manager, which
is not modelled; `elsewhere` stands for the rest of these two.

Of a request the handler reads the headers below, and of a response it chooses
the status and the two headers of a PLAY response. `CSeq` and `Server`, which
every response has, are left out.
-/

open Media (StreamState)
open Session (Outcome PlaySessionError Range)

namespace App

inductive Method where
  | options
  | announce
  | describe
  | getParameter
  | setParameter
  | setup
  | play
  | pause
  | record
  | teardown
  | redirect
  deriving DecidableEq

/-- The errors of `request.range()`. -/
inductive RangeError where
  | unitNotSupported
  | timeNotSupported
  /-- Every other error. -/
  | malformed
  deriving DecidableEq

structure Request where
  method : Method
  uri : String
  /-- The `Require` header. -/
  require : Option String
  range : Option (Except RangeError Range)
  session : Option SessionId

inductive Status where
  | ok
  | badRequest
  | notFound
  | methodNotAllowed
  | notAcceptable
  | sessionNotFound
  | methodNotValidInThisState
  | headerFieldNotValid
  | aggregateOperationNotAllowed
  | unsupportedTransport
  | internalServerError
  | notImplemented
  | optionNotSupported
  deriving DecidableEq

/-- `rtsp::RtpInfo`. -/
structure RtpInfo where
  url : String
  seq : UInt16
  timestamp : UInt32
  deriving DecidableEq

/-- `RtpInfo::new_with_timing`. -/
def RtpInfo.newWithTiming (url : String) (seq : UInt16) (timestamp : UInt32) : RtpInfo :=
  { url, seq, timestamp }

/-- `Range::new_for_live`, the range `now-`. -/
def Range.newForLive : Range := { start := some .now, end_ := none }

structure Response where
  status : Status
  rtpInfo : Option RtpInfo
  range : Option Range
  deriving DecidableEq

namespace Response

/-- `Response::ok()`. -/
def ok : Response := { status := .ok, rtpInfo := none, range := none }

/-- `Response::error(status)`. -/
def error (status : Status) : Response := { status, rtpInfo := none, range := none }

end Response

/-! ## Replies -/

def replyToOptionsWithSupportedMethods : Response := .ok
def replyToTeardown : Response := .ok
def replyToPlay (range : Range) (rtpInfo : RtpInfo) : Response :=
  { status := .ok, rtpInfo := some rtpInfo, range := some range }

def replyBadRequest : Response := .error .badRequest
def replyOptionNotSupported : Response := .error .optionNotSupported
def replyMethodNotSupported : Response := .error .methodNotAllowed
def replyMethodNotValid : Response := .error .methodNotValidInThisState
def replyAggregateOperationNotAllowed : Response := .error .aggregateOperationNotAllowed
def replySessionNotFound : Response := .error .sessionNotFound
def replyNotImplemented : Response := .error .notImplemented
def replyHeaderFieldNotValid : Response := .error .headerFieldNotValid
def replyInternalServerError : Response := .error .internalServerError

/-! ## Requests -/

/-- How the handler goes on with a request. -/
inductive Next where
  | reply (response : Response)
  /-- It calls `play` or `teardown` of the session manager. -/
  | call (id : SessionId) (request : Session.Request)
  | elsewhere

/-- `is_request_require_supported`. -/
def isRequestRequireSupported (request : Request) : Bool := request.require.isNone

/-- The PLAY branch up to its call. -/
def handlePlay (request : Request) : Next :=
  let play (range : Option Range) : Next :=
    match request.session with
    | some id => .call id (.play range)
    | none => .reply replySessionNotFound
  match request.range with
  | some (.ok range) => play (some range)
  | some (.error .unitNotSupported) | some (.error .timeNotSupported) => .reply replyNotImplemented
  | some (.error .malformed) => .reply replyBadRequest
  | none => play none

/-- The TEARDOWN branch up to its call. -/
def handleTeardown (request : Request) : Next :=
  match request.session with
  | some id => .call id .teardown
  | none => .reply replySessionNotFound

/-- `AppHandler::handle`. -/
def handle (request : Request) : Next :=
  if isRequestRequireSupported request then
    match request.method with
    | .options => .reply replyToOptionsWithSupportedMethods
    | .announce | .getParameter | .setParameter | .pause | .record => .reply replyMethodNotSupported
    | .describe => .elsewhere
    | .setup =>
        if request.session.isSome then .reply replyAggregateOperationNotAllowed else .elsewhere
    | .play => handlePlay request
    | .teardown => handleTeardown request
    | .redirect => .reply replyMethodNotValid
  else .reply replyOptionNotSupported

/-- The range that a PLAY response names: the one of the request, if it has one. -/
def playRange (request : Request) : Range :=
  match request.range with
  | some (.ok range) => range
  | _ => Range.newForLive

/-- The rest of the PLAY and TEARDOWN branches. `none` says that the session
manager has no such session. -/
def finish (request : Request) : Option Outcome → Response
  | some (.played streamState) =>
      replyToPlay (playRange request)
        (.newWithTiming request.uri streamState.rtpSeq streamState.rtpTimestamp)
  | some (.failed .rangeNotSupported) => replyHeaderFieldNotValid
  | some (.failed .controlBroken) => replyInternalServerError
  | some .tornDown => replyToTeardown
  | none => replySessionNotFound

/-- Only PLAY requests for a session make it play. -/
theorem play_of_handle {request : Request} {id : SessionId} {range : Option Range}
    (h : handle request = .call id (.play range)) :
    request.method = .play ∧ request.session = some id := by
  unfold handle at h
  split at h
  · cases hmethod : request.method with
    | play =>
        simp only [hmethod, handlePlay] at h
        cases hsession : request.session with
        | none => rw [hsession] at h; split at h <;> cases h
        | some id' => rw [hsession] at h; split at h <;> cases h <;> exact ⟨rfl, rfl⟩
    | teardown =>
        simp only [hmethod, handleTeardown] at h
        split at h <;> cases h
    | setup =>
        simp only [hmethod] at h
        split at h <;> cases h
    | options | announce | describe | getParameter | setParameter | pause | record | redirect =>
        simp [hmethod] at h
  · cases h

end App

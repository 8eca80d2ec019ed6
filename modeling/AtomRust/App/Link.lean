-- SUMMARY: A session and the connection it was set up on: the handler's calls one way, the session's media the other.
import AtomRust.App.Handler
import AtomRust.Net.Connection
import AtomRust.Session.Pairing
import AtomRust.Session.Playback

/-!
# Links

A `Link` puts a session together with the connection that it was set up on, from
the moment at which the handler, still busy with the SETUP request, has started
the session. The handler's calls are calls of the session, and the messages that
the session's worker sends go to the connection's queue. Everything else is left
to the environment: the other sessions on the connection, the requests that are
not for this session, and requests to tear it down that come from elsewhere.

All PLAY requests for the session arrive on the connection.
-/

open Media (RtpBuf StreamState Video)
open Session (CallPc Outcome SessionSetupTarget TrySendResult)

namespace App

/-- The channels of `setup::SendInterleaved`. -/
structure SendInterleaved where
  rtpChannel : UInt8
  rtcpChannel : UInt8

/-- `ResponseMaybeInterleaved::Interleaved`. Whether it is of the session is a
ghost. -/
structure Interleaved where
  channel : UInt8
  payload : List UInt8
  own : Bool

/-- The message that a session makes of an RTP buffer. -/
def SendInterleaved.message (target : SendInterleaved) : RtpBuf → Interleaved
  | .rtp payload => { channel := target.rtpChannel, payload, own := true }
  | .rtcp payload => { channel := target.rtcpChannel, payload, own := true }

/-- A response, with the request that it answers and the call of the session that
the handler made for it, if any, as ghosts. -/
structure Answer where
  request : Request
  call : Option Nat
  response : Response

end App

open App (Answer Interleaved Request Response SendInterleaved)

structure Link (V : Video) where
  id : SessionId
  target : SendInterleaved
  session : Session V
  conn : Connection Interleaved Request Answer
  /-- The call of the session that the handler waits for. -/
  call : Option Nat

namespace Link
variable {V : Video}

/-- The request that the handler is busy with. -/
def request (l : Link V) : Option Request :=
  match l.conn.pc with
  | .handle request => some request
  | _ => none

/-- The worker of the session tries to send the message it stands at. -/
def trySend (l : Link V) : Option (Link V) :=
  (l.session.step (.trySend l.conn.trySend)).map fun session =>
    match l.session.worker.pc, l.conn.trySend with
    | .send message _, .ok =>
        { l with session, conn := l.conn.enqueue (l.target.message message) }
    | _, _ => { l with session }

/-- The handler's lookup finds the session, and a new call of it begins. -/
def lookup (l : Link V) : Option (Link V) :=
  match l.request.map App.handle, l.call with
  | some (.call id request), none =>
      if id = l.id then
        (l.session.step (.find request)).map fun session =>
          { l with session, call := some l.session.calls.length }
      else none
  | _, _ => none

/-- The handler returns `response` for the request it is busy with. -/
def answer (l : Link V) (request : Request) (response : Response) : Option (Link V) :=
  (l.conn.step (.respond { request, call := l.call, response })).map fun conn =>
    { l with conn, call := none }

/-- The call that the handler waits for returns. -/
def returns (l : Link V) : Option (Link V) :=
  match l.request, l.call.bind fun c => l.session.calls[c]? with
  | some request, some (.returned outcome) => l.answer request (App.finish request (some outcome))
  | _, _ => none

/-- The handler comes back without a call of this session: it needs none, or the
session manager has found nothing, or another session, whose call returned
`outcome`. -/
def passes (l : Link V) (outcome : Option Outcome) (elsewhere : Response) : Option (Link V) :=
  match l.request, l.call with
  | some request, none =>
      match App.handle request with
      | .reply response => l.answer request response
      | .call _ r =>
          if outcome.all fun o => o.isPlay = r.isPlay then
            l.answer request (App.finish request outcome)
          else none
      | .elsewhere => l.answer request elsewhere
  | _, _ => none

/-- The connection's worker drops the receiver of its queue. -/
def exit (l : Link V) : Option (Link V) :=
  (l.conn.step .exit).bind fun conn =>
    (l.session.step .closeMedia).map fun session => { l with session, conn }

/-- What the session does without the connection. -/
def ofSession : Session.Action V → Bool
  | .find request => !request.isPlay
  | .trySend _ | .closeMedia => false
  | _ => true

/-- What the connection does without the session. -/
def ofConnection : Connection.Action Interleaved Request Answer → Bool
  | .enqueue message => !message.own
  | .respond _ | .exit => false
  | _ => true

inductive Action (V : Video) where
  | session (a : Session.Action V)
  | conn (a : Connection.Action Interleaved Request Answer)
  | trySend
  | lookup
  | returns
  | passes (outcome : Option Outcome) (elsewhere : Response)
  | exit

def step (l : Link V) : Action V → Option (Link V)
  | .session a =>
      if ofSession a then (l.session.step a).map fun session => { l with session } else none
  | .conn a => if ofConnection a then (l.conn.step a).map fun conn => { l with conn } else none
  | .trySend => l.trySend
  | .lookup => l.lookup
  | .returns => l.returns
  | .passes outcome elsewhere => l.passes outcome elsewhere
  | .exit => l.exit

/-- The handler has started the session for a SETUP request on a connection that
may have carried anything but media and answers of this session. -/
structure Init (l : Link V) : Prop where
  session : ∃ target muxer accepted stopAll,
    l.session = .setupAndStart target muxer accepted stopAll
  handling : ∃ request, l.conn.pc = .handle request ∧ request.method = .setup ∧
    App.handle request = .elsewhere
  call : l.call = none
  queue : ∀ message ∈ l.conn.queue, message.own = false
  wire : ∀ sent ∈ l.conn.wire, (∀ message, sent = .media message → message.own = false) ∧
    ∀ answer, sent = .response answer → answer.call = none

/-- The runs of a link. -/
def system (V : Video) : Transition.System (Link V) (Action V) where
  init := Init
  step := step

end Link

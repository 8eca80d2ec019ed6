-- SUMMARY: A connection, the session manager, and the sessions that SETUP requests on the connection start: which channels they send on.
import AtomRust.App.Setup
import AtomRust.Session.Registry

/-!
# Carriers

A `Carrier` is a connection together with the session manager and all its sessions.
Some of the sessions were set up on the connection, and put their media on its queue;
the others belong to other connections, of which nothing else is said here.

The handler of the connection is busy with one request at a time. Up to the response
to a SETUP request it is modelled; what it answers to other requests, and to those for
which no session is started, is left to the environment, and so are the `play` and
`teardown` calls, from wherever they come.
-/

open Media (RtpBuf RtpMuxers Video)
open App (ClientRequest Reply SendInterleaved)

namespace Session
variable {V : Video}

/-- The worker may still send media. -/
def live (s : Session V) : Bool :=
  match s.life with
  | .spawned | .running => true
  | .refused | .exiting _ => false

end Session

namespace App

/-- `ResponseMaybeInterleaved::Interleaved`, with ghosts for the session that sent it
and for all sessions that could have, when it was put on the queue. -/
structure Frame where
  channel : UInt8
  payload : List UInt8
  session : Nat
  users : List Nat

/-- The channel on which a session sends an RTP buffer, and what it sends there. -/
def SendInterleaved.frame (target : SendInterleaved) : RtpBuf → UInt8 × List UInt8
  | .rtp payload => (target.rtpChannel, payload)
  | .rtcp payload => (target.rtcpChannel, payload)

/-- The session sends on `channel`. -/
def SendInterleaved.carries (target : SendInterleaved) (channel : UInt8) : Bool :=
  channel = target.rtpChannel || channel = target.rtcpChannel

/-- The handler goes on with a SETUP request. -/
def ClientRequest.isSetup (request : ClientRequest) : Bool :=
  match handle request.request with
  | .elsewhere => request.request.method = .setup
  | _ => false

end App

open App (Frame)

structure Carrier (V : Video) (B : RtpMuxers V) where
  manager : SessionManager V
  conn : Connection Frame ClientRequest Reply
  /-- For each session, its target if it was set up on the connection. -/
  targets : List (Option SendInterleaved)
  /-- The `setup` call that the handler waits for, with the transport to announce. -/
  call : Option (Nat × Rtsp.Transport)

namespace Carrier
variable {V : Video} {B : RtpMuxers V}

def start (accepted : Bool) (stopAll : List Unit) : Carrier V B where
  manager := .start accepted stopAll
  conn := .start
  targets := []
  call := none

/-- The target of session `i`, if it was set up on the connection. -/
def target (s : Carrier V B) (i : Nat) : Option SendInterleaved := (s.targets[i]?).join

/-- Session `i` is live, was set up on the connection, and sends on `channel`. -/
def uses (s : Carrier V B) (channel : UInt8) (i : Nat) : Bool :=
  (s.manager.setups[i]?.any fun u => u.session.live) &&
    (s.target i).any fun target => target.carries channel

def users (s : Carrier V B) (channel : UInt8) : List Nat :=
  (List.range s.targets.length).filter (s.uses channel)

/-! ## Steps -/

/-- A SETUP request starts a session. -/
def setup [Rtsp.Crate] (s : Carrier V B) (sample : Nat)
    (mediaInfo : Option (Option (MediaInfo B.StreamInfo))) (builder : Except B.Error B.Builder) :
    Option (Carrier V B) :=
  match s.conn.pc, s.call with
  | .handle request, none =>
      match request.isSetup, App.handleSetup B request mediaInfo builder with
      | true, .setup sessionSetup =>
          (s.manager.step (.setup sample sessionSetup.rtpTarget.kind sessionSetup.rtpMuxer)).map
            fun manager =>
              let target := match sessionSetup.rtpTarget with
                | .rtpTcp target => some target
                | .rtpUdp _ => none
              { s with
                manager
                targets := s.targets ++ [target]
                call := some (s.manager.setups.length, sessionSetup.rtspTransport) }
      | _, _ => none
  | _, _ => none

/-- The `setup` call returns. -/
def returns (s : Carrier V B) : Option (Carrier V B) :=
  s.call.bind fun (i, transport) =>
    (s.manager.setups[i]?.bind fun u => u.result).bind fun result =>
      (s.conn.step (.respond (App.finishSetup transport result))).map fun conn =>
        { s with conn, call := none }

/-- The handler answers a request for which it has started no session. -/
def answers (s : Carrier V B) (reply : Reply) : Option (Carrier V B) :=
  if s.call.isNone then (s.conn.step (.respond reply)).map fun conn => { s with conn } else none

/-- A SETUP request on another connection starts a session. -/
def setupElsewhere (s : Carrier V B) (sample : Nat) (kind : Session.SessionSetupTarget)
    (muxer : V.RtpMuxer) : Option (Carrier V B) :=
  (s.manager.step (.setup sample kind muxer)).map fun manager =>
    { s with manager, targets := s.targets ++ [none] }

/-- The worker of session `i` tries to put the message it stands at on the queue. -/
def trySend (s : Carrier V B) (i : Nat) : Option (Carrier V B) :=
  (s.target i).bind fun target =>
    s.manager.setups[i]?.bind fun u =>
      (s.manager.step (.session i (.trySend s.conn.trySend))).map fun manager =>
        match u.session.worker.pc, s.conn.trySend with
        | .send message _, .ok =>
            let (channel, payload) := target.frame message
            let frame : Frame := { channel, payload, session := i, users := s.users channel }
            { s with manager, conn := s.conn.enqueue frame }
        | _, _ => { s with manager }

/-- What the manager and the sessions do without the connection. The queue's receiver
is gone for the sessions on the connection once its worker has dropped it. -/
def ofManager (s : Carrier V B) : SessionManager.Action V → Bool
  | .setup .. => false
  | .session i (.trySend _) => (s.target i).isNone
  | .session i .closeMedia => (s.target i).isNone || !s.conn.receives
  | _ => true

/-- What the connection does without the sessions and the handler. -/
def ofConnection : Connection.Action Frame ClientRequest Reply → Bool
  | .enqueue _ | .respond _ => false
  | _ => true

inductive Action (V : Video) (B : RtpMuxers V) where
  | setup (sample : Nat) (mediaInfo : Option (Option (MediaInfo B.StreamInfo)))
      (builder : Except B.Error B.Builder)
  | returns
  | answers (reply : Reply)
  | setupElsewhere (sample : Nat) (kind : Session.SessionSetupTarget) (muxer : V.RtpMuxer)
  | trySend (i : Nat)
  | manager (a : SessionManager.Action V)
  | conn (a : Connection.Action Frame ClientRequest Reply)

def step [Rtsp.Crate] (s : Carrier V B) : Action V B → Option (Carrier V B)
  | .setup sample mediaInfo builder => s.setup sample mediaInfo builder
  | .returns => s.returns
  | .answers reply => s.answers reply
  | .setupElsewhere sample kind muxer => s.setupElsewhere sample kind muxer
  | .trySend i => s.trySend i
  | .manager a =>
      if s.ofManager a then (s.manager.step a).map fun manager => { s with manager } else none
  | .conn a => if ofConnection a then (s.conn.step a).map fun conn => { s with conn } else none

/-- The runs of a carrier. -/
def system [Rtsp.Crate] (V : Video) (B : RtpMuxers V) :
    Transition.System (Carrier V B) (Action V B) where
  init s := ∃ accepted stopAll, s = start accepted stopAll
  step := step

/-- A builder that any stream fits. -/
def countingMuxers : RtpMuxers .counting where
  StreamInfo := Unit
  Error := Unit
  Builder := UInt16
  withStream builder _ := .ok builder
  build builder := builder

end Carrier

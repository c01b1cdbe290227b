import WebTransport.Theory.Machine

/-! `Server::SessionWrapper` as a reactive machine. An application callback is a script of
calls on the session, run at the point where the wrapper invokes it. The trace records
the calls on the transport session, the beginning of every callback, and each assignment
of `session_closed_`. -/
namespace WebTransport.Server

/-- Which of the server's callbacks are set. They are registered before the server listens. -/
structure Callbacks where
  sessionCb : Bool
  unidirectionalCb : Bool
  bidirectionalCb : Bool
  deriving DecidableEq, Repr

structure SessionWrapper where
  path : String := ""
  datagramCb : Bool := false
  onreadyCalled : Bool := false
  sessionClosed : Bool := false
  shouldReject : Bool := false
  rejectErrorCode : UInt32 := 0
  rejectReason : String := ""
  deriving DecidableEq, Repr

inductive Call where
  | rejectSession (errorCode : UInt32) (reason : String)
  | sendDatagram (data : List UInt8)
  | onDatagramRead (set : Bool)
  deriving DecidableEq, Repr

/-- Calls from the application outside callbacks, and from the transport. A callback that
the event invokes behaves as its script; the accept loops have one script per stream. -/
inductive Event where
  | call (call : Call)
  | onSessionReady (script : List Call) (accept : Bool)
  | onDatagramReceived (datagram : List UInt8) (script : List Call)
  | onIncomingUnidirectionalStreamAvailable (streams : List (List Call))
  | onIncomingBidirectionalStreamAvailable (streams : List (List Call))
  | onSessionClosed
  deriving DecidableEq, Repr

inductive Effect where
  | rejectSession (errorCode : UInt32) (reason : String)
  | closed
  | closeSession (errorCode : UInt32) (reason : String)
  | sendOrQueueDatagram (data : List UInt8)
  | onSessionClosed
  | sessionCallback (path : String)
  | sessionCallbackReturned (accept : Bool)
  | datagramCallback (data : List UInt8)
  | unidirectionalCallback (path : String)
  | bidirectionalCallback (path : String)
  deriving DecidableEq, Repr

def Effect.isCallback : Effect → Bool
  | .sessionCallback _ | .datagramCallback _ | .unidirectionalCallback _ | .bidirectionalCallback _ => true
  | _ => false

namespace SessionWrapper

/-- `session_closed_ = true; session_->CloseSession(errorCode, reason)`. -/
def close (s : SessionWrapper) (errorCode : UInt32) (reason : String) : SessionWrapper × List Effect :=
  ({ s with sessionClosed := true }, [.closed, .closeSession errorCode reason])

def rejectSession (s : SessionWrapper) (errorCode : UInt32) (reason : String) :
    SessionWrapper × List Effect :=
  let s := { s with rejectErrorCode := errorCode, rejectReason := reason, shouldReject := true }
  let (s, effects) :=
    if s.onreadyCalled then
      if s.sessionClosed then (s, []) else s.close errorCode reason
    else (s, [])
  (s, .rejectSession errorCode reason :: effects)

def sendDatagram (s : SessionWrapper) (data : List UInt8) : SessionWrapper × List Effect :=
  if s.sessionClosed then (s, []) else (s, [.sendOrQueueDatagram data])

def call (s : SessionWrapper) : Call → SessionWrapper × List Effect
  | .rejectSession errorCode reason => s.rejectSession errorCode reason
  | .sendDatagram data => s.sendDatagram data
  | .onDatagramRead set => ({ s with datagramCb := set }, [])

def runScript (s : SessionWrapper) (script : List Call) : SessionWrapper × List Effect :=
  Machine.run call s script

def defaultReason : String := "Session rejected by application"

/-- The default rejection at the end of `OnSessionReady`. -/
def refuse (s : SessionWrapper) (accept : Bool) : SessionWrapper × List Effect :=
  if accept = false ∧ s.shouldReject = false ∧ s.sessionClosed = false then s.close 0 defaultReason
  else (s, [])

/-- The part of `OnSessionReady` behind the early rejection. -/
def decide (callbacks : Callbacks) (s : SessionWrapper) (script : List Call) (answer : Bool) :
    SessionWrapper × List Effect :=
  if callbacks.sessionCb then
    let (s', effects) := s.runScript script
    let (s', closing) := s'.refuse answer
    (s', .sessionCallback s.path :: effects ++ .sessionCallbackReturned answer :: closing)
  else s.refuse true

def onSessionReady (callbacks : Callbacks) (s : SessionWrapper) (script : List Call) (answer : Bool) :
    SessionWrapper × List Effect :=
  let s := { s with onreadyCalled := true }
  if s.shouldReject then
    if s.sessionClosed then (s, []) else s.close s.rejectErrorCode s.rejectReason
  else s.decide callbacks script answer

def onDatagramReceived (s : SessionWrapper) (datagram : List UInt8) (script : List Call) :
    SessionWrapper × List Effect :=
  if s.datagramCb = true ∧ s.sessionClosed = false then
    let (s, effects) := s.runScript script
    (s, .datagramCallback datagram :: effects)
  else (s, [])

def acceptStream (set : Bool) (callback : String → Effect) (s : SessionWrapper) (script : List Call) :
    SessionWrapper × List Effect :=
  if set then
    let (s', effects) := s.runScript script
    (s', callback s.path :: effects)
  else (s, [])

/-- The accept loop of either kind; the closed flag is tested in front of it. -/
def acceptStreams (set : Bool) (callback : String → Effect) (s : SessionWrapper)
    (streams : List (List Call)) : SessionWrapper × List Effect :=
  if s.sessionClosed then (s, []) else Machine.run (acceptStream set callback) s streams

def onIncomingUnidirectionalStreamAvailable (callbacks : Callbacks) (s : SessionWrapper)
    (streams : List (List Call)) : SessionWrapper × List Effect :=
  s.acceptStreams callbacks.unidirectionalCb .unidirectionalCallback streams

def onIncomingBidirectionalStreamAvailable (callbacks : Callbacks) (s : SessionWrapper)
    (streams : List (List Call)) : SessionWrapper × List Effect :=
  s.acceptStreams callbacks.bidirectionalCb .bidirectionalCallback streams

def onSessionClosed (s : SessionWrapper) : SessionWrapper × List Effect :=
  ({ s with sessionClosed := true }, [.onSessionClosed, .closed])

def step (callbacks : Callbacks) (s : SessionWrapper) : Event → SessionWrapper × List Effect
  | .call c => s.call c
  | .onSessionReady script accept => s.onSessionReady callbacks script accept
  | .onDatagramReceived datagram script => s.onDatagramReceived datagram script
  | .onIncomingUnidirectionalStreamAvailable streams =>
    s.onIncomingUnidirectionalStreamAvailable callbacks streams
  | .onIncomingBidirectionalStreamAvailable streams =>
    s.onIncomingBidirectionalStreamAvailable callbacks streams
  | .onSessionClosed => s.onSessionClosed

end SessionWrapper

end WebTransport.Server

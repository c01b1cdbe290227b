import WebTransport.Theory.Machine

/-! Callback registration on the client. The library has two layers: `web_transport::Client`
and `web_transport::ClientSession` hold the application's functions and put wrappers around
them into `webtransport::Client` and `webtransport::ClientSession` (`InternalClient` and
`InternalSession`). An application callback is a script of registrations, run where the
library invokes it. -/
namespace WebTransport

namespace Client

/-- What an internal `bidi_stream_callback_` can hold: the wrapper of the client, or that of
one `web_transport::ClientSession`. Both look their application callback up when called. -/
inductive Handler where
  | client
  | session (session : Nat)
  deriving DecidableEq, Repr

structure InternalClient (App : Type) where
  sessionCallback : Bool := false
  bidiStreamCallback : Option Handler := none
  sessionErrorCallback : Option App := none
  deriving DecidableEq, Repr

structure InternalSession (App : Type) where
  bidiStreamCallback : Option Handler := none
  sessionErrorCallback : Option App := none
  deriving DecidableEq, Repr

/-- A `web_transport::ClientSession`; several can stand for one internal session. -/
structure ClientSession (App : Type) where
  session : Nat
  bidiStreamCallback : Option App := none
  deriving DecidableEq, Repr

end Client

structure Client (App : Type) where
  client : Client.InternalClient App := {}
  sessionCallback : Bool := false
  bidiStreamCallback : Option App := none
  internalSessions : List (Client.InternalSession App) := []
  sessions : List (Client.ClientSession App) := []
  deriving DecidableEq, Repr

namespace Client

/-- What the application may call, at any time. A registered function can be empty. -/
inductive Call (App : Type) where
  | onSessionOpen (set : Bool)
  | onSessionError (callback : Option App)
  | onBidirectionalStream (callback : Option App)
  | sessionOnBidirectionalStream (session : Nat) (callback : Option App)
  deriving DecidableEq, Repr

/-- An accepted stream comes with what the application does when it gets it. -/
structure Incoming (App : Type) where
  stream : Nat
  script : List (Call App)
  deriving DecidableEq, Repr

inductive Event (App : Type) where
  | call (call : Call App)
  | onSessionReady (script : List (Call App))
  | onIncomingBidirectionalStreamAvailable (internalSession : Nat) (streams : List (Incoming App))
  | onSessionClosed (internalSession : Nat)
  deriving DecidableEq, Repr

/-- `accepted` lists the application callbacks that a stream was passed to, each with the
session object it was given. -/
inductive Effect (App : Type) where
  | onBidirectionalStream (callback : Option App)
  | sessionOnBidirectionalStream (internalSession : Nat) (callback : Option App)
  | sessionCallback (session : Nat)
  | copied (internalSession : Nat)
  | accepted (internalSession stream : Nat) (callbacks : List (App × Nat))
  | sessionError (internalSession : Nat) (callback : App)
  deriving DecidableEq, Repr

variable {App : Type}

def onSessionOpen (c : Client App) (set : Bool) : Client App :=
  { c with sessionCallback := set, client := { c.client with sessionCallback := true } }

def onSessionError (c : Client App) (callback : Option App) : Client App :=
  { c with client := { c.client with sessionErrorCallback := callback } }

def onBidirectionalStream (c : Client App) (callback : Option App) : Client App :=
  { c with
    bidiStreamCallback := callback
    client := { c.client with bidiStreamCallback := some .client } }

/-- `webtransport::ClientSession::onBidirectionalStream`. -/
def internalOnBidirectionalStream (c : Client App) (internalSession : Nat) (callback : Option Handler) :
    Client App :=
  { c with
    internalSessions := c.internalSessions.modify internalSession fun s =>
      { s with bidiStreamCallback := callback } }

/-- `web_transport::ClientSession::onBidirectionalStream` on the object with this number. -/
def sessionOnBidirectionalStream (c : Client App) (session : Nat) (callback : Option App) :
    Client App × List (Effect App) :=
  match c.sessions[session]? with
  | none => (c, [])
  | some object =>
    let c := { c with sessions := c.sessions.set session { object with bidiStreamCallback := callback } }
    (c.internalOnBidirectionalStream object.session (some (.session session)),
      [.sessionOnBidirectionalStream object.session callback])

def call (c : Client App) : Call App → Client App × List (Effect App)
  | .onSessionOpen set => (c.onSessionOpen set, [])
  | .onSessionError callback => (c.onSessionError callback, [])
  | .onBidirectionalStream callback =>
    (c.onBidirectionalStream callback, [.onBidirectionalStream callback])
  | .sessionOnBidirectionalStream session callback => c.sessionOnBidirectionalStream session callback

def runScript (c : Client App) (script : List (Call App)) : Client App × List (Effect App) :=
  Machine.run call c script

def newSession (c : Client App) (internalSession : Nat) : Client App × Nat :=
  ({ c with sessions := c.sessions ++ [{ session := internalSession }] }, c.sessions.length)

/-- A `webtransport::ClientSession` with the error callback of the client, if there is one. -/
def newInternalSession (c : Client App) : Client App :=
  { c with
    internalSessions := c.internalSessions ++ [{ sessionErrorCallback := c.client.sessionErrorCallback }] }

def openSession (c : Client App) (internalSession : Nat) (script : List (Call App)) :
    Client App × List (Effect App) :=
  if c.client.sessionCallback ∧ c.sessionCallback then
    let (c, session) := c.newSession internalSession
    let (c, effects) := c.runScript script
    (c, .sessionCallback session :: effects)
  else (c, [])

/-- The ready branch of `SessionReadyAlarmDelegate::OnAlarm`. -/
def onSessionReady (c : Client App) (script : List (Call App)) : Client App × List (Effect App) :=
  let clientSession := c.internalSessions.length
  let (c, effects) := c.newInternalSession.openSession clientSession script
  (c.internalOnBidirectionalStream clientSession c.client.bidiStreamCallback,
    effects ++ [.copied clientSession])

def invoke (c : Client App) (internalSession : Nat) : Option Handler → Client App × List (App × Nat)
  | none => (c, [])
  | some .client =>
    match c.bidiStreamCallback with
    | none => (c, [])
    | some callback =>
      let (c, session) := c.newSession internalSession
      (c, [(callback, session)])
  | some (.session session) =>
    match c.sessions[session]? with
    | none => (c, [])
    | some object => (c, object.bidiStreamCallback.toList.map fun callback => (callback, session))

def acceptStream (internalSession : Nat) (c : Client App) (incoming : Incoming App) :
    Client App × List (Effect App) :=
  match c.internalSessions[internalSession]? with
  | none => (c, [])
  | some s =>
    let (c, callbacks) := c.invoke internalSession s.bidiStreamCallback
    let (c, effects) := if callbacks.isEmpty then (c, []) else c.runScript incoming.script
    (c, .accepted internalSession incoming.stream callbacks :: effects)

def onIncomingBidirectionalStreamAvailable (c : Client App) (internalSession : Nat)
    (streams : List (Incoming App)) : Client App × List (Effect App) :=
  Machine.run (acceptStream internalSession) c streams

def onSessionClosed (c : Client App) (internalSession : Nat) : Client App × List (Effect App) :=
  match (c.internalSessions[internalSession]?).bind (·.sessionErrorCallback) with
  | none => (c, [])
  | some callback => (c, [.sessionError internalSession callback])

def step (c : Client App) : Event App → Client App × List (Effect App)
  | .call call => c.call call
  | .onSessionReady script => c.onSessionReady script
  | .onIncomingBidirectionalStreamAvailable internalSession streams =>
    c.onIncomingBidirectionalStreamAvailable internalSession streams
  | .onSessionClosed internalSession => c.onSessionClosed internalSession

end Client

end WebTransport

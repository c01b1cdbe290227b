import WebTransport.Theory.Machine

/-! The connection of a `webtransport::Client`: `connect`, `disconnect` and the two alarms
that poll for the handshake and for the session. Calls of `connect` are numbered, and an
alarm keeps the number of the attempt that created it. An application callback is a script
of calls, which may disconnect but not connect. What the event loop delivers inside
`disconnect` comes as events of its own. -/
namespace WebTransport.Connection

/-- `session` is the open `ClientSession` with its own error callback, which can be empty. -/
structure Client (App : Type) where
  client : Bool := false
  connected : Bool := true
  sessionCallback : Option App := none
  sessionErrorCallback : Option App := none
  handshakeAlarm : Option Nat := none
  sessionReadyAlarm : Option Nat := none
  session : Option (Option App) := none
  attempts : Nat := 0
  deriving DecidableEq, Repr

/-- What the application may call, inside a callback or outside. -/
inductive Call (App : Type) where
  | disconnect
  | onSessionOpen (callback : Option App)
  | onSessionError (callback : Option App)
  | setErrorCallback (callback : Option App)
  deriving DecidableEq, Repr

/-- What the transport says when the session-ready alarm fires. `wtSession` tells whether
there is a WebTransport session and whether it is ready. -/
structure Answers where
  clientSession : Bool
  streamError : Bool
  connectionError : Bool
  wtSession : Option Bool
  headersDecompressed : Bool
  status : Option String
  deriving DecidableEq, Repr

/-- `connect` comes with the result of `Initialize() && Connect()`, the handshake alarm with
whether there is a client session. -/
inductive Event (App : Type) where
  | connect (established : Bool)
  | call (call : Call App)
  | handshakeAlarm (clientSession : Bool)
  | sessionReadyAlarm (answers : Answers) (script : List (Call App))
  | onSessionClosed (errorMessage : String) (script : List (Call App))
  deriving DecidableEq, Repr

inductive Callback (App : Type) where
  | sessionOpen (callback : App)
  | sessionError (callback : App) (errorMessage : String)
  deriving DecidableEq, Repr

/-- A firing of the session-ready alarm, with the callbacks it invoked, the attempt it left
the alarm armed for, and whether it left the run flag set. -/
structure Firing (App : Type) where
  attempt : Nat
  answers : Answers
  callbacks : List (Callback App)
  armed : Option Nat
  connected : Bool
  deriving DecidableEq, Repr

inductive Effect (App : Type) where
  | connected (attempt : Nat)
  | threw (attempt : Nat) (what : String)
  | disconnected
  | sendRequest (attempt : Nat)
  | callback (callback : Callback App)
  | print (line : String)
  | fired (firing : Firing App)
  | sessionClosed
  deriving DecidableEq, Repr

variable {App : Type}

def Effect.callback? : Effect App → Option (Callback App)
  | .callback invoked => some invoked
  | _ => none

def callbacks (effects : List (Effect App)) : List (Callback App) :=
  effects.filterMap Effect.callback?

namespace Client

/-- Destroying the old `client_` takes its session along. Its alarms live on: only
`handshake_alarm_` is replaced here, and only when the connection is established. -/
def connect (c : Client App) (established : Bool) : Client App × List (Effect App) :=
  let attempt := c.attempts + 1
  let c := { c with client := true, session := none, attempts := attempt }
  if established then ({ c with handshakeAlarm := some attempt }, [.connected attempt])
  else (c, [.threw attempt "Connection initialization failed"])

def disconnect (c : Client App) : Client App × List (Effect App) :=
  ({ c with
    connected := false
    handshakeAlarm := none
    sessionReadyAlarm := none
    client := false
    session := none }, [.disconnected])

def call (c : Client App) : Call App → Client App × List (Effect App)
  | .disconnect => c.disconnect
  | .onSessionOpen callback => ({ c with sessionCallback := callback }, [])
  | .onSessionError callback => ({ c with sessionErrorCallback := callback }, [])
  | .setErrorCallback callback => ({ c with session := c.session.map fun _ => callback }, [])

def runScript (c : Client App) (script : List (Call App)) : Client App × List (Effect App) :=
  Machine.run call c script

def createWebTransportSession (c : Client App) (attempt : Nat) : Client App × List (Effect App) :=
  ({ c with sessionReadyAlarm := some attempt }, [.sendRequest attempt])

/-- `HandshakeAlarmDelegate::OnAlarm`. An alarm that is not armed does not fire. -/
def onHandshakeAlarm (c : Client App) (clientSession : Bool) : Client App × List (Effect App) :=
  match c.handshakeAlarm with
  | none => (c, [])
  | some attempt =>
    let c := { c with handshakeAlarm := none }
    if clientSession then c.createWebTransportSession attempt
    else ({ c with handshakeAlarm := some attempt }, [])

/-- An error exit: the callback or else the line on `std::cout`, then the flag. -/
def fail (c : Client App) (script : List (Call App)) (errorMessage : String) (line : Option String) :
    Client App × List (Effect App) :=
  let (c, effects) :=
    match c.sessionErrorCallback with
    | some callback =>
      let (c, effects) := c.runScript script
      (c, Effect.callback (.sessionError callback errorMessage) :: effects)
    | none => (c, line.toList.map .print)
  ({ c with connected := false }, effects)

def sessionErrorLine (errorMessage : String) : String := "Session error: " ++ errorMessage

def newClientSession (c : Client App) : Client App :=
  { c with session := some c.sessionErrorCallback }

def openSession (c : Client App) (script : List (Call App)) : Client App × List (Effect App) :=
  match c.sessionCallback with
  | some callback =>
    let (c, effects) := c.newClientSession.runScript script
    (c, .callback (.sessionOpen callback) :: effects)
  | none => (c.newClientSession, [])

/-- The five exits of `SessionReadyAlarmDelegate::OnAlarm`. -/
def onAlarm (c : Client App) (attempt : Nat) (answers : Answers) (script : List (Call App)) :
    Client App × List (Effect App) :=
  if answers.clientSession = false then c.fail script "Connection lost or failed" none
  else if answers.streamError || answers.connectionError then
    let errorMsg := "Stream reset or connection error"
    c.fail script errorMsg (some (sessionErrorLine errorMsg))
  else if answers.wtSession = some true then c.openSession script
  else if answers.headersDecompressed then
    let status := answers.status.getD "unknown"
    let errorMsg := "Server rejected WebTransport session with status: " ++ status
    c.fail script errorMsg (some (sessionErrorLine errorMsg))
  else ({ c with sessionReadyAlarm := some attempt }, [])

def disarm (c : Client App) : Client App :=
  { c with sessionReadyAlarm := none }

def onSessionReadyAlarm (c : Client App) (answers : Answers) (script : List (Call App)) :
    Client App × List (Effect App) :=
  match c.sessionReadyAlarm with
  | none => (c, [])
  | some attempt =>
    let (c, effects) := c.disarm.onAlarm attempt answers script
    (c, effects ++ [.fired ⟨attempt, answers, callbacks effects, c.sessionReadyAlarm, c.connected⟩])

def onSessionClosed (c : Client App) (errorMessage : String) (script : List (Call App)) :
    Client App × List (Effect App) :=
  match c.session with
  | none => (c, [])
  | some errorCallback =>
    let c := { c with session := none }
    match errorCallback with
    | some callback =>
      let (c, effects) := c.runScript script
      (c, .sessionClosed :: .callback (.sessionError callback errorMessage) :: effects)
    | none => (c, [.sessionClosed, .print ("Session closed: " ++ errorMessage)])

def step (c : Client App) : Event App → Client App × List (Effect App)
  | .connect established => c.connect established
  | .call call => c.call call
  | .handshakeAlarm clientSession => c.onHandshakeAlarm clientSession
  | .sessionReadyAlarm answers script => c.onSessionReadyAlarm answers script
  | .onSessionClosed errorMessage script => c.onSessionClosed errorMessage script

/-- `runEventLoop`, with the events of each pass; the passes it does not take are left. -/
def runEventLoop (c : Client App) : List (List (Event App)) → Client App × List (List (Event App))
  | [] => (c, [])
  | pass :: rest =>
    if c.connected then runEventLoop (Machine.run step c pass).1 rest else (c, pass :: rest)

end Client

end WebTransport.Connection

import WebTransport.Server.Close
import WebTransport.Theory.Family

/-! The server with all its sessions. Requests create sessions, callbacks are registered at
any time between events, and the script of a callback may call any session. -/
namespace WebTransport.Server

open Family

/-- The codes that the backend tells apart from any other failure. -/
inductive Refusal where
  | notFound
  | invalidArgument
  | resourceExhausted
  | other
  deriving DecidableEq, Repr

def Refusal.status : Refusal → String
  | .notFound => "404"
  | .invalidArgument => "400"
  | .resourceExhausted => "429"
  | .other => "500"

def processWebTransportRequest (callback : String → Except Refusal V) (path : Option String) : String × Option V :=
  match path with
  | none => ("400", none)
  | some path =>
    match callback path with
    | .ok visitor => ("200", some visitor)
    | .error code => (code.status, none)

/-- The callback that `InitializeServer` hands to the backend. -/
def wrapSession (path : String) : Except Refusal SessionWrapper := .ok { path }

structure Sessions where
  callbacks : Callbacks := ⟨false, false, false⟩
  members : List SessionWrapper := []
  deriving DecidableEq, Repr

namespace Sessions

abbrev Script := List (Nat × Call)

inductive Event where
  | register (callbacks : Callbacks)
  | request (path : Option String)
  | call (session : Nat) (call : Call)
  | onSessionReady (session : Nat) (script : Script) (accept : Bool)
  | onDatagramReceived (session : Nat) (datagram : List UInt8) (script : Script)
  | onIncomingUnidirectionalStreamAvailable (session : Nat) (streams : List Script)
  | onIncomingBidirectionalStreamAvailable (session : Nat) (streams : List Script)
  | onSessionClosed (session : Nat)
  deriving DecidableEq, Repr

abbrev Result := List SessionWrapper × List (Nat × Effect)

def runScript (members : List SessionWrapper) (script : Script) : Result :=
  Machine.run (stepAt SessionWrapper.call) members script

section

variable (callbacks : Callbacks) (i : Nat) (members : List SessionWrapper)

def decide (s : SessionWrapper) (script : Script) (answer : Bool) : Result :=
  if callbacks.sessionCb then
    let (members, effects) := runScript members script
    let (members, closing) := act i (·.refuse answer) members
    (members, (i, .sessionCallback s.path) :: effects ++ (i, .sessionCallbackReturned answer) :: closing)
  else act i (·.refuse true) members

def onSessionReady (script : Script) (answer : Bool) : Result :=
  match members[i]? with
  | none => (members, [])
  | some s =>
    let (members, _) := act i (fun s => ({ s with onreadyCalled := true }, ([] : List Effect))) members
    if s.shouldReject then
      act i (fun s => if s.sessionClosed then (s, []) else s.close s.rejectErrorCode s.rejectReason) members
    else decide callbacks i members s script answer

def onDatagramReceived (datagram : List UInt8) (script : Script) : Result :=
  match members[i]? with
  | none => (members, [])
  | some s =>
    if s.datagramCb = true ∧ s.sessionClosed = false then
      let (members, effects) := runScript members script
      (members, (i, .datagramCallback datagram) :: effects)
    else (members, [])

def acceptStream (set : Bool) (callback : String → Effect) (members : List SessionWrapper) (script : Script) : Result :=
  match members[i]? with
  | none => (members, [])
  | some s =>
    if set then
      let (members, effects) := runScript members script
      (members, (i, callback s.path) :: effects)
    else (members, [])

def acceptStreams (set : Bool) (callback : String → Effect) (streams : List Script) : Result :=
  match members[i]? with
  | none => (members, [])
  | some s => if s.sessionClosed then (members, []) else Machine.run (acceptStream i set callback) members streams

end

def step (server : Sessions) (event : Event) : Sessions × List (Nat × Effect) :=
  let after (result : Result) := ({ server with members := result.1 }, result.2)
  match event with
  | .register callbacks => ({ server with callbacks }, [])
  | .request path =>
    ({ server with members := server.members ++ (processWebTransportRequest wrapSession path).2.toList }, [])
  | .call i c => after (stepAt SessionWrapper.call server.members (i, c))
  | .onSessionReady i script accept => after (onSessionReady server.callbacks i server.members script accept)
  | .onDatagramReceived i datagram script => after (onDatagramReceived i server.members datagram script)
  | .onIncomingUnidirectionalStreamAvailable i streams =>
    after (acceptStreams i server.members server.callbacks.unidirectionalCb .unidirectionalCallback streams)
  | .onIncomingBidirectionalStreamAvailable i streams =>
    after (acceptStreams i server.members server.callbacks.bidirectionalCb .bidirectionalCallback streams)
  | .onSessionClosed i => after (act i SessionWrapper.onSessionClosed server.members)

/-- Inputs of one session on its own: it is created, or an event reaches it under the
callbacks that are registered then. -/
inductive Seen where
  | created (path : String)
  | event (callbacks : Callbacks) (event : Server.Event)
  deriving DecidableEq, Repr

def alone : Option SessionWrapper → Seen → Option SessionWrapper × List Effect
  | none, .created path => (some { path }, [])
  | none, .event _ _ => (none, [])
  | some s, .created _ => (some s, [])
  | some s, .event callbacks event => lift (fun s => s.step callbacks event) (some s)

/-- The part of a script that another session's event runs on session `j`. -/
def nested (callbacks : Callbacks) (j : Nat) (script : Script) : List Seen :=
  (own j script).map fun c => .event callbacks (.call c)

def ran (callbacks : Callbacks) (s : SessionWrapper) : Event → Script
  | .onSessionReady _ script _ => if s.shouldReject = false ∧ callbacks.sessionCb = true then script else []
  | .onDatagramReceived _ _ script => if s.datagramCb = true ∧ s.sessionClosed = false then script else []
  | .onIncomingUnidirectionalStreamAvailable _ streams =>
    if s.sessionClosed = false ∧ callbacks.unidirectionalCb = true then streams.flatten else []
  | .onIncomingBidirectionalStreamAvailable _ streams =>
    if s.sessionClosed = false ∧ callbacks.bidirectionalCb = true then streams.flatten else []
  | _ => []

def addressed? : Event → Option (Nat × Server.Event)
  | .register _ | .request _ => none
  | .call i c => some (i, .call c)
  | .onSessionReady i script accept => some (i, .onSessionReady (own i script) accept)
  | .onDatagramReceived i datagram script => some (i, .onDatagramReceived datagram (own i script))
  | .onIncomingUnidirectionalStreamAvailable i streams =>
    some (i, .onIncomingUnidirectionalStreamAvailable (streams.map (own i)))
  | .onIncomingBidirectionalStreamAvailable i streams =>
    some (i, .onIncomingBidirectionalStreamAvailable (streams.map (own i)))
  | .onSessionClosed i => some (i, .onSessionClosed)

def sees (j : Nat) (server : Sessions) (event : Event) : List Seen :=
  match addressed? event with
  | some (i, own) =>
    if i = j then [.event server.callbacks own]
    else match server.members[i]? with
      | some s => nested server.callbacks j (ran server.callbacks s event)
      | none => []
  | none =>
    match event with
    | .request (some path) => if server.members.length = j then [.created path] else []
    | _ => []

theorem runScript_getElem? (j : Nat) (members : List SessionWrapper) (script : Script) :
    (runScript members script).1[j]? = (lift (fun s => s.runScript (own j script)) members[j]?).1 :=
  congrArg Prod.fst (view_run SessionWrapper.call j members script)

theorem own_runScript (j : Nat) (members : List SessionWrapper) (script : Script) :
    own j (runScript members script).2 = (lift (fun s => s.runScript (own j script)) members[j]?).2 :=
  congrArg Prod.snd (view_run SessionWrapper.call j members script)

theorem run_nested (callbacks : Callbacks) (j : Nat) (script : Script) (s : Option SessionWrapper) :
    Machine.run alone s (nested callbacks j script) = lift (fun s => s.runScript (own j script)) s := by
  have calls (script : List Call) : Machine.run alone s (script.map fun c => .event callbacks (.call c)) =
      lift (fun s => s.runScript script) s := by
    induction script generalizing s with
    | nil => cases s <;> rfl
    | cons c rest ih =>
      rw [List.map_cons, Machine.run_cons, ih]
      cases s <;> rfl
  exact calls (own j script)

section

variable {callbacks : Callbacks} {i j : Nat} {members : List SessionWrapper} {s : SessionWrapper}

theorem view_onSessionReady (found : members[i]? = some s) (script : Script) (answer : Bool) :
    view i (onSessionReady callbacks i members script answer) =
      lift (fun s => s.onSessionReady callbacks (own i script) answer) (some s) := by
  simp only [onSessionReady, found, lift_some, SessionWrapper.onSessionReady]
  cases asked : s.shouldReject with
  | true => simp [view, act_getElem?, own_act, found, asked]
  | false =>
    cases set : callbacks.sessionCb <;>
      simp [view, act_getElem?, own_act, runScript_getElem?, own_runScript, found, own_cons, decide,
        SessionWrapper.decide, set, asked]

theorem view_onDatagramReceived (found : members[i]? = some s) (datagram : List UInt8) (script : Script) :
    view i (onDatagramReceived i members datagram script) =
      lift (fun s => s.onDatagramReceived datagram (own i script)) (some s) := by
  simp only [onDatagramReceived, found, lift_some, SessionWrapper.onDatagramReceived]
  split <;> simp [view, runScript_getElem?, own_runScript, found, own_cons]

theorem view_acceptStream (set : Bool) (callback : String → Effect) (members : List SessionWrapper) (script : Script) :
    view i (acceptStream i set callback members script) =
      lift (fun s => s.acceptStream set callback (own i script)) members[i]? := by
  cases found : members[i]? with
  | none => simp [acceptStream, view, found]
  | some s =>
    simp only [acceptStream, found, lift_some, SessionWrapper.acceptStream]
    split <;> simp [view, runScript_getElem?, own_runScript, found, own_cons]

theorem view_acceptStreams (found : members[i]? = some s) (set : Bool) (callback : String → Effect)
    (streams : List Script) : view i (acceptStreams i members set callback streams) =
      lift (fun s => s.acceptStreams set callback (streams.map (own i))) (some s) := by
  simp only [acceptStreams, found, lift_some, SessionWrapper.acceptStreams]
  split
  · simp [view, found]
  · have loop := run_seen (acceptStream i set callback) (fun members => members[i]?) (own i)
      (fun s script => lift (fun s => s.acceptStream set callback script) s) (fun _ script => [own i script]) rfl
      (own_append i) (fun members script => by
        rw [Machine.run_singleton]
        exact view_acceptStream set callback members script) members streams
    rw [seen_flatMap, ← List.map_eq_flatMap, run_lift, found] at loop
    exact loop

theorem view_onSessionReady_other (other : i ≠ j) (found : members[i]? = some s) (script : Script) (answer : Bool) :
    view j (onSessionReady callbacks i members script answer) =
      lift (fun t => t.runScript (own j (ran callbacks s (.onSessionReady i script answer)))) members[j]? := by
  simp only [onSessionReady, found, ran]
  cases asked : s.shouldReject with
  | true =>
    cases present : members[j]? <;> simp [view, act_getElem?, own_act, other, present, SessionWrapper.runScript]
  | false =>
    cases set : callbacks.sessionCb <;> cases present : members[j]? <;>
      simp [view, act_getElem?, own_act, runScript_getElem?, own_runScript, other, own_cons, decide, set, present,
        SessionWrapper.runScript]

theorem view_onDatagramReceived_other (other : i ≠ j) (found : members[i]? = some s) (datagram : List UInt8)
    (script : Script) : view j (onDatagramReceived i members datagram script) =
      lift (fun t => t.runScript (own j (ran callbacks s (.onDatagramReceived i datagram script)))) members[j]? := by
  simp only [onDatagramReceived, found, ran]
  split <;> cases present : members[j]? <;>
    simp [view, runScript_getElem?, own_runScript, other, own_cons, present, SessionWrapper.runScript]

theorem view_loop_other (other : i ≠ j) (set : Bool) (callback : String → Effect) (streams : List Script)
    (members : List SessionWrapper) (there : i < members.length) :
    view j (Machine.run (acceptStream i set callback) members streams) =
      lift (fun t => t.runScript (own j (if set then streams.flatten else []))) members[j]? := by
  induction streams generalizing members with
  | nil => cases present : members[j]? <;> cases set <;> simp [view, present, SessionWrapper.runScript]
  | cons script rest ih =>
    have found : members[i]? = some members[i] := List.getElem?_eq_getElem there
    cases set with
    | false =>
      have skips : acceptStream i false callback members script = (members, []) := by simp [acceptStream, found]
      rw [Machine.run_cons, skips]
      exact ih members there
    | true =>
      have accepts : acceptStream i true callback members script =
          ((runScript members script).1, (i, callback members[i].path) :: (runScript members script).2) := by
        simp [acceptStream, found]
      have later := ih (runScript members script).1 (by rw [runScript, length_run]; exact there)
      simp only [view, Prod.ext_iff] at later
      rw [Machine.run_cons, accepts]
      cases present : members[j]? <;>
        simp [view, later, own_cons, other, runScript_getElem?, own_runScript, present, SessionWrapper.runScript,
          Machine.run_append]

theorem view_acceptStreams_other (other : i ≠ j) (found : members[i]? = some s) (set : Bool)
    (callback : String → Effect) (streams : List Script) :
    view j (acceptStreams i members set callback streams) = lift (fun t => t.runScript
      (own j (if s.sessionClosed = false ∧ set = true then streams.flatten else []))) members[j]? := by
  simp only [acceptStreams, found]
  cases closed : s.sessionClosed with
  | true => cases present : members[j]? <;> simp [view, present, SessionWrapper.runScript]
  | false =>
    have loop := view_loop_other other set callback streams members (List.getElem?_eq_some_iff.mp found).1
    simpa using loop

theorem view_act_other (other : i ≠ j) (react : SessionWrapper → SessionWrapper × List Effect) :
    view j (act i react members) = lift (fun t => t.runScript (own j [])) members[j]? := by
  rw [view_act, if_neg other]
  cases members[j]? <;> rfl

end

/-- An event of one session, put together from what it does to that one and to the others. -/
theorem view_addressed (server : Sessions) (event : Event) (j : Nat) (result : Result)
    (addressed : addressed? event = some (i, e))
    (self : ∀ s, server.members[i]? = some s →
      view i result = lift (fun s => s.step server.callbacks e) (some s))
    (others : ∀ s, server.members[i]? = some s → i ≠ j →
      view j result = lift (fun t => t.runScript (own j (ran server.callbacks s event))) server.members[j]?)
    (absent : server.members[i]? = none → result = (server.members, [])) :
    view j result = Machine.run alone server.members[j]? (sees j server event) := by
  simp only [sees, addressed]
  cases found : server.members[i]? with
  | none =>
    rw [absent found]
    by_cases mine : i = j
    · subst mine
      simp [view, found, Machine.run_cons, alone]
    · simp [view, mine]
  | some s =>
    by_cases mine : i = j
    · subst mine
      rw [if_pos rfl, Machine.run_singleton, found]
      exact self s found
    · rw [if_neg mine, run_nested]
      exact others s found mine

/-- Each step looks to each session like a run of that session on what it sees. -/
theorem view_step (j : Nat) (server : Sessions) (event : Event) :
    ((step server event).1.members[j]?, own j (step server event).2) =
      Machine.run alone server.members[j]? (sees j server event) := by
  cases event with
  | register callbacks => rfl
  | request path =>
    cases path with
    | none => simp [step, processWebTransportRequest, sees, addressed?]
    | some path =>
      simp only [step, processWebTransportRequest, wrapSession, Option.toList_some, sees, addressed?, own_nil]
      by_cases next : server.members.length = j
      · subst next
        simp [Machine.run_cons, alone]
      · rw [if_neg next, Machine.run_nil, List.getElem?_append]
        split
        · rfl
        · rename_i beyond
          rw [List.getElem?_eq_none (by simp; omega), List.getElem?_eq_none (by omega)]
  | call i c =>
    refine view_addressed server _ j (stepAt SessionWrapper.call server.members (i, c)) rfl ?_ ?_ ?_
    · intro s found
      rw [stepAt, view_act, if_pos rfl, found]
      rfl
    · exact fun s found other => view_act_other other _
    · exact fun none => by simp [stepAt, act, none]
  | onSessionReady i script accept =>
    exact view_addressed server _ j _ rfl (fun s found => view_onSessionReady found script accept)
      (fun s found other => view_onSessionReady_other other found script accept)
      (fun none => by simp [onSessionReady, none])
  | onDatagramReceived i datagram script =>
    exact view_addressed server _ j _ rfl (fun s found => view_onDatagramReceived found datagram script)
      (fun s found other => view_onDatagramReceived_other other found datagram script)
      (fun none => by simp [onDatagramReceived, none])
  | onIncomingUnidirectionalStreamAvailable i streams =>
    exact view_addressed server _ j _ rfl (fun s found => view_acceptStreams found _ .unidirectionalCallback streams)
      (fun s found other => view_acceptStreams_other other found _ .unidirectionalCallback streams)
      (fun none => by simp [acceptStreams, none])
  | onIncomingBidirectionalStreamAvailable i streams =>
    exact view_addressed server _ j _ rfl (fun s found => view_acceptStreams found _ .bidirectionalCallback streams)
      (fun s found other => view_acceptStreams_other other found _ .bidirectionalCallback streams)
      (fun none => by simp [acceptStreams, none])
  | onSessionClosed i =>
    refine view_addressed server _ j (act i SessionWrapper.onSessionClosed server.members) rfl ?_ ?_ ?_
    · intro s found
      rw [view_act, if_pos rfl, found]
      rfl
    · exact fun s found other => view_act_other other _
    · exact fun none => by simp [act, none]

end Sessions

end WebTransport.Server

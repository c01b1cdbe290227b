import WebTransport.Server.Isolation
import WebTransport.Datagrams.Poll

/-! The datagram media servers. Every session polls the one UDP socket from its interval,
also after it was closed, and sends what it reads. -/
namespace WebTransport.Server

open Family Datagrams

def Effect.datagram? : Effect → Option (List UInt8)
  | .sendOrQueueDatagram data => some data
  | _ => none

structure Relay where
  socket : List (List UInt8) := []
  server : Sessions := {}
  deriving DecidableEq, Repr

namespace Relay

inductive Event where
  | arrive (datagram : List UInt8)
  | interval (session : Nat)
  | server (event : Sessions.Event)
  deriving DecidableEq, Repr

/-- A datagram that a session has read, with the effects of its `sendDatagram`; or the
effects of any other event. -/
inductive Output where
  | polled (session : Nat) (data : List UInt8) (effects : List (Nat × Effect))
  | served (effects : List (Nat × Effect))
  deriving DecidableEq, Repr

def Output.effects : Output → List (Nat × Effect)
  | .polled _ _ effects | .served effects => effects

def Output.poll : Output → List (Nat × List UInt8)
  | .polled i data _ => [(i, data)]
  | .served _ => []

def Output.forwarded (j : Nat) : Output → List (List UInt8)
  | .polled _ _ effects => (own j effects).filterMap Effect.datagram?
  | .served _ => []

/-- An interval fires only while its session exists. -/
def step (r : Relay) : Event → Relay × List Output
  | .arrive datagram => ({ r with socket := r.socket ++ [datagram] }, [])
  | .interval i =>
    if i < r.server.members.length then
      match poll r.socket with
      | (some data, rest) =>
        let (server, effects) := r.server.step (.call i (.sendDatagram data))
        (⟨rest, server⟩, [.polled i data effects])
      | (none, rest) => ({ r with socket := rest }, [])
    else (r, [])
  | .server event =>
    let (server, effects) := r.server.step event
    ({ r with server }, [.served effects])

def Event.arrived : Event → List (List UInt8)
  | .arrive datagram => [datagram]
  | _ => []

/-- The datagrams are read once and in order, whichever sessions take turns. -/
theorem polled_once (events : List Event) :
    (events.flatMap Event.arrived).filterMap forwardable =
      ((Machine.run step {} events).2.flatMap Output.poll).map Prod.snd ++
        (Machine.run step {} events).1.socket.filterMap forwardable := by
  have moves : ∀ (r : Relay) (event : Event),
      r.socket.filterMap forwardable ++ event.arrived.filterMap forwardable =
        (step r event).2.flatMap (fun o => o.poll.map Prod.snd) ++ (step r event).1.socket.filterMap forwardable := by
    intro r event
    cases event with
    | arrive datagram => simp [step, Event.arrived]
    | server event => simp [step, Event.arrived, Output.poll]
    | interval i =>
      simp only [step, Event.arrived, List.filterMap_nil, List.append_nil]
      split
      · cases holds : r.socket with
        | nil => rfl
        | cons datagram rest =>
          simp only [poll_cons, List.filterMap_cons]
          cases forwardable datagram <;> simp [Output.poll]
      · rfl
  have conserved := Machine.run_conserves (fun r : Relay => r.socket.filterMap forwardable)
    (fun event : Event => event.arrived.filterMap forwardable) (fun o : Output => o.poll.map Prod.snd) moves {} events
  rw [List.filterMap_flatMap, List.map_flatMap]
  exact conserved

/-- What a session does with what it has just read, after these outputs. -/
def Handled (j : Nat) (past : List Output) (o : Output) : Prop :=
  ∀ data effects, o = .polled j data effects →
    own j effects = if .closed ∈ own j (past.flatMap Output.effects) then [] else [.sendOrQueueDatagram data]

/-- What a session has read is what it sent, and what it read behind its end. -/
structure Accounts (j : Nat) (trace : List Output) (r : Relay) (lost : List (List UInt8)) : Prop where
  known : Sessions.Known (own j (trace.flatMap Output.effects)) r.server.members[j]?
  read : own j (trace.flatMap Output.poll) = trace.flatMap (Output.forwarded j) ++ lost
  closed : lost ≠ [] → .closed ∈ own j (trace.flatMap Output.effects)
  handled : Machine.Licensed (Handled j) trace

theorem Accounts.append {j : Nat} {trace : List Output} {r r' : Relay} {lost : List (List UInt8)}
    (h : Accounts j trace r lost) (outputs : List Output)
    (known : Sessions.Known (own j ((trace ++ outputs).flatMap Output.effects)) r'.server.members[j]?)
    (poll : own j (outputs.flatMap Output.poll) = []) (forwarded : outputs.flatMap (Output.forwarded j) = [])
    (others : ∀ o ∈ outputs, ∀ past, Handled j past o) : Accounts j (trace ++ outputs) r' lost where
  known := known
  read := by rw [List.flatMap_append, own_append, List.flatMap_append, poll, forwarded, h.read]; simp
  closed some := by
    rw [List.flatMap_append, own_append]
    exact List.mem_append_left _ (h.closed some)
  handled := Machine.licensed_append.mpr ⟨h.handled, .of_forall fun o member _ => others o member _⟩

/-- A closed session drops what it has read. -/
theorem Accounts.drops {j : Nat} {trace : List Output} {r r' : Relay} {lost : List (List UInt8)}
    {effects : List (Nat × Effect)} (h : Accounts j trace r lost)
    (known : Sessions.Known (own j ((trace ++ [Output.polled j data effects]).flatMap Output.effects))
      r'.server.members[j]?)
    (ended : .closed ∈ own j (trace.flatMap Output.effects)) (dropped : own j effects = []) :
    Accounts j (trace ++ [.polled j data effects]) r' (lost ++ [data]) where
  known := known
  read := by simp [h.read, Output.poll, own_cons, Output.forwarded, dropped]
  closed _ := by
    rw [List.flatMap_append, own_append]
    exact List.mem_append_left _ ended
  handled := by
    refine Machine.licensed_concat.mpr ⟨h.handled, ?_⟩
    rintro _ _ ⟨⟩
    rw [dropped, if_pos ended]

/-- An open one sends it, and has dropped nothing. -/
theorem Accounts.sends {j : Nat} {trace : List Output} {r r' : Relay} {lost : List (List UInt8)}
    {effects : List (Nat × Effect)} (h : Accounts j trace r lost)
    (known : Sessions.Known (own j ((trace ++ [Output.polled j data effects]).flatMap Output.effects))
      r'.server.members[j]?)
    (open_ : .closed ∉ own j (trace.flatMap Output.effects)) (sent : own j effects = [.sendOrQueueDatagram data]) :
    Accounts j (trace ++ [.polled j data effects]) r' [] where
  known := known
  read := by
    have none : lost = [] := by_contra fun some => open_ (h.closed some)
    simp [h.read, none, Output.poll, own_cons, Output.forwarded, sent, Effect.datagram?]
  closed some := absurd rfl some
  handled := by
    refine Machine.licensed_concat.mpr ⟨h.handled, ?_⟩
    rintro _ _ ⟨⟩
    rw [sent, if_neg open_]

theorem own_sendDatagram (i j : Nat) (server : Sessions) (data : List UInt8) :
    own j (server.step (.call i (.sendDatagram data))).2 =
      if i = j then (lift (fun s => s.sendDatagram data) server.members[j]?).2 else [] :=
  own_act i j (fun s : SessionWrapper => s.call (.sendDatagram data)) server.members

theorem step_accounts {j : Nat} {trace : List Output} {r : Relay} {lost : List (List UInt8)}
    (h : Accounts j trace r lost) (event : Event) :
    ∃ lost', Accounts j (trace ++ (step r event).2) (step r event).1 lost' := by
  have quiet (socket : List (List UInt8)) : Accounts j (trace ++ []) ⟨socket, r.server⟩ lost :=
    h.append [] (by rw [List.append_nil]; exact h.known) rfl rfl (by simp)
  cases event with
  | arrive datagram => exact ⟨lost, quiet _⟩
  | server event =>
    refine ⟨lost, h.append [.served (r.server.step event).2] ?_ rfl rfl (by simp [Handled])⟩
    rw [List.flatMap_append, own_append, List.flatMap_singleton]
    exact Sessions.step_known j h.known event
  | interval i =>
    simp only [step]
    split
    swap
    · exact ⟨lost, quiet r.socket⟩
    rename_i there
    cases holds : r.socket with
    | nil => exact ⟨lost, quiet []⟩
    | cons datagram rest =>
      simp only [poll_cons]
      cases forwardable datagram with
      | none => exact ⟨lost, quiet rest⟩
      | some data =>
        have known : Sessions.Known (own j ((trace ++ [Output.polled i data
            (r.server.step (.call i (.sendDatagram data))).2]).flatMap Output.effects))
            (r.server.step (.call i (.sendDatagram data))).1.members[j]? := by
          rw [List.flatMap_append, own_append, List.flatMap_singleton]
          exact Sessions.step_known j h.known _
        have effects := own_sendDatagram i j r.server data
        by_cases mine : i = j
        swap
        · rw [if_neg mine] at effects
          refine ⟨lost, h.append _ known ?_ ?_ ?_⟩
          · simp [Output.poll, own_cons, mine]
          · simp [Output.forwarded, effects]
          · simp [Handled, mine]
        subst mine
        have found : r.server.members[i]? = some r.server.members[i] := List.getElem?_eq_getElem there
        have sound := h.known
        rw [found] at sound
        rw [if_pos rfl, found, lift_some] at effects
        cases closed : r.server.members[i].sessionClosed with
        | true =>
          refine ⟨lost ++ [data], h.drops known (sound.tracks.closed.mpr closed) ?_⟩
          simp [effects, SessionWrapper.sendDatagram, closed]
        | false =>
          refine ⟨[], h.sends known (mt sound.tracks.closed.mp (by simp [closed])) ?_⟩
          simp [effects, SessionWrapper.sendDatagram, closed]

theorem run_accounts (j : Nat) (events : List Event) :
    ∃ lost, Accounts j (Machine.run step {} events).2 (Machine.run step {} events).1 lost := by
  have start : ∃ lost, Accounts j [] {} lost := ⟨[], rfl, rfl, by simp, .nil⟩
  exact Machine.run_trace (fun trace r => ∃ lost, Accounts j trace r lost)
    (fun trace r event ⟨_, h⟩ => step_accounts h event) start events

/-- Only a closed session reads without sending. -/
theorem Accounts.session_closed {j : Nat} {trace : List Output} {r : Relay} {lost : List (List UInt8)}
    (h : Accounts j trace r lost) (some : lost ≠ []) :
    ∃ s, r.server.members[j]? = .some s ∧ s.sessionClosed = true := by
  have ended := h.closed some
  have known := h.known
  cases there : r.server.members[j]? with
  | none =>
    rw [there] at known
    have nothing : own j (trace.flatMap Output.effects) = [] := known
    rw [nothing] at ended
    cases ended
  | some s =>
    rw [there] at known
    exact ⟨s, rfl, known.tracks.closed.mp ended⟩

/-- No session but this one polls. -/
def Event.Polls (viewer : Nat) : Event → Prop
  | .interval i => i = viewer
  | _ => True

theorem own_alone (viewer : Nat) (events : List Event) (alone : ∀ event ∈ events, event.Polls viewer) :
    own viewer ((Machine.run step {} events).2.flatMap Output.poll) =
      ((Machine.run step {} events).2.flatMap Output.poll).map Prod.snd := by
  have served : ∀ o ∈ (Machine.run step {} events).2, ∀ item ∈ o.poll, item.1 = viewer := by
    refine Machine.run_outputs_of (fun event : Event => event.Polls viewer) ?_ ({} : Relay) events alone
    intro r event polls o member item inside
    cases event with
    | arrive datagram => simp [step] at member
    | server event =>
      obtain rfl : o = .served (r.server.step event).2 := by simpa [step] using member
      simp [Output.poll] at inside
    | interval i =>
      obtain rfl : i = viewer := polls
      simp only [step] at member
      split at member
      · cases read : poll r.socket with
        | mk data rest =>
          cases data with
          | none => simp [read] at member
          | some data =>
            obtain rfl : o = .polled i data (r.server.step (.call i (.sendDatagram data))).2 := by
              simpa [read] using member
            rw [List.mem_singleton.mp inside]
      · simp at member
  rw [own, ← List.filterMap_eq_map]
  refine List.filterMap_congr fun item member => ?_
  obtain ⟨o, out, inside⟩ := List.mem_flatMap.mp member
  rw [if_pos (served o out item inside)]
  rfl

/-- The one session that polls sends the first of what arrives, and all of it while it is
open and the socket is empty. -/
theorem forwarded_alone (viewer : Nat) (events : List Event) (alone : ∀ event ∈ events, event.Polls viewer) :
    ∃ rest, (events.flatMap Event.arrived).filterMap forwardable =
        (Machine.run step {} events).2.flatMap (Output.forwarded viewer) ++ rest ∧
      ((Machine.run step {} events).1.socket = [] →
        (∀ s, (Machine.run step {} events).1.server.members[viewer]? = some s → s.sessionClosed = false) →
        rest = []) := by
  obtain ⟨lost, accounts⟩ := run_accounts viewer events
  have polled := accounts.read
  rw [own_alone viewer events alone] at polled
  refine ⟨lost ++ (Machine.run step {} events).1.socket.filterMap forwardable, ?_, ?_⟩
  · rw [polled_once events, polled, List.append_assoc]
  · intro empty stillOpen
    have none : lost = [] := by
      by_contra some
      obtain ⟨s, found, closed⟩ := accounts.session_closed some
      rw [stillOpen s found] at closed
      cases closed
    rw [none, empty]
    rfl

end Relay

/-- In every run, with any sessions coming, closing and calling each other: each datagram is
read by one session, in order, and a session sends all that it reads until it is closed and
nothing that it reads after. -/
theorem relay_forwards (events : List Relay.Event) (j : Nat) :
    let final := Machine.run Relay.step {} events
    (events.flatMap Relay.Event.arrived).filterMap forwardable =
        (final.2.flatMap Relay.Output.poll).map Prod.snd ++ final.1.socket.filterMap forwardable ∧
      (∃ lost, own j (final.2.flatMap Relay.Output.poll) = final.2.flatMap (Relay.Output.forwarded j) ++ lost ∧
        (lost ≠ [] → ∃ s, final.1.server.members[j]? = some s ∧ s.sessionClosed = true)) ∧
      ∀ past data effects future, final.2 = past ++ .polled j data effects :: future →
        own j effects = if .closed ∈ own j (past.flatMap Relay.Output.effects) then []
          else [.sendOrQueueDatagram data] := by
  obtain ⟨lost, accounts⟩ := Relay.run_accounts j events
  refine ⟨Relay.polled_once events, ⟨lost, accounts.read, accounts.session_closed⟩, ?_⟩
  intro past data effects future split
  exact accounts.handled past _ future split data effects rfl

def oneSession : List Relay.Event :=
  [.server (.register ⟨true, false, false⟩), .server (.request (some "/stream")),
    .server (.onSessionReady 0 [] true),
    .arrive [0x80, 0xE0, 0, 9, 0, 1, 0x5F, 0x90, 0, 0, 0, 7, 0x10, 0xA1], .interval 0, .interval 0,
    .arrive [0x80, 0xE0, 0, 10, 0, 1, 0x5F, 0x90, 0, 0, 0, 7, 0x10, 0xA2], .interval 0]

end WebTransport.Server

import WebTransport.Client.Callbacks
import Mathlib.Logic.Function.Basic

/-! Which callback an incoming stream of a client session reaches. The history of
registrations and ready handlers decides it: `Registrations` says how, and the client is
shown to agree with it at every accepted stream of every run. -/
namespace WebTransport.Client

inductive Source where
  | none
  | client
  | session
  deriving DecidableEq, Repr

/-- For one session, the latest registration on it, and whether that is what it holds. -/
structure Slot (App : Type) where
  latest : Option App := none
  source : Source := .none
  deriving DecidableEq, Repr

structure Registrations (App : Type) where
  client : Option (Option App) := none
  session : Nat → Slot App := fun _ => {}

variable {App : Type}

namespace Registrations

/-- A ready handler installs the callback of the client over whatever the session holds. -/
def next (r : Registrations App) : Effect App → Registrations App
  | .onBidirectionalStream callback => { r with client := some callback }
  | .sessionOnBidirectionalStream i callback =>
    { r with session := Function.update r.session i ⟨callback, .session⟩ }
  | .copied i =>
    let source := if r.client.isSome then Source.client else .none
    { r with session := Function.update r.session i ⟨(r.session i).latest, source⟩ }
  | _ => r

/-- The callback that a stream reaches. The wrapper of the client looks its callback up when
the stream arrives, not when it is installed. -/
def callee (r : Registrations App) (i : Nat) : Option App :=
  match (r.session i).source with
  | .none => none
  | .client => r.client.join
  | .session => (r.session i).latest

end Registrations

def registrations (trace : List (Effect App)) : Registrations App :=
  trace.foldl Registrations.next {}

@[simp] theorem registrations_concat (trace : List (Effect App)) (e : Effect App) :
    registrations (trace ++ [e]) = (registrations trace).next e := by
  simp [registrations]

def Refines (before : List (Effect App)) : Effect App → Prop
  | .accepted i _ callbacks => callbacks.map Prod.fst = ((registrations before).callee i).toList
  | _ => True

/-- A stream reaches the latest registration on its session, once. -/
def LastWins (before : List (Effect App)) : Effect App → Prop
  | .accepted i _ callbacks => ∀ callback, ((registrations before).session i).latest = some callback →
      callbacks.map Prod.fst = [callback]
  | _ => True

/-- The latest registration was made after the ready handler of the session, or the handler
installed a client callback that now is the same. -/
def Kept (before : List (Effect App)) : Effect App → Prop
  | .accepted i _ _ => ∀ callback, ((registrations before).session i).latest = some callback →
      ((registrations before).session i).source = .session ∨
        ((registrations before).session i).source = .client ∧
          (registrations before).client = some (some callback)
  | _ => True

theorem lastWins_iff (refines : Refines before e) : LastWins before e ↔ Kept before e := by
  cases e with
  | accepted i stream callbacks =>
    refine forall_congr' fun callback => imp_congr_right fun latest => ?_
    rw [show callbacks.map Prod.fst = _ from refines, Registrations.callee]
    cases ((registrations before).session i).source with
    | none => simp
    | client => cases (registrations before).client <;> simp [Option.toList_eq_singleton_iff]
    | session => simp [latest]
  | _ => exact Iff.rfl

/-- What an internal session holds, as the history has it. A handler of a session object is
one whose object belongs to this session and holds its latest registration. -/
inductive Holds (sessions : List (ClientSession App)) (i : Nat) : Option Handler → Slot App → Prop where
  | none (latest : Option App) : Holds sessions i none ⟨latest, .none⟩
  | client (latest : Option App) : Holds sessions i (some .client) ⟨latest, .client⟩
  | session (w : Nat) (latest : Option App) (object : sessions[w]? = some ⟨i, latest⟩) :
    Holds sessions i (some (.session w)) ⟨latest, .session⟩

theorem Holds.of_sessions {sessions sessions' : List (ClientSession App)} (h : Holds sessions i handler slot)
    (kept : ∀ (w : Nat) latest, sessions[w]? = some ⟨i, latest⟩ → sessions'[w]? = some ⟨i, latest⟩) :
    Holds sessions' i handler slot := by
  cases h with
  | none latest => exact .none latest
  | client latest => exact .client latest
  | session w latest object => exact .session w latest (kept w latest object)

structure Tracks (trace : List (Effect App)) (c : Client App) : Prop where
  client : c.bidiStreamCallback = (registrations trace).client.join
  installed : c.client.bidiStreamCallback = (registrations trace).client.map fun _ => Handler.client
  sessions : ∀ object ∈ c.sessions, object.session < c.internalSessions.length
  slots : ∀ i s, c.internalSessions[i]? = some s →
    Holds c.sessions i s.bidiStreamCallback ((registrations trace).session i)
  fresh : ∀ i, c.internalSessions.length ≤ i → (registrations trace).session i = {}
  lawful : Machine.Licensed Refines trace

namespace Tracks

variable {trace : List (Effect App)} {c : Client App}

theorem start : Tracks [] ({} : Client App) :=
  ⟨rfl, rfl, by simp, by simp, fun _ _ => rfl, Machine.Licensed.nil⟩

theorem emit (h : Tracks trace c) (e : Effect App) (same : ∀ r : Registrations App, r.next e = r)
    (refines : Refines trace e) : Tracks (trace ++ [e]) c where
  client := by rw [registrations_concat, same, h.client]
  installed := by rw [registrations_concat, same, h.installed]
  sessions := h.sessions
  slots := by simpa only [registrations_concat, same] using h.slots
  fresh := by simpa only [registrations_concat, same] using h.fresh
  lawful := Machine.licensed_concat.mpr ⟨h.lawful, refines⟩

theorem onBidirectionalStream (h : Tracks trace c) (callback : Option App) :
    Tracks (trace ++ [.onBidirectionalStream callback]) (c.onBidirectionalStream callback) where
  client := by simp [Client.onBidirectionalStream, Registrations.next]
  installed := by simp [Client.onBidirectionalStream, Registrations.next]
  sessions := h.sessions
  slots := by
    rw [registrations_concat]
    exact h.slots
  fresh := by
    rw [registrations_concat]
    exact h.fresh
  lawful := Machine.licensed_concat.mpr ⟨h.lawful, trivial⟩

/-- A write of a session's callback that the history records for the same session. Objects
of other sessions are kept. -/
theorem write (h : Tracks trace c) (i : Nat) (known : i < c.internalSessions.length) (e : Effect App)
    (sessions : List (ClientSession App)) (handler : Option Handler) (slot : Slot App)
    (next : (registrations trace).next e =
      { registrations trace with session := Function.update (registrations trace).session i slot })
    (objects : ∀ object ∈ sessions, object.session < c.internalSessions.length)
    (kept : ∀ j, j ≠ i → ∀ (w : Nat) latest, c.sessions[w]? = some ⟨j, latest⟩ →
      sessions[w]? = some ⟨j, latest⟩)
    (holds : Holds sessions i handler slot) (refines : Refines trace e) :
    Tracks (trace ++ [e]) ({ c with sessions := sessions }.internalOnBidirectionalStream i handler) where
  client := by rw [registrations_concat, next]; exact h.client
  installed := by rw [registrations_concat, next]; exact h.installed
  sessions := by simpa [internalOnBidirectionalStream] using objects
  slots j s found := by
    rw [registrations_concat, next]
    simp only [internalOnBidirectionalStream, List.getElem?_modify] at found ⊢
    by_cases same : i = j
    · subst same
      simp only [↓reduceIte, Option.map_eq_map, Option.map_eq_some_iff] at found
      obtain ⟨old, _, rfl⟩ := found
      simpa using holds
    · simp only [same, ↓reduceIte, Option.map_eq_map, Option.map_id'] at found
      simp only [Function.update_of_ne (Ne.symm same)]
      exact (h.slots j s found).of_sessions (kept j (Ne.symm same))
  fresh j beyond := by
    simp only [internalOnBidirectionalStream, List.length_modify] at beyond
    rw [registrations_concat, next]
    simp only [Function.update_of_ne (show j ≠ i by omega)]
    exact h.fresh j beyond
  lawful := Machine.licensed_concat.mpr ⟨h.lawful, refines⟩

theorem sessionOnBidirectionalStream (h : Tracks trace c) (session : Nat) (callback : Option App) :
    Tracks (trace ++ (c.sessionOnBidirectionalStream session callback).2)
      (c.sessionOnBidirectionalStream session callback).1 := by
  unfold Client.sessionOnBidirectionalStream
  cases found : c.sessions[session]? with
  | none => simpa using h
  | some object =>
    have inside : session < c.sessions.length := (List.getElem?_eq_some_iff.mp found).1
    have known := h.sessions object (List.mem_of_getElem? found)
    refine h.write object.session known (.sessionOnBidirectionalStream object.session callback) _ _
      ⟨callback, .session⟩ rfl ?_ ?_ ?_ trivial
    · intro other member
      rcases List.mem_or_eq_of_mem_set member with old | rfl
      · exact h.sessions other old
      · exact known
    · intro j different w latest at_w
      have other : session ≠ w := by
        rintro rfl
        rw [found, Option.some.injEq] at at_w
        exact different (congrArg ClientSession.session at_w).symm
      rw [List.getElem?_set_ne other, at_w]
    · refine .session session callback ?_
      rw [List.getElem?_set_self inside]

theorem call (h : Tracks trace c) (action : Call App) :
    Tracks (trace ++ (c.call action).2) (c.call action).1 := by
  cases action with
  | onSessionOpen set =>
    rw [Client.call, List.append_nil]
    exact ⟨h.client, h.installed, h.sessions, h.slots, h.fresh, h.lawful⟩
  | onSessionError callback =>
    rw [Client.call, List.append_nil]
    exact ⟨h.client, h.installed, h.sessions, h.slots, h.fresh, h.lawful⟩
  | onBidirectionalStream callback => exact h.onBidirectionalStream callback
  | sessionOnBidirectionalStream session callback => exact h.sessionOnBidirectionalStream session callback

theorem runScript (h : Tracks trace c) (script : List (Call App)) :
    Tracks (trace ++ (c.runScript script).2) (c.runScript script).1 :=
  Machine.run_trace Tracks (fun _ _ action tracks => tracks.call action) h script

theorem newInternalSession (h : Tracks trace c) : Tracks trace c.newInternalSession where
  client := h.client
  installed := h.installed
  sessions object member := by
    simpa [Client.newInternalSession] using Nat.lt_succ_of_lt (h.sessions object member)
  slots i s found := by
    simp only [Client.newInternalSession, List.getElem?_append, List.getElem?_singleton] at found
    split at found
    · exact h.slots i s found
    next beyond =>
      rw [h.fresh i (by omega)]
      split at found <;> cases found
      exact .none none
  fresh i beyond := h.fresh i (by simp [Client.newInternalSession] at beyond; omega)
  lawful := h.lawful

theorem newSession (h : Tracks trace c) (i : Nat) (known : i < c.internalSessions.length) :
    Tracks trace (c.newSession i).1 where
  client := h.client
  installed := h.installed
  sessions object member := by
    rcases List.mem_append.mp member with old | new
    · exact h.sessions object old
    · rw [List.mem_singleton.mp new]
      exact known
  slots j s found := (h.slots j s found).of_sessions fun w latest at_w => by
    rw [Client.newSession, List.getElem?_append_left (List.getElem?_eq_some_iff.mp at_w).1, at_w]
  fresh := h.fresh
  lawful := h.lawful

theorem openSession (h : Tracks trace c) (i : Nat) (known : i < c.internalSessions.length)
    (script : List (Call App)) :
    Tracks (trace ++ (c.openSession i script).2) (c.openSession i script).1 := by
  unfold Client.openSession
  split
  · have called := (h.newSession i known).emit (.sessionCallback (c.newSession i).2) (fun _ => rfl) trivial
    simpa using called.runScript script
  · simpa using h

end Tracks

@[simp] theorem call_internalSessions (c : Client App) (action : Call App) :
    (c.call action).1.internalSessions.length = c.internalSessions.length := by
  cases action with
  | sessionOnBidirectionalStream session callback =>
    simp only [call, sessionOnBidirectionalStream]
    split <;> simp [internalOnBidirectionalStream]
  | _ => rfl

@[simp] theorem runScript_internalSessions (c : Client App) (script : List (Call App)) :
    (c.runScript script).1.internalSessions.length = c.internalSessions.length :=
  Machine.run_invariant (fun d : Client App => d.internalSessions.length = c.internalSessions.length)
    (fun d action same => (call_internalSessions d action).trans same) rfl script

@[simp] theorem openSession_internalSessions (c : Client App) (i : Nat) (script : List (Call App)) :
    (c.openSession i script).1.internalSessions.length = c.internalSessions.length := by
  unfold openSession
  split
  · simp [newSession]
  · rfl

@[simp] theorem invoke_internalSessions (c : Client App) (i : Nat) (handler : Option Handler) :
    (c.invoke i handler).1.internalSessions = c.internalSessions := by
  unfold invoke
  split <;> [skip; split; split] <;> rfl

namespace Tracks

variable {trace : List (Effect App)} {c : Client App}

theorem copy (h : Tracks trace c) (i : Nat) (known : i < c.internalSessions.length) :
    Tracks (trace ++ [.copied i]) (c.internalOnBidirectionalStream i c.client.bidiStreamCallback) := by
  refine h.write i known (.copied i) c.sessions _ _ rfl h.sessions (fun _ _ _ _ at_w => at_w) ?_ trivial
  rw [h.installed]
  cases (registrations trace).client with
  | none => exact .none _
  | some callback => exact .client _

theorem onSessionReady (h : Tracks trace c) (script : List (Call App)) :
    Tracks (trace ++ (c.onSessionReady script).2) (c.onSessionReady script).1 := by
  have known : c.internalSessions.length < c.newInternalSession.internalSessions.length := by
    simp [Client.newInternalSession]
  have opened := h.newInternalSession.openSession c.internalSessions.length known script
  have copied := opened.copy c.internalSessions.length (by simpa using known)
  simpa [Client.onSessionReady] using copied

/-- An invocation of the callback of a session reaches the callee of the history. -/
theorem invoke_callbacks (h : Tracks trace c) (found : c.internalSessions[i]? = some s) :
    (c.invoke i s.bidiStreamCallback).2.map Prod.fst = ((registrations trace).callee i).toList := by
  have holds := h.slots i s found
  revert holds
  generalize s.bidiStreamCallback = handler
  generalize slotted : (registrations trace).session i = slot
  intro holds
  cases holds with
  | none latest => simp [Client.invoke, Registrations.callee, slotted]
  | client latest =>
    rw [Client.invoke, h.client, Registrations.callee, slotted]
    cases (registrations trace).client.join <;> rfl
  | session w latest object =>
    simp only [Client.invoke, object, Registrations.callee, slotted]
    cases latest <;> rfl

theorem invoke (h : Tracks trace c) (i : Nat) (known : i < c.internalSessions.length)
    (handler : Option Handler) : Tracks trace (c.invoke i handler).1 := by
  unfold Client.invoke
  split <;> [exact h; split; split] <;> first | exact h | exact h.newSession i known

theorem acceptStream (h : Tracks trace c) (i : Nat) (incoming : Incoming App) :
    Tracks (trace ++ (c.acceptStream i incoming).2) (c.acceptStream i incoming).1 := by
  cases found : c.internalSessions[i]? with
  | none => simpa [Client.acceptStream, found] using h
  | some s =>
    have known : i < c.internalSessions.length := (List.getElem?_eq_some_iff.mp found).1
    have accepted := (h.invoke i known s.bidiStreamCallback).emit
      (.accepted i incoming.stream (c.invoke i s.bidiStreamCallback).2) (fun _ => rfl) (h.invoke_callbacks found)
    cases empty : (c.invoke i s.bidiStreamCallback).2.isEmpty with
    | true => simpa only [Client.acceptStream, found, empty, ↓reduceIte] using accepted
    | false =>
      have ran := accepted.runScript incoming.script
      rw [List.append_assoc, List.singleton_append] at ran
      simpa only [Client.acceptStream, found, empty, Bool.false_eq_true, ↓reduceIte] using ran

theorem onSessionClosed (h : Tracks trace c) (i : Nat) :
    Tracks (trace ++ (c.onSessionClosed i).2) (c.onSessionClosed i).1 := by
  unfold Client.onSessionClosed
  split
  · simpa using h
  next callback _ => exact h.emit (.sessionError i callback) (fun _ => rfl) trivial

theorem step (h : Tracks trace c) (event : Event App) :
    Tracks (trace ++ (c.step event).2) (c.step event).1 := by
  cases event with
  | call action => exact h.call action
  | onSessionReady script => exact h.onSessionReady script
  | onIncomingBidirectionalStreamAvailable i streams =>
    exact Machine.run_trace Tracks (fun _ _ incoming tracks => tracks.acceptStream i incoming) h streams
  | onSessionClosed i => exact h.onSessionClosed i

end Tracks

def Effect.arrival? : Effect App → Option (Nat × Nat)
  | .accepted i stream _ => some (i, stream)
  | _ => none

def Event.arrivals (count : Nat) : Event App → List (Nat × Nat)
  | .onIncomingBidirectionalStreamAvailable i streams =>
    if i < count then streams.map fun incoming => (i, incoming.stream) else []
  | _ => []

theorem call_arrivals (c : Client App) (action : Call App) : ∀ e ∈ (c.call action).2, e.arrival? = none := by
  cases action with
  | sessionOnBidirectionalStream session callback =>
    simp only [call, sessionOnBidirectionalStream]
    split <;> simp [Effect.arrival?]
  | _ => simp [call, Effect.arrival?]

theorem runScript_arrivals (c : Client App) (script : List (Call App)) :
    (c.runScript script).2.filterMap Effect.arrival? = [] :=
  List.filterMap_eq_nil_iff.mpr
    (Machine.run_outputs (fun e : Effect App => e.arrival? = none) call_arrivals c script)

theorem openSession_arrivals (c : Client App) (i : Nat) (script : List (Call App)) :
    (c.openSession i script).2.filterMap Effect.arrival? = [] := by
  unfold openSession
  split
  · exact (List.filterMap_cons_none rfl).trans (runScript_arrivals _ script)
  · rfl

theorem acceptStream_known (c : Client App) (incoming : Incoming App) (known : i < c.internalSessions.length) :
    (c.acceptStream i incoming).2.filterMap Effect.arrival? = [(i, incoming.stream)] ∧
      (c.acceptStream i incoming).1.internalSessions.length = c.internalSessions.length := by
  unfold acceptStream
  rw [List.getElem?_eq_getElem known]
  simp only
  split <;> simp [Effect.arrival?, runScript_arrivals]

theorem acceptLoop_arrivals (c : Client App) (streams : List (Incoming App))
    (known : i < c.internalSessions.length) :
    (Machine.run (acceptStream i) c streams).2.filterMap Effect.arrival? =
      streams.map fun incoming => (i, incoming.stream) := by
  induction streams generalizing c with
  | nil => rfl
  | cons incoming rest ih =>
    obtain ⟨arrival, same⟩ := acceptStream_known c incoming known
    rw [Machine.run_cons, List.filterMap_append, arrival, ih _ (by rw [same]; exact known)]
    rfl

theorem acceptLoop_unknown (c : Client App) (streams : List (Incoming App))
    (unknown : ¬ i < c.internalSessions.length) : (Machine.run (acceptStream i) c streams).2 = [] := by
  have none : ∀ incoming, c.acceptStream i incoming = (c, []) := fun incoming => by
    rw [acceptStream, List.getElem?_eq_none (by omega)]
  induction streams with
  | nil => rfl
  | cons incoming rest ih => rw [Machine.run_cons, none, ih, List.append_nil]

theorem step_arrivals (c : Client App) (event : Event App) :
    (c.step event).2.filterMap Effect.arrival? = event.arrivals c.internalSessions.length := by
  cases event with
  | call action => exact List.filterMap_eq_nil_iff.mpr (call_arrivals c action)
  | onSessionReady script =>
    simp [step, onSessionReady, Effect.arrival?, openSession_arrivals, Event.arrivals]
  | onIncomingBidirectionalStreamAvailable i streams =>
    rw [step, onIncomingBidirectionalStreamAvailable, Event.arrivals]
    split
    next known => exact acceptLoop_arrivals c streams known
    next unknown => rw [acceptLoop_unknown c streams unknown, List.filterMap_nil]
  | onSessionClosed i =>
    simp only [step, onSessionClosed, Event.arrivals]
    split <;> simp [Effect.arrival?]

/-- In every run each arriving stream is accepted once. All of them reach the latest
registration on their session, and nothing else, exactly when no such registration was
overwritten by the ready handler with a different callback. -/
theorem last_registration_wins_iff (events : List (Event App)) :
    let final := Machine.run step ({} : Client App) events
    (∀ event, (final.1.step event).2.filterMap Effect.arrival? =
        event.arrivals final.1.internalSessions.length) ∧
      (Machine.Licensed LastWins final.2 ↔ Machine.Licensed Kept final.2) := by
  have tracks : Tracks (Machine.run step ({} : Client App) events).2 (Machine.run step {} events).1 :=
    Machine.run_trace Tracks (fun _ _ event tracks => tracks.step event) .start events
  refine ⟨step_arrivals _, ?_⟩
  exact Machine.licensed_congr (tracks.lawful.imp fun _ _ refines => lastWins_iff refines)

/-- The application registers 1 on the session when it opens; no client callback is set. -/
def registeredInside : List (Event Nat) :=
  [.call (.onSessionOpen true), .onSessionReady [.sessionOnBidirectionalStream 0 (some 1)],
    .onIncomingBidirectionalStreamAvailable 0 [⟨0, []⟩]]

/-- The stream reaches nobody. -/
theorem registration_inside_lost :
    ¬ Machine.Licensed LastWins (Machine.run step ({} : Client Nat) registeredInside).2 := by
  intro wins
  have last := wins [.sessionCallback 0, .sessionOnBidirectionalStream 0 (some 1), .copied 0]
    (.accepted 0 0 []) [] rfl
  exact absurd (last 1 rfl) (by decide)

end WebTransport.Client

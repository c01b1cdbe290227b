import WebTransport.Stream.OnCanRead
import WebTransport.Theory.Moments

/-! What a client stream delivers. Arrivals, notifications and registrations come in any
order. The bytes are conserved exactly while every notification that has something to read
finds a callback; the end of the stream is told exactly when the FIN is read alone. -/
namespace WebTransport.Stream

/-- An arrival may bring data, the FIN, or both. -/
inductive Event (App : Type) where
  | arrive (regions : List Region) (fin : Bool)
  | onCanRead
  | onStreamRead (callback : Option App)
  deriving DecidableEq, Repr

variable {App : Type}

def clientStep (e : Endpoint App) : Event App → Except Loop.Fault (Endpoint App × Option (Call App))
  | .arrive regions fin => .ok ({ e with stream := e.stream.arrive regions fin }, none)
  | .onCanRead => e.clientOnCanRead
  | .onStreamRead callback => .ok (e.onStreamRead callback, none)

def vectors (outputs : List (Option (Call App))) : List (List UInt8) :=
  outputs.filterMap fun output => output.map Prod.snd

def delivered (outputs : List (Option (Call App))) : List UInt8 := (vectors outputs).flatten

def Event.bytes : Event App → List UInt8
  | .arrive regions _ => bytesOf regions
  | _ => []

def arrived (events : List (Event App)) : List UInt8 := events.flatMap Event.bytes

def unread (past : List (Event App)) : List UInt8 :=
  past.foldl (fun bytes event =>
    match event with
    | .arrive regions _ => bytes ++ bytesOf regions
    | .onCanRead => []
    | .onStreamRead _ => bytes) []

def registered (initial : Option App) (past : List (Event App)) : Option App :=
  past.foldl (fun latest event =>
    match event with
    | .onStreamRead callback => callback
    | _ => latest) initial

/-- A notification that has bytes to read comes while a callback is registered. -/
def Listening (past : List (Event App)) : Event App → Prop
  | .onCanRead => unread past ≠ [] → (registered none past).isSome
  | _ => True

def clientNext (e : Endpoint App) : Event App → Endpoint App × Option (Call App)
  | .arrive regions fin => ({ e with stream := e.stream.arrive regions fin }, none)
  | .onCanRead => (e.drained, e.reading)
  | .onStreamRead callback => (e.onStreamRead callback, none)

theorem clientStep_eq (e : Endpoint App) (event : Event App) : clientStep e event = .ok (clientNext e event) := by
  cases event with
  | onCanRead => exact e.clientOnCanRead_eq
  | _ => rfl

abbrev advance : Endpoint App → Event App → Endpoint App × List (Option (Call App)) :=
  Machine.single clientNext

theorem runM_clientStep (e : Endpoint App) (events : List (Event App)) :
    Machine.runM clientStep e events = .ok (Machine.run advance e events) :=
  Machine.runM_eq clientStep_eq e events

theorem run_advance_unread (callback : Option App) (past : List (Event App)) :
    (Machine.run advance ⟨{}, callback⟩ past).1.stream.bytes = unread past ∧
      (Machine.run advance ⟨{}, callback⟩ past).1.readCallback = registered callback past := by
  induction past using List.reverseRecOn with
  | nil => exact ⟨rfl, rfl⟩
  | append_singleton past event ih =>
    obtain ⟨bytes, set⟩ := ih
    rw [Machine.run_concat, unread, registered, List.foldl_append, List.foldl_append]
    cases event with
    | arrive regions fin => exact ⟨(WebTransportStream.arrive_bytes _ _ _).trans (by rw [bytes]; rfl), set⟩
    | onCanRead => exact ⟨rfl, set⟩
    | onStreamRead latest => exact ⟨bytes, rfl⟩

def leaves (output : Option (Call App)) : List UInt8 := (output.map Prod.snd).getD []

theorem delivered_eq (outputs : List (Option (Call App))) : delivered outputs = outputs.flatMap leaves := by
  induction outputs with
  | nil => rfl
  | cons output rest ih =>
    cases output with
    | none => exact ih
    | some call => exact congrArg (call.2 ++ ·) ih

abbrev Endpoint.readable (e : Endpoint App) : List UInt8 := e.stream.bytes

theorem Endpoint.leaves_reading (e : Endpoint App) :
    leaves e.reading = if e.readCallback.isSome then e.stream.bytes else [] := by
  obtain ⟨stream, callback⟩ := e
  unfold reading
  split
  next empty => cases callback <;> cases stream.fin <;> simp_all [leaves, invoke]
  next some => cases callback <;> rfl

/-- Only a notification can lose bytes, and it does so exactly when it finds no callback. -/
theorem conserves_iff (e : Endpoint App) (event : Event App) :
    Machine.Conserves Endpoint.readable Event.bytes leaves advance e event ↔
      (event = .onCanRead → e.stream.bytes ≠ [] → e.readCallback.isSome) := by
  cases event with
  | arrive regions fin => simp [Machine.Conserves, Endpoint.readable, clientNext, Event.bytes, leaves]
  | onStreamRead callback =>
    simp [Machine.Conserves, Endpoint.readable, clientNext, Event.bytes, leaves, Endpoint.onStreamRead]
  | onCanRead =>
    have empty : e.drained.readable = [] := rfl
    simp only [Machine.Conserves, Machine.single_apply, clientNext, Event.bytes, List.flatMap_singleton,
      e.leaves_reading, empty, List.append_nil, forall_const]
    cases e.readCallback <;> simp

/-- At every moment of every run the delivered bytes followed by the readable ones are those
that arrived, exactly when each notification with something to read finds a callback. -/
theorem no_byte_discarded_iff (events : List (Event App)) :
    (∀ past later, events = past ++ later → ∃ final outputs,
        Machine.runM clientStep ({} : Endpoint App) past = .ok (final, outputs) ∧
          delivered outputs ++ final.stream.bytes = arrived past) ↔
      Machine.Licensed Listening events := by
  have moments : Machine.Always advance ({} : Endpoint App) events (fun past trace now =>
      trace.flatMap leaves ++ now.readable = [] ++ past.flatMap Event.bytes) ↔ _ :=
    Machine.conservation_iff Endpoint.readable Event.bytes leaves {} events
  have steps : Machine.Licensed (fun past event => Machine.Conserves Endpoint.readable Event.bytes
      leaves advance (Machine.run advance ({} : Endpoint App) past).1 event) events ↔
      Machine.Licensed Listening events := by
    apply Machine.licensed_congr
    intro past event later split
    obtain ⟨bytes, set⟩ := run_advance_unread none past
    rw [conserves_iff, bytes, set]
    cases event <;> simp [Listening]
  rw [← steps, ← moments, ← Machine.always_runM_iff clientStep_eq]
  simp only [delivered_eq, List.nil_append, arrived]

/-- Data that arrives before the application has registered its callback. -/
theorem early_data_discarded :
    ¬ ∀ past later, [Event.arrive [⟨[1, 2], by decide⟩] false, .onCanRead, .onStreamRead (some 0)] = past ++ later →
      ∃ final outputs, Machine.runM clientStep ({} : Endpoint Nat) past = .ok (final, outputs) ∧
        delivered outputs ++ final.stream.bytes = arrived past := by
  intro conserved
  obtain ⟨final, outputs, run, law⟩ := conserved _ [] (List.append_nil _).symm
  rw [runM_clientStep] at run
  obtain ⟨rfl, rfl⟩ := Prod.mk.inj (Except.ok.inj run)
  exact absurd law (by decide)

end WebTransport.Stream

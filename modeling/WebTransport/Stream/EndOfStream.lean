import WebTransport.Stream.Delivery

/-! The end of a stream, and whether the application sees how the network packed it. Two
schedules of the same bytes are compared by the vectors their callbacks get. An empty
vector stands for the end. -/
namespace WebTransport.Stream

variable {App : Type}

def Event.Open : Event App → Prop
  | .arrive _ fin => fin = false
  | .onCanRead => True
  | .onStreamRead callback => callback.isSome

def Event.Closing : Event App → Prop
  | .arrive _ _ => False
  | .onCanRead => True
  | .onStreamRead callback => callback.isSome

/-- A complete schedule of the bytes `sent`: the FIN comes once, with the last data or
behind it, a notification follows, and a callback stays registered. -/
structure Schedule (sent : List UInt8) (events : List (Event App)) : Prop where
  bytes : arrived events = sent
  fin : ∃ before regions after, events = before ++ .arrive regions true :: after ∧
    (∀ event ∈ before, event.Open) ∧ (∀ event ∈ after, event.Closing) ∧ .onCanRead ∈ after

/-- The FIN arrives with no data, and when all data before it has been read. -/
def FinAlone (past : List (Event App)) : Event App → Prop
  | .arrive regions fin => fin = true → unread past = [] ∧ regions = []
  | _ => True

def EndsOnce (seen : List (List UInt8)) : Prop :=
  ∃ chunks, seen = chunks ++ [[]] ∧ [] ∉ chunks

def SameView (first second : List (List UInt8)) : Prop :=
  first.flatten = second.flatten ∧ first.count [] = second.count [] ∧ EndsOnce first ∧ EndsOnce second

def listening (callback : App) : Endpoint App := ⟨{}, some callback⟩

theorem vectors_concat (outputs : List (Option (Call App))) (output : Option (Call App)) :
    vectors (outputs ++ [output]) = vectors outputs ++ (output.map Prod.snd).toList := by
  cases output <;> simp [vectors, List.filterMap_append]

theorem Endpoint.reading_vector {e : Endpoint App} (callback : e.readCallback.isSome) :
    e.reading.map Prod.snd =
      if e.stream.bytes = [] ∧ e.stream.fin = false then none else some e.stream.bytes := by
  obtain ⟨app, set⟩ := Option.isSome_iff_exists.mp callback
  unfold reading invoke
  rw [set]
  split
  next empty => cases fin : e.stream.fin <;> simp [empty]
  next some => simp [some]

structure Flowing (past : List (Event App)) (outputs : List (Option (Call App))) (e : Endpoint App) : Prop where
  open_ : e.stream.fin = false
  callback : e.readCallback.isSome
  chunks : [] ∉ vectors outputs
  conserved : (vectors outputs).flatten ++ e.stream.bytes = arrived past

theorem Flowing.step (flowing : Flowing past outputs e) (event : Event App) (isOpen : event.Open) :
    Flowing (past ++ [event]) (outputs ++ (advance e event).2) (advance e event).1 := by
  obtain ⟨noFin, callback, chunks, conserved⟩ := flowing
  have arrives : arrived (past ++ [event]) = arrived past ++ event.bytes := by simp [arrived]
  cases event with
  | arrive regions fin =>
    have noFin' : fin = false := isOpen
    refine ⟨by simp [clientNext, WebTransportStream.arrive, noFin, noFin'], callback, ?_, ?_⟩
    · simpa [clientNext, vectors_concat] using chunks
    · rw [arrives, ← conserved]
      simp [clientNext, vectors_concat, Event.bytes]
  | onCanRead =>
    have vector := Endpoint.reading_vector callback
    by_cases empty : e.stream.bytes = []
    · rw [if_pos ⟨empty, noFin⟩] at vector
      refine ⟨rfl, callback, ?_, ?_⟩
      · simpa [clientNext, vectors_concat, vector] using chunks
      · rw [arrives, ← conserved]
        simp [clientNext, vectors_concat, vector, empty, Event.bytes]
    · rw [if_neg (fun both => empty both.1)] at vector
      refine ⟨rfl, callback, ?_, ?_⟩
      · simpa [clientNext, vectors_concat, vector] using ⟨chunks, empty⟩
      · rw [arrives, ← conserved]
        simp [clientNext, vectors_concat, vector, Event.bytes]
  | onStreamRead latest =>
    refine ⟨noFin, isOpen, ?_, ?_⟩
    · simpa [clientNext, vectors_concat] using chunks
    · rw [arrives, ← conserved]
      simp [clientNext, vectors_concat, Event.bytes, Endpoint.onStreamRead]

theorem flowing_start (callback : App) : Flowing [] [] (listening callback) :=
  ⟨rfl, rfl, by simp [vectors], rfl⟩

theorem vectors_append (first second : List (Option (Call App))) :
    vectors (first ++ second) = vectors first ++ vectors second := List.filterMap_append

theorem vectors_finished (e : Endpoint App) (finished : e.stream = ⟨[], false⟩) (events : List (Event App))
    (closing : ∀ event ∈ events, event.Closing) : vectors (Machine.run advance e events).2 = [] := by
  induction events generalizing e with
  | nil => rfl
  | cons event rest ih =>
    obtain ⟨now, later⟩ := List.forall_mem_cons.mp closing
    have silent : vectors (advance e event).2 = [] := by
      cases event with
      | arrive regions fin => exact now.elim
      | onCanRead => simp [clientNext, vectors, Endpoint.reading, finished, WebTransportStream.bytes]
      | onStreamRead callback => rfl
    have same : (advance e event).1.stream = ⟨[], false⟩ := by
      cases event with
      | arrive regions fin => exact now.elim
      | onCanRead => rfl
      | onStreamRead callback => exact finished
    rw [Machine.run_cons, vectors_append, silent, ih _ same later, List.nil_append]

/-- The first notification behind the FIN passes on everything unread in one vector, which
is empty only if nothing was. -/
theorem vectors_closing (e : Endpoint App) (callback : e.readCallback.isSome) (fin : e.stream.fin = true)
    (events : List (Event App)) (closing : ∀ event ∈ events, event.Closing) (notified : .onCanRead ∈ events) :
    vectors (Machine.run advance e events).2 = [e.stream.bytes] := by
  induction events generalizing e with
  | nil => cases notified
  | cons event rest ih =>
    obtain ⟨now, later⟩ := List.forall_mem_cons.mp closing
    rw [Machine.run_cons, vectors_append]
    cases event with
    | arrive regions fin => exact now.elim
    | onCanRead =>
      have vector := Endpoint.reading_vector callback
      rw [if_neg (by simp [fin])] at vector
      rw [vectors_finished _ rfl rest later]
      simp [clientNext, vectors, vector]
    | onStreamRead latest =>
      have next : .onCanRead ∈ rest := by simpa using notified
      exact (ih (e.onStreamRead latest) now fin later next)

theorem endsOnce_iff (chunks : List (List UInt8)) (last : List UInt8) (data : [] ∉ chunks) :
    EndsOnce (chunks ++ [last]) ↔ last = [] := by
  constructor
  · rintro ⟨front, same, -⟩
    obtain ⟨-, ends⟩ := List.append_inj' same rfl
    exact List.head_eq_of_cons_eq ends
  · rintro rfl
    exact ⟨chunks, rfl, data⟩

theorem arrived_closing (events : List (Event App)) (closing : ∀ event ∈ events, event.Closing) :
    arrived events = [] := by
  apply List.flatMap_eq_nil_iff.mpr
  intro event member
  cases event with
  | arrive regions fin => exact (closing _ member).elim
  | _ => rfl

/-- Only the arrival of the FIN counts. -/
theorem finAlone_iff (before : List (Event App)) (regions : List Region) (after : List (Event App))
    (isOpen : ∀ event ∈ before, event.Open) (closing : ∀ event ∈ after, event.Closing) :
    Machine.Licensed FinAlone (before ++ .arrive regions true :: after) ↔
      unread before ++ bytesOf regions = [] := by
  have front : Machine.Licensed FinAlone before := by
    apply Machine.Licensed.of_forall
    intro event member past
    cases event with
    | arrive regions fin => exact fun here => absurd (isOpen _ member) (by simp [Event.Open, here])
    | _ => trivial
  have back : Machine.Licensed (fun past event => FinAlone (before ++ .arrive regions true :: past) event) after := by
    apply Machine.Licensed.of_forall
    intro event member past
    cases event with
    | arrive regions fin => exact (closing _ member).elim
    | _ => trivial
  rw [Machine.licensed_append, Machine.licensed_cons, and_iff_right front, and_iff_left back]
  simp [FinAlone]

/-- What the application gets from one schedule: all the bytes, and the end exactly when the
FIN was alone. -/
theorem Schedule.seen {sent : List UInt8} {events : List (Event App)} (schedule : Schedule sent events)
    (callback : App) : ∃ final outputs, Machine.runM clientStep (listening callback) events = .ok (final, outputs) ∧
      (vectors outputs).flatten = sent ∧ (EndsOnce (vectors outputs) ↔ Machine.Licensed FinAlone events) := by
  obtain ⟨bytes, before, regions, after, rfl, isOpen, closing, notified⟩ := schedule
  obtain ⟨-, set, chunks, conserved⟩ :=
    Machine.run_history_of Flowing (fun _ _ event => event.Open) (fun _ _ _ event flow => flow.step event)
      (flowing_start callback) before (by rintro past event later rfl; exact isOpen event (by simp))
  have left := (run_advance_unread (some callback) before).1
  have last := vectors_closing
    (advance (Machine.run advance (listening callback) before).1 (.arrive regions true)).1 set
    (Bool.or_true _) after closing notified
  have vector : (advance (Machine.run advance (listening callback) before).1 (.arrive regions true)).1.stream.bytes =
      unread before ++ bytesOf regions := by
    rw [← left]
    exact WebTransportStream.arrive_bytes _ _ _
  rw [vector] at last
  have all : vectors (Machine.run advance (listening callback) (before ++ .arrive regions true :: after)).2 =
      vectors (Machine.run advance (listening callback) before).2 ++ [unread before ++ bytesOf regions] := by
    rw [Machine.run_append, Machine.run_cons, vectors_append, vectors_append, last]
    rfl
  refine ⟨_, _, runM_clientStep _ _, ?_, ?_⟩
  · rw [all, ← bytes, arrived, List.flatMap_append, List.flatMap_cons]
    change _ = arrived before ++ (bytesOf regions ++ arrived after)
    rw [← conserved, arrived_closing after closing, ← left]
    simp [listening]
  · rw [all, endsOnce_iff _ _ chunks, finAlone_iff before regions after isOpen closing]

/-- Two schedules of the same bytes look the same to the application, with one notification
of the end behind all the data, exactly when in both the FIN is read alone. The bytes are
the same in any case. -/
theorem packing_invisible_iff (callback : App) {sent : List UInt8} {first second : List (Event App)}
    (one : Schedule sent first) (other : Schedule sent second) : ∃ final₁ outputs₁ final₂ outputs₂,
      Machine.runM clientStep (listening callback) first = .ok (final₁, outputs₁) ∧
      Machine.runM clientStep (listening callback) second = .ok (final₂, outputs₂) ∧
      (vectors outputs₁).flatten = sent ∧ (vectors outputs₂).flatten = sent ∧
      (SameView (vectors outputs₁) (vectors outputs₂) ↔
        Machine.Licensed FinAlone first ∧ Machine.Licensed FinAlone second) := by
  obtain ⟨final₁, outputs₁, run₁, bytes₁, ends₁⟩ := one.seen callback
  obtain ⟨final₂, outputs₂, run₂, bytes₂, ends₂⟩ := other.seen callback
  refine ⟨final₁, outputs₁, final₂, outputs₂, run₁, run₂, bytes₁, bytes₂, ?_⟩
  rw [← ends₁, ← ends₂]
  constructor
  · rintro ⟨-, -, end₁, end₂⟩
    exact ⟨end₁, end₂⟩
  · rintro ⟨end₁, end₂⟩
    have count : ∀ {seen : List (List UInt8)}, EndsOnce seen → seen.count [] = 1 := by
      rintro _ ⟨chunks, rfl, data⟩
      simp [List.count_append, List.count_eq_zero.mpr data]
    exact ⟨bytes₁.trans bytes₂.symm, (count end₁).trans (count end₂).symm, end₁, end₂⟩

def finApart : List (Event Nat) :=
  [.arrive [⟨[7], by decide⟩] false, .onCanRead, .arrive [] true, .onCanRead]

def finWithData : List (Event Nat) :=
  [.arrive [⟨[7], by decide⟩] true, .onCanRead]

theorem finApart_schedule : Schedule [7] finApart :=
  ⟨rfl, [.arrive [⟨[7], by decide⟩] false, .onCanRead], [], [.onCanRead], rfl, by simp [Event.Open],
    by simp [Event.Closing], by simp⟩

theorem finWithData_schedule : Schedule [7] finWithData :=
  ⟨rfl, [], [⟨[7], by decide⟩], [.onCanRead], rfl, by simp, by simp [Event.Closing], by simp⟩

theorem packing_invisible_iff_finWithData : ∃ final₁ outputs₁ final₂ outputs₂,
    Machine.runM clientStep (listening 0) finApart = .ok (final₁, outputs₁) ∧
    Machine.runM clientStep (listening 0) finWithData = .ok (final₂, outputs₂) ∧
    (vectors outputs₁).flatten = [7] ∧ (vectors outputs₂).flatten = [7] ∧
    (SameView (vectors outputs₁) (vectors outputs₂) ↔
      Machine.Licensed FinAlone finApart ∧ Machine.Licensed FinAlone finWithData) :=
  packing_invisible_iff 0 finApart_schedule finWithData_schedule

/-- The application is told the end in the first schedule only. -/
theorem fin_with_data_untold : Schedule [7] finApart ∧ Schedule [7] finWithData ∧
    ∃ final₁ outputs₁ final₂ outputs₂,
      Machine.runM clientStep (listening 0) finApart = .ok (final₁, outputs₁) ∧
      Machine.runM clientStep (listening 0) finWithData = .ok (final₂, outputs₂) ∧
      vectors outputs₁ = [[7], []] ∧ vectors outputs₂ = [[7]] ∧
      ¬ SameView (vectors outputs₁) (vectors outputs₂) := by
  refine ⟨finApart_schedule, finWithData_schedule, _, _, _, _, runM_clientStep _ _, runM_clientStep _ _, rfl, rfl, ?_⟩
  intro same
  exact absurd same.2.1 (by decide)

end WebTransport.Stream

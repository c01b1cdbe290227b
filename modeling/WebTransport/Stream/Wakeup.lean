import WebTransport.Stream.OnCanRead
import WebTransport.Theory.Moments

/-! Whether an accepted stream can be left with data that nobody reads. The transport
notifies a reader of new data, and only the visitor that is attached when it arrives; a
stream is read in a notification and nowhere else. So what a registration finds decides. -/
namespace WebTransport.Stream

/-- `Server::SessionWrapper` and `ClientSession` accept streams into different readers. -/
inductive Side where
  | server
  | client
  deriving DecidableEq, Repr

/-- An incoming stream. `visitor` is set by `SetVisitor`; `notified` while an `OnCanRead` is due. -/
structure Incoming (App : Type) where
  endpoint : Endpoint App := {}
  visitor : Bool := false
  notified : Bool := false
  deriving DecidableEq, Repr

namespace Incoming

inductive Event (App : Type) where
  | arrive (regions : List Region) (fin : Bool)
  | accept
  | onStreamRead (callback : Option App)
  | onCanRead
  deriving DecidableEq, Repr

variable {App : Type}

def onCanRead (side : Side) (e : Endpoint App) : Except Loop.Fault (Endpoint App × Option (Call App)) :=
  match side with
  | .server => .ok e.serverOnCanRead
  | .client => e.clientOnCanRead

/-- Nothing can be registered on a stream that the application has not been given, and a
notification that is not due does not come. -/
def step (side : Side) (s : Incoming App) : Event App → Except Loop.Fault (Incoming App × Option (Call App))
  | .arrive regions fin =>
    let new := !regions.isEmpty || fin
    .ok ({ s with
      endpoint := { s.endpoint with stream := s.endpoint.stream.arrive regions fin }
      notified := s.notified || (s.visitor && new) }, none)
  | .accept => .ok ({ s with visitor := true }, none)
  | .onStreamRead callback =>
    if s.visitor then .ok ({ s with endpoint := s.endpoint.onStreamRead callback }, none) else .ok (s, none)
  | .onCanRead =>
    if s.notified then do
      let (endpoint, call) ← onCanRead side s.endpoint
      .ok ({ s with endpoint, notified := false }, call)
    else .ok (s, none)

/-- In a quiescent state with a callback everything that arrived has been read. -/
def NoStall (s : Incoming App) : Prop :=
  s.notified = false → s.endpoint.readCallback.isSome → s.endpoint.stream.bytes = []

def Timely (s : Incoming App) : Event App → Prop
  | .onStreamRead callback => callback.isSome → s.visitor → s.notified ∨ s.endpoint.stream.bytes = []
  | _ => True

def afterOnCanRead (side : Side) (e : Endpoint App) : Endpoint App × Option (Call App) :=
  match side with
  | .server => e.serverOnCanRead
  | .client => (e.drained, e.reading)

def next (side : Side) (s : Incoming App) : Event App → Incoming App × Option (Call App)
  | .arrive regions fin =>
    ({ s with
      endpoint := { s.endpoint with stream := s.endpoint.stream.arrive regions fin }
      notified := s.notified || (s.visitor && (!regions.isEmpty || fin)) }, none)
  | .accept => ({ s with visitor := true }, none)
  | .onStreamRead callback =>
    if s.visitor then ({ s with endpoint := s.endpoint.onStreamRead callback }, none) else (s, none)
  | .onCanRead =>
    if s.notified then
      ({ s with endpoint := (afterOnCanRead side s.endpoint).1, notified := false },
        (afterOnCanRead side s.endpoint).2)
    else (s, none)

theorem step_eq (side : Side) (s : Incoming App) (event : Event App) : step side s event = .ok (next side s event) := by
  cases event with
  | onCanRead =>
    cases side with
    | server => exact (apply_ite Except.ok _ _ _).symm
    | client =>
      unfold step next onCanRead
      rw [s.endpoint.clientOnCanRead_eq]
      exact (apply_ite Except.ok _ _ _).symm
  | onStreamRead callback => exact (apply_ite Except.ok _ _ _).symm
  | _ => rfl

theorem afterOnCanRead_callback (side : Side) (e : Endpoint App) :
    (afterOnCanRead side e).1.readCallback = e.readCallback := by
  cases side with
  | client => rfl
  | server =>
    obtain ⟨stream, callback⟩ := e
    cases callback <;> rfl

/-- After a notification nothing is unread if there is somebody to read it. -/
theorem afterOnCanRead_reads (side : Side) {e : Endpoint App} (callback : e.readCallback.isSome) :
    (afterOnCanRead side e).1.stream.bytes = [] := by
  cases side with
  | client => rfl
  | server =>
    change e.serverOnCanRead.1.stream.bytes = []
    rw [e.serverOnCanRead_eq, if_pos callback]
    rfl

def Given (s : Incoming App) : Prop := s.endpoint.readCallback.isSome → s.visitor

theorem Given.next {s : Incoming App} (given : Given s) (side : Side) (event : Event App) :
    Given (next side s event).1 := by
  cases event with
  | arrive regions fin => exact given
  | accept => exact fun _ => rfl
  | onStreamRead callback =>
    simp only [Incoming.next]
    split
    next accepted => exact fun _ => accepted
    next => exact given
  | onCanRead =>
    simp only [Incoming.next]
    split
    next =>
      intro callback
      exact given (by rwa [← afterOnCanRead_callback side])
    next => exact given

/-- A registration is the only step that can leave data behind. -/
theorem noStall_next_iff {s : Incoming App} (given : Given s) (good : NoStall s) (side : Side) (event : Event App) :
    NoStall (next side s event).1 ↔ Timely s event := by
  cases event with
  | arrive regions fin =>
    refine iff_of_true ?_ trivial
    intro quiet callback
    obtain ⟨quiet, nothing⟩ : s.notified = false ∧ (s.visitor && (!regions.isEmpty || fin)) = false := by
      simpa [next] using quiet
    have empty : regions = [] := by
      rw [given callback] at nothing
      simp at nothing
      exact nothing.1
    have same := good quiet callback
    rw [show (next side s (.arrive regions fin)).1.endpoint.stream.bytes = _ from
      WebTransportStream.arrive_bytes _ _ _, same, empty]
    rfl
  | accept => exact iff_of_true good trivial
  | onCanRead =>
    refine iff_of_true ?_ trivial
    simp only [next]
    split
    next =>
      intro _ callback
      rw [afterOnCanRead_callback] at callback
      exact afterOnCanRead_reads side callback
    next => exact good
  | onStreamRead callback =>
    simp only [next]
    split
    next accepted =>
      change (s.notified = false → callback.isSome → s.endpoint.stream.bytes = []) ↔
        (callback.isSome → s.visitor → s.notified ∨ s.endpoint.stream.bytes = [])
      cases s.notified <;> simp [accepted]
    next refused =>
      refine iff_of_true good ?_
      exact fun _ accepted => absurd accepted refused

/-- In every run no quiescent state has unread data and a callback, exactly when every
registration of a callback finds a notification due or nothing unread. -/
theorem no_stall_iff (side : Side) (events : List (Event App)) :
    (∀ past later, events = past ++ later → ∃ final outputs,
        Machine.runM (step side) ({} : Incoming App) past = .ok (final, outputs) ∧ NoStall final) ↔
      ∀ past event later, events = past ++ event :: later → ∃ before outputs,
        Machine.runM (step side) ({} : Incoming App) past = .ok (before, outputs) ∧ Timely before event := by
  refine (Machine.always_runM_iff (step_eq side) {} events).trans
    (Iff.trans ?_ (Machine.licensed_runM_iff (step_eq side) {} events).symm)
  apply Machine.always_iff (fun _ _ s => Given s) (fun _ => Timely)
  · exact fun _ _ s event given => given.next side event
  · exact fun _ _ s event given good => noStall_next_iff given good side event
  · exact fun callback => nomatch callback
  · exact fun _ _ => rfl

def early : List (Event Nat) :=
  [.arrive [⟨[1], by decide⟩] false, .accept, .onStreamRead (some 0)]

def unheard : List (Event Nat) :=
  [.accept, .arrive [⟨[1], by decide⟩] false, .onCanRead, .onStreamRead (some 0)]

/-- On either side the early byte stays unread, and the server keeps the unheard one; the
callback is set and no notification is due. -/
theorem early_data_stalls :
    (∃ final outputs, Machine.runM (step .server) {} early = .ok (final, outputs) ∧ ¬ NoStall final) ∧
      (∃ final outputs, Machine.runM (step .client) {} early = .ok (final, outputs) ∧ ¬ NoStall final) ∧
      ∃ final outputs, Machine.runM (step .server) {} unheard = .ok (final, outputs) ∧ ¬ NoStall final := by
  refine ⟨⟨_, _, Machine.runM_eq (step_eq _) _ _, ?_⟩, ⟨_, _, Machine.runM_eq (step_eq _) _ _, ?_⟩,
    _, _, Machine.runM_eq (step_eq _) _ _, ?_⟩
  all_goals
    intro read
    exact absurd (read rfl rfl) (by decide)

end Incoming

end WebTransport.Stream

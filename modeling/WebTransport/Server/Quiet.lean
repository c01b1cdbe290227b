import WebTransport.Server.Close

/-! Callbacks after the session is closed. Most entry points test the closed flag before
they call the application. `OnSessionReady` does not, and the accept loops test it only in
front of the loop. -/
namespace WebTransport.Server

def Quiet (before : List Effect) (e : Effect) : Prop :=
  e.isCallback = true → .closed ∉ before

def Call.isRejectSession : Call → Bool
  | .rejectSession _ _ => true
  | _ => false

namespace SessionWrapper

/-- The loop closes the session under a later stream when the script of an earlier one
rejects the session. -/
def QuietStreams (set : Bool) (s : SessionWrapper) (streams : List (List Call)) : Prop :=
  set = true → s.sessionClosed = false → s.onreadyCalled = true →
    ∀ script ∈ streams.dropLast, script.any Call.isRejectSession = false

def QuietAt (callbacks : Callbacks) (s : SessionWrapper) : Event → Prop
  | .onSessionReady _ _ => callbacks.sessionCb = true → s.shouldReject = false → s.sessionClosed = false
  | .onIncomingUnidirectionalStreamAvailable streams => QuietStreams callbacks.unidirectionalCb s streams
  | .onIncomingBidirectionalStreamAvailable streams => QuietStreams callbacks.bidirectionalCb s streams
  | _ => True

theorem call_sessionClosed (s : SessionWrapper) (c : Call) :
    (s.call c).1.sessionClosed = (s.sessionClosed || s.onreadyCalled && c.isRejectSession) := by
  cases c with
  | rejectSession errorCode reason =>
    cases ready : s.onreadyCalled <;> cases closed : s.sessionClosed <;>
      simp [call, rejectSession, close, Call.isRejectSession, ready, closed]
  | sendDatagram data =>
    simp only [call, sendDatagram]
    split <;> simp [Call.isRejectSession]
  | onDatagramRead set => simp [call, Call.isRejectSession]

theorem runScript_sessionClosed (s : SessionWrapper) (script : List Call) :
    (s.runScript script).1.sessionClosed =
      (s.sessionClosed || s.onreadyCalled && script.any Call.isRejectSession) := by
  unfold runScript
  induction script generalizing s with
  | nil => simp
  | cons c rest ih =>
    rw [Machine.run_cons, ih, call_sessionClosed, call_onreadyCalled, List.any_cons, Bool.or_assoc,
      Bool.and_or_distrib_left]

theorem call_noCallback (s : SessionWrapper) (c : Call) : ∀ e ∈ (s.call c).2, e.isCallback = false := by
  cases c with
  | rejectSession errorCode reason =>
    simp only [call, rejectSession, close]
    split <;> [split; skip] <;> simp [Effect.isCallback]
  | sendDatagram data =>
    simp only [call, sendDatagram]
    split <;> simp [Effect.isCallback]
  | onDatagramRead set => simp [call]

theorem runScript_noCallback (s : SessionWrapper) (script : List Call) :
    ∀ e ∈ (s.runScript script).2, e.isCallback = false :=
  Machine.run_outputs (fun e : Effect => e.isCallback = false) call_noCallback s script

end SessionWrapper

theorem SessionWrapper.refuse_noCallback (s : SessionWrapper) (answer : Bool) :
    ∀ e ∈ (s.refuse answer).2, e.isCallback = false := by
  unfold SessionWrapper.refuse
  split <;> simp [SessionWrapper.close, Effect.isCallback]

def QuietFrom (trace effects : List Effect) : Prop :=
  Machine.Licensed (fun before e => Quiet (trace ++ before) e) effects

variable {trace effects : List Effect} {s : SessionWrapper} {e : Effect}

theorem QuietFrom.of_noCallback (none : ∀ e ∈ effects, Effect.isCallback e = false) : QuietFrom trace effects :=
  Machine.Licensed.of_forall fun e member before isCallback => by simp [none e member] at isCallback

/-- In the loop, every stream but the last must leave the session open. -/
theorem loop_quiet_iff (callback : String → Effect) (s : SessionWrapper) (streams : List (List Call)) :
    Machine.Licensed (fun past _ =>
        (Machine.run (SessionWrapper.acceptStream true callback) s past).1.sessionClosed = false) streams ↔
      (streams ≠ [] → s.sessionClosed = false ∧ (s.onreadyCalled = true →
        ∀ script ∈ streams.dropLast, script.any Call.isRejectSession = false)) := by
  induction streams generalizing s with
  | nil => simp
  | cons script rest ih =>
    have accepted : (s.acceptStream true callback script).1 = (s.runScript script).1 := rfl
    rw [Machine.licensed_cons]
    simp only [Machine.run_nil, Machine.run_cons, accepted, ih, SessionWrapper.runScript_sessionClosed,
      SessionWrapper.runScript_onreadyCalled]
    cases rest with
    | nil => simp
    | cons second more =>
      cases ready : s.onreadyCalled <;> cases closed : s.sessionClosed <;> simp [List.dropLast]

namespace Tracks

theorem quiet_callback (h : Tracks trace s) (isCallback : e.isCallback = true)
    (none : ∀ e ∈ effects, e.isCallback = false) :
    QuietFrom trace (e :: effects) ↔ s.sessionClosed = false := by
  have later : Machine.Licensed (fun before o => Quiet (trace ++ e :: before) o) effects :=
    Machine.Licensed.of_forall fun o member before isCallback => by simp [none o member] at isCallback
  rw [QuietFrom, Machine.licensed_cons, and_iff_left later, Quiet, List.append_nil, imp_iff_right isCallback,
    h.closed, Bool.not_eq_true]

theorem quiet_acceptStream (h : Tracks trace s) (set : Bool) (callback : String → Effect)
    (isCallback : ∀ path, (callback path).isCallback = true) (script : List Call) :
    QuietFrom trace (s.acceptStream set callback script).2 ↔ (set = true → s.sessionClosed = false) := by
  cases set with
  | false => simp [SessionWrapper.acceptStream, QuietFrom]
  | true =>
    rw [imp_iff_right rfl, ← h.quiet_callback (isCallback s.path) (s.runScript_noCallback script)]
    rfl

theorem quiet_acceptStreams (h : Tracks trace s) (set : Bool) (callback : String → Effect)
    (isCallback : ∀ path, (callback path).isCallback = true) (streams : List (List Call)) :
    QuietFrom trace (s.acceptStreams set callback streams).2 ↔ s.QuietStreams set streams := by
  unfold SessionWrapper.acceptStreams SessionWrapper.QuietStreams
  cases closed : s.sessionClosed with
  | true => simp [QuietFrom]
  | false =>
    have loop : QuietFrom trace (Machine.run (SessionWrapper.acceptStream set callback) s streams).2 ↔
        Machine.Licensed (fun past _ => set = true →
          (Machine.run (SessionWrapper.acceptStream set callback) s past).1.sessionClosed = false) streams :=
      Machine.licensed_run_iff Tracks (fun t _ => set = true → t.sessionClosed = false)
        (fun _ _ script tracks => tracks.acceptStream set callback isCallback script)
        (fun _ _ script tracks => tracks.quiet_acceptStream set callback isCallback script) h streams
    simp only [Bool.false_eq_true, ↓reduceIte, true_imp_iff]
    refine loop.trans ?_
    cases set with
    | false => simp [Machine.Licensed]
    | true =>
      simp only [true_imp_iff]
      rw [loop_quiet_iff callback s streams, closed]
      cases streams <;> simp

theorem quiet_onDatagramReceived (h : Tracks trace s) (datagram : List UInt8) (script : List Call) :
    QuietFrom trace (s.onDatagramReceived datagram script).2 := by
  unfold SessionWrapper.onDatagramReceived
  split
  next guard => exact (h.quiet_callback rfl (s.runScript_noCallback script)).mpr guard.2
  next => exact .of_noCallback (by simp)

theorem quiet_onSessionReady (h : Tracks trace s) (callbacks : Callbacks) (script : List Call)
    (answer : Bool) : QuietFrom trace (s.onSessionReady callbacks script answer).2 ↔
      (callbacks.sessionCb = true → s.shouldReject = false → s.sessionClosed = false) := by
  cases asked : s.shouldReject with
  | true =>
    refine iff_of_true (.of_noCallback ?_) (by simp)
    unfold SessionWrapper.onSessionReady
    cases s.sessionClosed <;> simp [asked, SessionWrapper.close, Effect.isCallback]
  | false =>
    let ready := { s with onreadyCalled := true }
    rw [SessionWrapper.onSessionReady_decide callbacks script answer asked, SessionWrapper.decide]
    cases set : callbacks.sessionCb with
    | false =>
      refine iff_of_true (.of_noCallback ?_) (by simp)
      exact SessionWrapper.refuse_noCallback _ true
    | true =>
      have none : ∀ e ∈ (ready.runScript script).2 ++
          .sessionCallbackReturned answer :: ((ready.runScript script).1.refuse answer).2,
          e.isCallback = false := by
        simp only [List.forall_mem_append, List.forall_mem_cons]
        exact ⟨ready.runScript_noCallback script, rfl, SessionWrapper.refuse_noCallback _ answer⟩
      rw [imp_iff_right rfl, imp_iff_right rfl, ← h.ready.quiet_callback (e := .sessionCallback s.path) rfl none]
      rfl

/-- The condition on an event is exact. -/
theorem quiet_step (h : Tracks trace s) (callbacks : Callbacks) (event : Event) :
    QuietFrom trace (s.step callbacks event).2 ↔ s.QuietAt callbacks event := by
  cases event with
  | call c => exact iff_of_true (.of_noCallback (s.call_noCallback c)) trivial
  | onSessionReady script accept => exact h.quiet_onSessionReady callbacks script accept
  | onDatagramReceived datagram script => exact iff_of_true (h.quiet_onDatagramReceived datagram script) trivial
  | onIncomingUnidirectionalStreamAvailable streams =>
    exact h.quiet_acceptStreams _ .unidirectionalCallback (fun _ => rfl) streams
  | onIncomingBidirectionalStreamAvailable streams =>
    exact h.quiet_acceptStreams _ .bidirectionalCallback (fun _ => rfl) streams
  | onSessionClosed =>
    exact iff_of_true (.of_noCallback (by simp [SessionWrapper.step, SessionWrapper.onSessionClosed,
      Effect.isCallback])) trivial

end Tracks

/-- Callbacks begin on closed sessions in exactly the runs where `OnSessionReady` finds the
session closed, or a stream callback before the last of a loop rejects the session. -/
theorem quiet_iff (callbacks : Callbacks) (path : String) (events : List Event) :
    Machine.Licensed Quiet (Machine.run (SessionWrapper.step callbacks) { path } events).2 ↔
      Machine.Licensed (fun past event =>
        (Machine.run (SessionWrapper.step callbacks) { path } past).1.QuietAt callbacks event) events :=
  Machine.licensed_run_iff Tracks (fun s event => s.QuietAt callbacks event)
    (fun _ _ event tracks => tracks.step callbacks event)
    (fun _ _ event tracks => tracks.quiet_step callbacks event) (.start path) events

/-- A ready session, and two waiting streams whose first callback rejects the session. -/
def rejectedMidLoop : List Event :=
  [.onSessionReady [] true, .onIncomingUnidirectionalStreamAvailable [[.rejectSession 7 "busy"], []]]

/-- The second stream reaches the application behind `CloseSession`. -/
theorem mid_loop_callback : ¬ Machine.Licensed Quiet
    (Machine.run (SessionWrapper.step ⟨true, true, true⟩) { path := "/" } rejectedMidLoop).2 := by
  intro quiet
  have second := quiet [.sessionCallback "/", .sessionCallbackReturned true, .unidirectionalCallback "/",
    .rejectSession 7 "busy", .closed, .closeSession 7 "busy"] (.unidirectionalCallback "/") [] rfl
  exact second rfl (by decide)

end WebTransport.Server

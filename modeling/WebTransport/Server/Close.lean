import WebTransport.Server.Session

/-! The close discipline of a server session. `Tracks` ties the flags of the wrapper to
the trace emitted so far; it holds in the middle of a callback as well as between events. -/
namespace WebTransport.Server

namespace Effect

def rejection? : Effect → Option (UInt32 × String)
  | .rejectSession errorCode reason => some (errorCode, reason)
  | _ => none

def isCloseSession : Effect → Bool
  | .closeSession _ _ => true
  | _ => false

end Effect

def lastRejection (trace : List Effect) : Option (UInt32 × String) :=
  (trace.filterMap Effect.rejection?).getLast?

/-- What the transport may be asked to do, given the trace before. -/
def Lawful (before : List Effect) : Effect → Prop
  | .closeSession errorCode reason =>
    (∀ e ∈ before, e.isCloseSession = false) ∧ .onSessionClosed ∉ before ∧
      (errorCode, reason) = (lastRejection before).getD (0, SessionWrapper.defaultReason)
  | .sendOrQueueDatagram _ => .closed ∉ before
  | _ => True

structure Tracks (trace : List Effect) (s : SessionWrapper) : Prop where
  closed : .closed ∈ trace ↔ s.sessionClosed = true
  closeSession : ∀ e ∈ trace, e.isCloseSession = true → .closed ∈ trace
  onSessionClosed : .onSessionClosed ∈ trace → .closed ∈ trace
  rejection : lastRejection trace =
    if s.shouldReject then some (s.rejectErrorCode, s.rejectReason) else none
  lawful : Machine.Licensed Lawful trace

namespace Tracks

variable {trace : List Effect} {s : SessionWrapper}

theorem start (path : String) : Tracks [] { path } :=
  ⟨by simp, by simp, by simp, rfl, Machine.Licensed.nil⟩

theorem ready (h : Tracks trace s) : Tracks trace { s with onreadyCalled := true } :=
  ⟨h.closed, h.closeSession, h.onSessionClosed, h.rejection, h.lawful⟩

theorem register (h : Tracks trace s) (set : Bool) : Tracks trace { s with datagramCb := set } :=
  ⟨h.closed, h.closeSession, h.onSessionClosed, h.rejection, h.lawful⟩

theorem lastRejection_concat (trace : List Effect) (e : Effect) :
    lastRejection (trace ++ [e]) = (e.rejection?).or (lastRejection trace) := by
  unfold lastRejection
  rw [List.filterMap_append]
  cases h : e.rejection? <;> simp [h]

theorem emit (h : Tracks trace s) (e : Effect) (plain : e.rejection? = none) (notClosed : e ≠ .closed)
    (notClose : e.isCloseSession = false) (notOnClosed : e ≠ .onSessionClosed) (lawful : Lawful trace e) :
    Tracks (trace ++ [e]) s where
  closed := by simpa [Ne.symm notClosed] using h.closed
  closeSession f member close := by
    rcases List.mem_append.mp member with old | new
    · exact List.mem_append_left _ (h.closeSession f old close)
    · rw [List.mem_singleton.mp new, notClose] at close
      cases close
  onSessionClosed member := by
    rcases List.mem_append.mp member with old | new
    · exact List.mem_append_left _ (h.onSessionClosed old)
    · exact absurd (List.mem_singleton.mp new).symm notOnClosed
  rejection := by rw [lastRejection_concat, plain, Option.none_or, h.rejection]
  lawful := Machine.licensed_concat.mpr ⟨h.lawful, lawful⟩

theorem reject (h : Tracks trace s) (errorCode : UInt32) (reason : String) :
    Tracks (trace ++ [.rejectSession errorCode reason])
      { s with rejectErrorCode := errorCode, rejectReason := reason, shouldReject := true } where
  closed := by simpa using h.closed
  closeSession f member close := by
    rcases List.mem_append.mp member with old | new
    · exact List.mem_append_left _ (h.closeSession f old close)
    · rw [List.mem_singleton.mp new] at close
      cases close
  onSessionClosed member := by simpa using h.onSessionClosed (by simpa using member)
  rejection := by rw [lastRejection_concat]; rfl
  lawful := Machine.licensed_concat.mpr ⟨h.lawful, trivial⟩

/-- The flag is set and `CloseSession` called, while the flag was not set. -/
theorem close (h : Tracks trace s) (isOpen : s.sessionClosed = false) (errorCode : UInt32) (reason : String)
    (args : (errorCode, reason) = (lastRejection trace).getD (0, SessionWrapper.defaultReason)) :
    Tracks (trace ++ (s.close errorCode reason).2) (s.close errorCode reason).1 := by
  have notClosed : .closed ∉ trace := fun member => by simp [h.closed.mp member] at isOpen
  have unchanged : lastRejection (trace ++ [.closed]) = lastRejection trace := by
    rw [lastRejection_concat]
    rfl
  have first : Machine.Licensed Lawful (trace ++ [.closed]) :=
    Machine.licensed_concat.mpr ⟨h.lawful, trivial⟩
  have both : trace ++ (s.close errorCode reason).2 =
      trace ++ [.closed] ++ [.closeSession errorCode reason] := by simp [SessionWrapper.close]
  rw [both]
  refine ⟨by simp [SessionWrapper.close], by simp, by simp, ?_, ?_⟩
  · have plain : Effect.rejection? (.closeSession errorCode reason) = none := rfl
    rw [lastRejection_concat, plain, Option.none_or, unchanged, h.rejection]
    rfl
  · refine Machine.licensed_concat.mpr ⟨first, ?_, ?_, by rw [unchanged]; exact args⟩
    · intro e member
      rcases List.mem_append.mp member with old | new
      · rw [Bool.eq_false_iff]
        exact fun isClose => notClosed (h.closeSession e old isClose)
      · rw [List.mem_singleton.mp new]
        rfl
    · intro member
      rcases List.mem_append.mp member with old | new
      · exact notClosed (h.onSessionClosed old)
      · cases List.mem_singleton.mp new

theorem peerClosed (h : Tracks trace s) :
    Tracks (trace ++ s.onSessionClosed.2) s.onSessionClosed.1 := by
  have both : trace ++ s.onSessionClosed.2 = trace ++ [.onSessionClosed] ++ [.closed] := by
    simp [SessionWrapper.onSessionClosed]
  rw [both]
  refine ⟨by simp [SessionWrapper.onSessionClosed], by simp, by simp, ?_, ?_⟩
  · have closed : Effect.rejection? .closed = none := rfl
    have onSessionClosed : Effect.rejection? .onSessionClosed = none := rfl
    rw [lastRejection_concat, closed, Option.none_or, lastRejection_concat, onSessionClosed,
      Option.none_or, h.rejection]
    rfl
  · exact Machine.licensed_concat.mpr ⟨Machine.licensed_concat.mpr ⟨h.lawful, trivial⟩, trivial⟩

theorem call (h : Tracks trace s) (c : Call) : Tracks (trace ++ (s.call c).2) (s.call c).1 := by
  cases c with
  | rejectSession errorCode reason =>
    have asked := h.reject errorCode reason
    simp only [SessionWrapper.call, SessionWrapper.rejectSession]
    cases ready : s.onreadyCalled with
    | false => simpa [ready] using asked
    | true =>
      cases closed : s.sessionClosed with
      | true => simpa [closed, ready] using asked
      | false =>
        have closing := asked.close closed errorCode reason (by rw [asked.rejection]; rfl)
        simpa [closed, ready, List.append_assoc] using closing
  | sendDatagram data =>
    simp only [SessionWrapper.call, SessionWrapper.sendDatagram]
    cases closed : s.sessionClosed with
    | true => simpa using h
    | false =>
      refine h.emit (.sendOrQueueDatagram data) rfl (by simp) rfl (by simp) fun member => ?_
      simp [h.closed.mp member] at closed
  | onDatagramRead set => simpa [SessionWrapper.call] using h.register set

theorem runScript (h : Tracks trace s) (script : List Call) :
    Tracks (trace ++ (s.runScript script).2) (s.runScript script).1 :=
  Machine.run_trace Tracks (fun _ _ c tracks => tracks.call c) h script

theorem callback (h : Tracks trace s) (e : Effect) (isCallback : e.isCallback = true) (script : List Call) :
    Tracks (trace ++ e :: (s.runScript script).2) (s.runScript script).1 := by
  have begun : Tracks (trace ++ [e]) s := by
    cases e <;> simp [Effect.isCallback] at isCallback <;>
      exact h.emit _ rfl (by simp) rfl (by simp) trivial
  simpa using begun.runScript script

theorem acceptStream (h : Tracks trace s) (set : Bool) (callback : String → Effect)
    (isCallback : ∀ path, (callback path).isCallback = true) (script : List Call) :
    Tracks (trace ++ (s.acceptStream set callback script).2) (s.acceptStream set callback script).1 := by
  cases set with
  | false => simpa [SessionWrapper.acceptStream] using h
  | true => simpa [SessionWrapper.acceptStream] using h.callback (callback s.path) (isCallback _) script

theorem acceptStreams (h : Tracks trace s) (set : Bool) (callback : String → Effect)
    (isCallback : ∀ path, (callback path).isCallback = true) (streams : List (List Call)) :
    Tracks (trace ++ (s.acceptStreams set callback streams).2) (s.acceptStreams set callback streams).1 := by
  unfold SessionWrapper.acceptStreams
  split
  · simpa using h
  · exact Machine.run_trace Tracks (fun _ _ script tracks => tracks.acceptStream set callback isCallback script)
      h streams

theorem onDatagramReceived (h : Tracks trace s) (datagram : List UInt8) (script : List Call) :
    Tracks (trace ++ (s.onDatagramReceived datagram script).2) (s.onDatagramReceived datagram script).1 := by
  unfold SessionWrapper.onDatagramReceived
  split
  · exact h.callback (.datagramCallback datagram) rfl script
  · simpa using h

/-- Nobody asked for a rejection when the default arguments are used. -/
theorem refuse (h : Tracks trace s) (answer : Bool) :
    Tracks (trace ++ (s.refuse answer).2) (s.refuse answer).1 := by
  unfold SessionWrapper.refuse
  split
  next refused =>
    refine h.close refused.2.2 0 SessionWrapper.defaultReason ?_
    rw [h.rejection, refused.2.1]
    rfl
  next => simpa using h

theorem decide (h : Tracks trace s) (callbacks : Callbacks) (script : List Call) (answer : Bool) :
    Tracks (trace ++ (s.decide callbacks script answer).2) (s.decide callbacks script answer).1 := by
  unfold SessionWrapper.decide
  split
  · have called := h.callback (.sessionCallback s.path) rfl script
    have returned := called.emit (.sessionCallbackReturned answer) rfl (by simp) rfl (by simp) trivial
    simpa using returned.refuse answer
  · simpa using h.refuse true

theorem onSessionReady (h : Tracks trace s) (callbacks : Callbacks) (script : List Call) (answer : Bool) :
    Tracks (trace ++ (s.onSessionReady callbacks script answer).2)
      (s.onSessionReady callbacks script answer).1 := by
  have ready := h.ready
  simp only [SessionWrapper.onSessionReady]
  cases asked : s.shouldReject with
  | false => simpa [asked] using ready.decide callbacks script answer
  | true =>
    cases closed : s.sessionClosed with
    | true => simpa [asked, closed] using ready
    | false =>
      have args : (s.rejectErrorCode, s.rejectReason) =
          (lastRejection trace).getD (0, SessionWrapper.defaultReason) := by
        rw [h.rejection, asked]
        rfl
      simpa [asked, closed] using ready.close closed s.rejectErrorCode s.rejectReason args

theorem step (h : Tracks trace s) (callbacks : Callbacks) (event : Event) :
    Tracks (trace ++ (s.step callbacks event).2) (s.step callbacks event).1 := by
  cases event with
  | call c => exact h.call c
  | onSessionReady script accept => exact h.onSessionReady callbacks script accept
  | onDatagramReceived datagram script => exact h.onDatagramReceived datagram script
  | onIncomingUnidirectionalStreamAvailable streams =>
    exact h.acceptStreams _ .unidirectionalCallback (fun _ => rfl) streams
  | onIncomingBidirectionalStreamAvailable streams =>
    exact h.acceptStreams _ .bidirectionalCallback (fun _ => rfl) streams
  | onSessionClosed => exact h.peerClosed

end Tracks

namespace SessionWrapper

/-- Between events a rejection that was asked for has closed the session. -/
def Settled (s : SessionWrapper) : Prop :=
  s.onreadyCalled = true → s.shouldReject = true → s.sessionClosed = true

variable {s : SessionWrapper}

theorem Settled.call (h : s.Settled) (c : Call) : (s.call c).1.Settled := by
  cases c with
  | rejectSession errorCode reason =>
    simp only [SessionWrapper.call, SessionWrapper.rejectSession]
    cases ready : s.onreadyCalled <;> cases closed : s.sessionClosed <;>
      simp [Settled, SessionWrapper.close, *]
  | sendDatagram data =>
    simp only [SessionWrapper.call, SessionWrapper.sendDatagram]
    split <;> exact h
  | onDatagramRead set => exact h

theorem Settled.runScript (h : s.Settled) (script : List Call) : (s.runScript script).1.Settled :=
  Machine.run_invariant Settled (fun _ c settled => settled.call c) h script

@[simp] theorem call_onreadyCalled (s : SessionWrapper) (c : Call) :
    (s.call c).1.onreadyCalled = s.onreadyCalled := by
  cases c with
  | rejectSession errorCode reason =>
    simp only [call, rejectSession, close]
    split <;> [split; skip] <;> rfl
  | sendDatagram data =>
    simp only [call, sendDatagram]
    split <;> rfl
  | onDatagramRead set => rfl

@[simp] theorem runScript_onreadyCalled (s : SessionWrapper) (script : List Call) :
    (s.runScript script).1.onreadyCalled = s.onreadyCalled :=
  Machine.run_invariant (fun t => t.onreadyCalled = s.onreadyCalled)
    (fun t c same => (call_onreadyCalled t c).trans same) rfl script

theorem Settled.refuse (h : s.Settled) (answer : Bool) : (s.refuse answer).1.Settled := by
  unfold SessionWrapper.refuse
  split
  · exact fun _ _ => rfl
  · exact h

/-- A refusal closes the session, by the default or by the rejection asked for before. -/
theorem refuse_closed (h : s.Settled) (ready : s.onreadyCalled = true) :
    (s.refuse false).1.sessionClosed = true := by
  unfold SessionWrapper.refuse
  split
  · rfl
  next notRefused =>
    by_contra stillOpen
    refine notRefused ⟨rfl, ?_, Bool.eq_false_iff.mpr stillOpen⟩
    exact Bool.eq_false_iff.mpr fun asked => stillOpen (h ready asked)

theorem Settled.acceptStream (h : s.Settled) (set : Bool) (callback : String → Effect) (script : List Call) :
    (s.acceptStream set callback script).1.Settled := by
  unfold SessionWrapper.acceptStream
  split
  · exact h.runScript script
  · exact h

theorem Settled.acceptStreams (h : s.Settled) (set : Bool) (callback : String → Effect)
    (streams : List (List Call)) : (s.acceptStreams set callback streams).1.Settled := by
  unfold SessionWrapper.acceptStreams
  split
  · exact h
  · exact Machine.run_invariant Settled (fun _ script settled => settled.acceptStream set callback script)
      h streams

theorem onSessionReady_rejected (callbacks : Callbacks) (script : List Call) (answer : Bool)
    (asked : s.shouldReject = true) :
    (s.onSessionReady callbacks script answer).1.sessionClosed = true := by
  unfold onSessionReady
  cases s.sessionClosed <;> simp [asked, close]

theorem onSessionReady_decide (callbacks : Callbacks) (script : List Call) (answer : Bool)
    (notAsked : s.shouldReject = false) :
    s.onSessionReady callbacks script answer =
      SessionWrapper.decide callbacks { s with onreadyCalled := true } script answer :=
  if_neg (by simp [notAsked])

theorem decide_called (callbacks : Callbacks) (s : SessionWrapper) (script : List Call) (answer : Bool)
    (set : callbacks.sessionCb = true) :
    (s.decide callbacks script answer).1 = ((s.runScript script).1.refuse answer).1 := by
  simp [decide, set]

theorem Settled.decide (h : s.Settled) (callbacks : Callbacks) (script : List Call) (answer : Bool) :
    (s.decide callbacks script answer).1.Settled := by
  unfold SessionWrapper.decide
  split
  · exact (h.runScript script).refuse answer
  · exact h.refuse true

/-- `OnSessionReady` settles the session: an early rejection is answered at once. -/
theorem onSessionReady_settled (callbacks : Callbacks) (s : SessionWrapper) (script : List Call)
    (answer : Bool) : (s.onSessionReady callbacks script answer).1.Settled := by
  cases asked : s.shouldReject with
  | true => exact fun _ _ => onSessionReady_rejected callbacks script answer asked
  | false =>
    have settled : Settled { s with onreadyCalled := true } := fun _ h => by simp [asked] at h
    rw [onSessionReady_decide callbacks script answer asked]
    exact settled.decide callbacks script answer

theorem onSessionReady_refused (callbacks : Callbacks) (s : SessionWrapper) (script : List Call)
    (set : callbacks.sessionCb = true) :
    (s.onSessionReady callbacks script false).1.sessionClosed = true := by
  cases asked : s.shouldReject with
  | true => exact onSessionReady_rejected callbacks script false asked
  | false =>
    have settled : Settled { s with onreadyCalled := true } := fun _ h => by simp [asked] at h
    rw [onSessionReady_decide callbacks script false asked, decide_called _ _ _ _ set]
    exact refuse_closed (settled.runScript script) (runScript_onreadyCalled _ script)

theorem Settled.step (h : s.Settled) (callbacks : Callbacks) (event : Event) :
    (s.step callbacks event).1.Settled := by
  cases event with
  | call c => exact h.call c
  | onSessionReady script accept => exact onSessionReady_settled callbacks s script accept
  | onDatagramReceived datagram script =>
    simp only [SessionWrapper.step, SessionWrapper.onDatagramReceived]
    split
    · exact h.runScript script
    · exact h
  | onIncomingUnidirectionalStreamAvailable streams => exact h.acceptStreams _ _ streams
  | onIncomingBidirectionalStreamAvailable streams => exact h.acceptStreams _ _ streams
  | onSessionClosed => exact fun _ _ => rfl

end SessionWrapper

/-- The trace and the flags after any run. -/
theorem Tracks.run (callbacks : Callbacks) (path : String) (events : List Event) :
    Tracks (Machine.run (SessionWrapper.step callbacks) { path } events).2
      (Machine.run (SessionWrapper.step callbacks) { path } events).1 :=
  Machine.run_trace Tracks (fun _ _ event tracks => tracks.step callbacks event) (.start path) events

/-- In every run, and in the middle of every callback of it: `CloseSession` is called at
most once, not after the peer closed, and with the arguments of the latest rejection;
no datagram is sent once the session is closed. Between events a rejection asked for
after or before the session was ready has closed it, and so has a refusing callback. -/
theorem close_discipline (callbacks : Callbacks) (path : String) (events : List Event) :
    let final := Machine.run (SessionWrapper.step callbacks) { path } events
    (final.2.filter Effect.isCloseSession).length ≤ 1 ∧
      Machine.Licensed Lawful final.2 ∧
      (.closed ∈ final.2 ↔ final.1.sessionClosed = true) ∧
      final.1.Settled ∧
      ∀ script, callbacks.sessionCb = true →
        (final.1.step callbacks (.onSessionReady script false)).1.sessionClosed = true := by
  have tracks := Tracks.run callbacks path events
  have settled : (Machine.run (SessionWrapper.step callbacks) { path } events).1.Settled :=
    Machine.run_invariant SessionWrapper.Settled (fun _ event settled => settled.step callbacks event)
      (fun ready => by simp at ready) events
  refine ⟨?_, tracks.lawful, tracks.closed, settled, fun script set => ?_⟩
  · refine Machine.Licensed.at_most_once (tracks.lawful.imp fun before e lawful isClose => ?_)
    cases e <;> first | exact lawful.1 | cases isClose
  · exact SessionWrapper.onSessionReady_refused callbacks _ script set

end WebTransport.Server

import WebTransport.Server.Sessions

/-! Sessions of one server do not disturb each other. Whatever is interleaved, each one runs
alone on what it sees, is known by the path of its own request, and keeps the close
discipline. -/
namespace WebTransport.Server

open Family

def Effect.path? : Effect → Option String
  | .sessionCallback path | .unidirectionalCallback path | .bidirectionalCallback path => some path
  | _ => none

namespace SessionWrapper

def KeepsPath (s : SessionWrapper) (result : SessionWrapper × List Effect) : Prop :=
  result.1.path = s.path ∧ ∀ e ∈ result.2, ∀ path, e.path? = some path → path = s.path

variable {s : SessionWrapper}

theorem KeepsPath.refl (s : SessionWrapper) : KeepsPath s (s, []) := ⟨rfl, by simp⟩

theorem KeepsPath.append {first : List Effect} (before : KeepsPath s (t, first)) (after : KeepsPath t result) :
    KeepsPath s (result.1, first ++ result.2) := by
  refine ⟨after.1.trans before.1, ?_⟩
  rw [List.forall_mem_append]
  exact ⟨before.2, fun e member path given => (after.2 e member path given).trans before.1⟩

theorem KeepsPath.cons (keeps : KeepsPath s result) (e : Effect) (own : ∀ path, e.path? = some path → path = s.path) :
    KeepsPath s (result.1, e :: result.2) := by
  refine ⟨keeps.1, ?_⟩
  rw [List.forall_mem_cons]
  exact ⟨own, keeps.2⟩

theorem KeepsPath.run {step : SessionWrapper → E → SessionWrapper × List Effect}
    (each : ∀ s input, KeepsPath s (step s input)) (s : SessionWrapper) (inputs : List E) :
    KeepsPath s (Machine.run step s inputs) := by
  induction inputs generalizing s with
  | nil => exact .refl s
  | cons input rest ih => exact (each s input).append (ih _)

theorem call_keepsPath (s : SessionWrapper) (c : Call) : KeepsPath s (s.call c) := by
  cases c with
  | rejectSession errorCode reason =>
    simp only [call, rejectSession, close]
    split <;> [split; skip] <;> simp [KeepsPath, Effect.path?]
  | sendDatagram data =>
    simp only [call, sendDatagram]
    split <;> simp [KeepsPath, Effect.path?]
  | onDatagramRead set => exact ⟨rfl, by simp [call]⟩

theorem runScript_keepsPath (s : SessionWrapper) (script : List Call) : KeepsPath s (s.runScript script) :=
  KeepsPath.run call_keepsPath s script

theorem refuse_keepsPath (s : SessionWrapper) (answer : Bool) : KeepsPath s (s.refuse answer) := by
  unfold refuse
  split
  · simp [KeepsPath, close, Effect.path?]
  · exact .refl s

theorem decide_keepsPath (callbacks : Callbacks) (s : SessionWrapper) (script : List Call) (answer : Bool) :
    KeepsPath s (s.decide callbacks script answer) := by
  unfold decide
  split
  · have closing := ((s.runScript script).1.refuse_keepsPath answer).cons (.sessionCallbackReturned answer)
      (by simp [Effect.path?])
    exact ((s.runScript_keepsPath script).append closing).cons (.sessionCallback s.path) (by simp [Effect.path?])
  · exact s.refuse_keepsPath true

theorem onSessionReady_keepsPath (callbacks : Callbacks) (s : SessionWrapper) (script : List Call) (answer : Bool) :
    KeepsPath s (s.onSessionReady callbacks script answer) := by
  cases asked : s.shouldReject with
  | false =>
    rw [onSessionReady_decide callbacks script answer asked]
    exact decide_keepsPath callbacks { s with onreadyCalled := true } script answer
  | true =>
    simp only [onSessionReady, asked, if_true, close]
    split <;> simp [KeepsPath, Effect.path?]

theorem acceptStream_keepsPath (set : Bool) (callback : String → Effect)
    (own : ∀ path, (callback path).path? = some path) (s : SessionWrapper) (script : List Call) :
    KeepsPath s (s.acceptStream set callback script) := by
  unfold acceptStream
  split
  · exact (s.runScript_keepsPath script).cons (callback s.path) (by simp [own, eq_comm])
  · exact .refl s

theorem acceptStreams_keepsPath (set : Bool) (callback : String → Effect)
    (own : ∀ path, (callback path).path? = some path) (s : SessionWrapper) (streams : List (List Call)) :
    KeepsPath s (s.acceptStreams set callback streams) := by
  unfold acceptStreams
  split
  · exact .refl s
  · exact KeepsPath.run (acceptStream_keepsPath set callback own) s streams

theorem step_keepsPath (callbacks : Callbacks) (s : SessionWrapper) (event : Event) :
    KeepsPath s (s.step callbacks event) := by
  cases event with
  | call c => exact s.call_keepsPath c
  | onSessionReady script accept => exact onSessionReady_keepsPath callbacks s script accept
  | onDatagramReceived datagram script =>
    simp only [step, onDatagramReceived]
    split
    · exact (s.runScript_keepsPath script).cons (.datagramCallback datagram) (by simp [Effect.path?])
    · exact .refl s
  | onIncomingUnidirectionalStreamAvailable streams =>
    exact acceptStreams_keepsPath _ .unidirectionalCallback (fun _ => rfl) s streams
  | onIncomingBidirectionalStreamAvailable streams =>
    exact acceptStreams_keepsPath _ .bidirectionalCallback (fun _ => rfl) s streams
  | onSessionClosed => simp [step, onSessionClosed, KeepsPath, Effect.path?]

end SessionWrapper

namespace Sessions

structure Sound (trace : List Effect) (s : SessionWrapper) : Prop where
  tracks : Tracks trace s
  settled : s.Settled
  path : ∀ e ∈ trace, ∀ path, e.path? = some path → path = s.path

/-- A session that does not exist has done nothing. -/
def Known (trace : List Effect) : Option SessionWrapper → Prop
  | some s => Sound trace s
  | none => trace = []

theorem alone_known {s : Option SessionWrapper} (h : Known trace s) (input : Seen) :
    Known (trace ++ (alone s input).2) (alone s input).1 := by
  cases s with
  | none =>
    obtain rfl : trace = [] := h
    cases input with
    | created path => exact ⟨.start path, fun ready => by simp at ready, by simp [alone]⟩
    | event callbacks event => rfl
  | some s =>
    cases input with
    | created path => simpa [alone] using h
    | event callbacks event =>
      obtain ⟨tracks, settled, path⟩ := h
      obtain ⟨kept, given⟩ := s.step_keepsPath callbacks event
      refine ⟨tracks.step callbacks event, settled.step callbacks event, ?_⟩
      rw [List.forall_mem_append]
      exact ⟨fun e member p own => (path e member p own).trans kept.symm,
        fun e member p own => (given e member p own).trans kept.symm⟩

theorem step_known {trace : List Effect} {server : Sessions} (j : Nat) (h : Known trace server.members[j]?)
    (event : Event) : Known (trace ++ own j (step server event).2) (step server event).1.members[j]? := by
  have view := view_step j server event
  simp only [Prod.ext_iff] at view
  rw [view.1, view.2]
  exact Machine.run_trace Known (fun _ _ input known => alone_known known input) h _

def requested? : Event → Option String
  | .request path => path
  | _ => none

theorem run_alone_some (s : SessionWrapper) (inputs : List Seen) :
    ∃ t, (Machine.run alone (some s) inputs).1 = some t ∧ t.path = s.path := by
  refine Machine.run_invariant (fun known => ∃ t, known = some t ∧ t.path = s.path) ?_ ⟨s, rfl, rfl⟩ inputs
  rintro _ input ⟨t, rfl, same⟩
  cases input with
  | created path => exact ⟨t, rfl, same⟩
  | event callbacks event => exact ⟨_, rfl, (t.step_keepsPath callbacks event).1.trans same⟩

theorem run_alone_none (inputs : List Seen) (events : ∀ input ∈ inputs, ∀ path, input ≠ .created path) :
    (Machine.run alone none inputs).1 = none := by
  induction inputs with
  | nil => rfl
  | cons input rest ih =>
    obtain ⟨first, others⟩ := List.forall_mem_cons.mp events
    cases input with
    | created path => exact absurd rfl (first path)
    | event callbacks event => exact ih others

/-- Only a request creates a session. -/
theorem sees_addressed (addressed : addressed? event = some target) (j : Nat) (server : Sessions) :
    ∀ input ∈ sees j server event, ∀ path, input ≠ .created path := by
  obtain ⟨i, e⟩ := target
  simp only [sees, addressed]
  split
  · simp
  split
  · simp [nested]
  · simp

theorem step_paths (server : Sessions) (event : Event) :
    (step server event).1.members.map (·.path) = server.members.map (·.path) ++ (requested? event).toList := by
  have others {target} (addressed : addressed? event = some target) :
      (step server event).1.members.map (·.path) = server.members.map (·.path) := by
    refine List.ext_getElem? fun j => ?_
    have now := congrArg Prod.fst (view_step j server event)
    simp only at now
    rw [List.getElem?_map, List.getElem?_map, now]
    cases there : server.members[j]? with
    | none => rw [run_alone_none _ (sees_addressed addressed j server)]
    | some s =>
      obtain ⟨t, after, same⟩ := run_alone_some s (sees j server event)
      rw [after, Option.map_some, Option.map_some, same]
  cases event with
  | register callbacks => exact (List.append_nil _).symm
  | request path =>
    cases path with
    | none => exact congrArg (List.map SessionWrapper.path) (List.append_nil _) |>.trans (List.append_nil _).symm
    | some path => exact List.map_append
  | _ => exact (others rfl).trans (List.append_nil _).symm

theorem run_paths (server : Sessions) (events : List Event) :
    (Machine.run step server events).1.members.map (·.path) =
      server.members.map (·.path) ++ events.filterMap requested? := by
  induction events generalizing server with
  | nil => simp
  | cons event rest ih =>
    rw [Machine.run_cons, ih, step_paths, List.append_assoc, List.filterMap_cons]
    cases requested? event <;> rfl

/-- In every run each session does what it does alone on the events that it sees. -/
theorem run_view (j : Nat) (events : List Event) :
    ((Machine.run step {} events).1.members[j]?, own j (Machine.run step {} events).2) =
      Machine.run alone none (seen step (sees j) {} events) :=
  run_seen step (fun server => server.members[j]?) (own j) alone (sees j) rfl (own_append j) (view_step j) {} events

end Sessions

/-- In every interleaving of requests, registrations and events of all sessions, with
callbacks that call any session: each session does what it does alone on what it sees, and
the sessions are those of the accepted requests, in order. -/
theorem sessions_run_alone (events : List Sessions.Event) :
    let final := Machine.run Sessions.step {} events
    final.1.members.map (·.path) = events.filterMap Sessions.requested? ∧
      ∀ j, (final.1.members[j]?, own j final.2) =
        Machine.run Sessions.alone none (seen Sessions.step (Sessions.sees j) {} events) :=
  ⟨(Sessions.run_paths {} events).trans (List.nil_append _), fun j => Sessions.run_view j events⟩

/-- The discipline of one session holds for every session of a server. Its callbacks are
given the path of its request, `CloseSession` is called at most once with the arguments of
its own last rejection, and nothing is sent on it once it is closed. -/
theorem sessions_disciplined (events : List Sessions.Event) (j : Nat) :
    let final := Machine.run Sessions.step {} events
    match (events.filterMap Sessions.requested?)[j]? with
    | none => own j final.2 = []
    | some path => ∃ s, final.1.members[j]? = some s ∧
        (∀ e ∈ own j final.2, ∀ given, e.path? = some given → given = path) ∧
        ((own j final.2).filter Effect.isCloseSession).length ≤ 1 ∧
        Machine.Licensed Lawful (own j final.2) ∧
        (.closed ∈ own j final.2 ↔ s.sessionClosed = true) ∧ s.Settled := by
  have known : Sessions.Known (own j (Machine.run Sessions.step {} events).2)
      (Machine.run Sessions.step {} events).1.members[j]? := by
    have start : Sessions.Known (own j []) ({} : Sessions).members[j]? := rfl
    exact Machine.run_trace (fun trace (server : Sessions) => Sessions.Known (own j trace) server.members[j]?)
      (fun trace _ event h => by
        rw [own_append]
        exact Sessions.step_known j h event) start events
  have paths := congrArg (·[j]?) (Sessions.run_paths {} events)
  simp only [List.getElem?_map, List.map_nil, List.nil_append] at paths
  intro final
  cases there : final.1.members[j]? with
  | none =>
    rw [there] at paths known
    rw [← paths]
    exact known
  | some s =>
    rw [there] at paths known
    rw [← paths]
    refine ⟨s, rfl, known.path, ?_, known.tracks.lawful, known.tracks.closed, known.settled⟩
    refine Machine.Licensed.at_most_once (known.tracks.lawful.imp fun before e lawful isClose => ?_)
    cases e <;> first | exact lawful.1 | cases isClose

end WebTransport.Server

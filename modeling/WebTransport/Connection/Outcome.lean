import WebTransport.Connection.Client

/-! One outcome for each connection attempt. The trace records every request and every
firing of the session-ready alarm under the number of its attempt; the alarms decide what
can still come for an attempt. -/
namespace WebTransport.Connection

variable {App : Type}

def Effect.request? : Effect App → Option Nat
  | .sendRequest attempt => some attempt
  | _ => none

def Effect.firing? : Effect App → Option (Firing App)
  | .fired firing => some firing
  | _ => none

def requests (n : Nat) (trace : List (Effect App)) : Nat :=
  (trace.filterMap Effect.request?).count n

def firings (n : Nat) (trace : List (Effect App)) : List (Firing App) :=
  (trace.filterMap Effect.firing?).filter fun firing => firing.attempt = n

namespace Answers

def error (a : Answers) : Bool := !a.clientSession || a.streamError || a.connectionError

def ready (a : Answers) : Bool := a.wtSession = some true

def undecided (a : Answers) : Bool := !a.error && !a.ready && !a.headersDecompressed

end Answers

structure Waiting (f : Firing App) : Prop where
  undecided : f.answers.undecided
  callbacks : f.callbacks = []
  armed : f.armed = some f.attempt

/-- The outcome: one callback at most, for the side that the answers are on, and nothing armed. -/
structure Final (f : Firing App) : Prop where
  decided : f.answers.undecided = false
  callbacks : f.callbacks.length ≤ 1
  open_ : ∀ callback, .sessionOpen callback ∈ f.callbacks → f.answers.error = false ∧ f.answers.ready
  error : ∀ callback message, .sessionError callback message ∈ f.callbacks →
    f.answers.error ∨ f.answers.ready = false
  armed : f.armed = none
  cleared : f.answers.error ∨ f.answers.ready = false → f.connected = false

/-- Some firings that wait, and then perhaps the outcome. -/
def Settles (fs : List (Firing App)) : Prop :=
  ∃ (waiting : List (Firing App)) (outcome : Option (Firing App)), fs = waiting ++ outcome.toList ∧
    (∀ f ∈ waiting, Waiting f) ∧ ∀ f ∈ outcome, Final f

theorem waiting_concat {fs : List (Firing App)} (waiting : ∀ g ∈ fs, Waiting g) (waits : Waiting f) :
    ∀ g ∈ fs ++ [f], Waiting g := by
  intro g member
  rcases List.mem_append.mp member with old | last
  · exact waiting g old
  · rwa [List.mem_singleton.mp last]

theorem Settles.concat {fs : List (Firing App)} (waiting : ∀ g ∈ fs, Waiting g) (kind : Waiting f ∨ Final f) :
    Settles (fs ++ [f]) := by
  rcases kind with waits | final
  · exact ⟨fs ++ [f], none, (List.append_nil _).symm, waiting_concat waiting waits, by simp⟩
  · refine ⟨fs, some f, rfl, waiting, ?_⟩
    intro g member
    rwa [← Option.mem_some_iff.mp member]

def Quiet (effects : List (Effect App)) : Prop :=
  ∀ e ∈ effects, e.request? = none ∧ e.firing? = none

theorem requests_append (n : Nat) (trace effects : List (Effect App)) :
    requests n (trace ++ effects) = requests n trace + requests n effects := by
  simp [requests, List.count_append]

theorem firings_append (n : Nat) (trace effects : List (Effect App)) :
    firings n (trace ++ effects) = firings n trace ++ firings n effects := by
  simp [firings]

theorem Quiet.requests {effects : List (Effect App)} (quiet : Quiet effects) (n : Nat)
    (trace : List (Effect App)) : requests n (trace ++ effects) = requests n trace := by
  have none : effects.filterMap Effect.request? = [] :=
    List.filterMap_eq_nil_iff.mpr fun e member => (quiet e member).1
  rw [requests_append]
  simp [Connection.requests, none]

theorem Quiet.firings {effects : List (Effect App)} (quiet : Quiet effects) (n : Nat)
    (trace : List (Effect App)) : firings n (trace ++ effects) = firings n trace := by
  have none : effects.filterMap Effect.firing? = [] :=
    List.filterMap_eq_nil_iff.mpr fun e member => (quiet e member).2
  rw [firings_append]
  simp [Connection.firings, none]

structure Keeps (c c' : Client App) : Prop where
  attempts : c'.attempts = c.attempts
  handshake : ∀ n, c'.handshakeAlarm = some n → c.handshakeAlarm = some n
  ready : ∀ n, c'.sessionReadyAlarm = some n → c.sessionReadyAlarm = some n

theorem Keeps.refl (c : Client App) : Keeps c c := ⟨rfl, fun _ => id, fun _ => id⟩

theorem Keeps.trans {a b c : Client App} (first : Keeps a b) (second : Keeps b c) : Keeps a c where
  attempts := second.attempts.trans first.attempts
  handshake n armed := first.handshake n (second.handshake n armed)
  ready n armed := first.ready n (second.ready n armed)

namespace Client

theorem call_keeps (c : Client App) (action : Call App) : Keeps c (c.call action).1 := by
  cases action with
  | disconnect => exact ⟨rfl, nofun, nofun⟩
  | _ => exact ⟨rfl, fun _ => id, fun _ => id⟩

theorem call_quiet (c : Client App) (action : Call App) : ∀ e ∈ (c.call action).2,
    e.request? = none ∧ e.firing? = none ∧ e.callback? = none := by
  cases action <;> simp [call, disconnect, Effect.request?, Effect.firing?, Effect.callback?]

theorem runScript_keeps (c : Client App) (script : List (Call App)) : Keeps c (c.runScript script).1 :=
  Machine.run_invariant (Keeps c) (fun now action keeps => keeps.trans (now.call_keeps action)) (.refl c) script

theorem runScript_quiet (c : Client App) (script : List (Call App)) : ∀ e ∈ (c.runScript script).2,
    e.request? = none ∧ e.firing? = none ∧ e.callback? = none :=
  Machine.run_outputs _ call_quiet c script

end Client

theorem invoked_quiet (c : Client App) (script : List (Call App)) (callback : Callback App) :
    Quiet (.callback callback :: (c.runScript script).2) ∧
      callbacks (.callback callback :: (c.runScript script).2) = [callback] := by
  have quiet := c.runScript_quiet script
  have none : (c.runScript script).2.filterMap Effect.callback? = [] :=
    List.filterMap_eq_nil_iff.mpr fun e member => (quiet e member).2.2
  refine ⟨?_, ?_⟩
  · intro e member
    rcases List.mem_cons.mp member with rfl | member
    · exact ⟨rfl, rfl⟩
    · exact ⟨(quiet e member).1, (quiet e member).2.1⟩
  · exact congrArg (callback :: ·) none

structure Exit (c : Client App) (called : List (Callback App)) (result : Client App × List (Effect App)) :
    Prop where
  keeps : Keeps c result.1
  quiet : Quiet result.2
  callbacks : callbacks result.2 = called

namespace Client

theorem fail_exit (c : Client App) (script : List (Call App)) (errorMessage : String) (line : Option String) :
    Exit c (c.sessionErrorCallback.toList.map fun callback => .sessionError callback errorMessage)
      (c.fail script errorMessage line) := by
  unfold fail
  cases set : c.sessionErrorCallback with
  | some callback =>
    obtain ⟨quiet, called⟩ := invoked_quiet c script (.sessionError callback errorMessage)
    exact ⟨(c.runScript_keeps script).trans ⟨rfl, fun _ => id, fun _ => id⟩, quiet, called⟩
  | none =>
    refine ⟨⟨rfl, fun _ => id, fun _ => id⟩, ?_, ?_⟩
    · cases line <;> simp [Quiet, Effect.request?, Effect.firing?]
    · cases line <;> rfl

theorem fail_connected (c : Client App) (script : List (Call App)) (errorMessage : String) (line : Option String) :
    (c.fail script errorMessage line).1.connected = false := rfl

theorem openSession_exit (c : Client App) (script : List (Call App)) :
    Exit c (c.sessionCallback.toList.map .sessionOpen) (c.openSession script) := by
  have created : Keeps c c.newClientSession := ⟨rfl, fun _ => id, fun _ => id⟩
  unfold openSession
  cases c.sessionCallback with
  | some callback =>
    obtain ⟨quiet, called⟩ := invoked_quiet c.newClientSession script (.sessionOpen callback)
    exact ⟨created.trans (runScript_keeps _ script), quiet, called⟩
  | none => exact ⟨created, by simp [Quiet], rfl⟩

theorem onAlarm_cases (c : Client App) (n : Nat) (answers : Answers) (script : List (Call App)) :
    (answers.undecided ∧ c.onAlarm n answers script = ({ c with sessionReadyAlarm := some n }, [])) ∨
      (answers.undecided = false ∧ answers.error = false ∧ answers.ready ∧
        c.onAlarm n answers script = c.openSession script) ∨
      (answers.undecided = false ∧ (answers.error ∨ answers.ready = false) ∧
        ∃ errorMessage line, c.onAlarm n answers script = c.fail script errorMessage line) := by
  unfold onAlarm
  split
  next gone => exact .inr (.inr ⟨by simp [Answers.undecided, Answers.error, gone], by simp [Answers.error, gone], _, _, rfl⟩)
  next present =>
  split
  next broken =>
    have error : answers.error := by simpa [Answers.error, or_assoc] using Or.inr (by simpa using broken)
    exact .inr (.inr ⟨by simp [Answers.undecided, error], .inl error, _, _, rfl⟩)
  next sound =>
  have fine : answers.error = false := by simp_all [Answers.error]
  split
  next ready =>
    have ready : answers.ready := by simpa [Answers.ready] using ready
    exact .inr (.inl ⟨by simp [Answers.undecided, ready], fine, ready, rfl⟩)
  next unready =>
  have unready : answers.ready = false := by simpa [Answers.ready] using unready
  split
  next headers => exact .inr (.inr ⟨by simp [Answers.undecided, headers], .inr unready, _, _, rfl⟩)
  next headers => exact .inl ⟨by simp [Answers.undecided, fine, unready, headers], rfl⟩

theorem onAlarm_final (c : Client App) (unarmed : c.sessionReadyAlarm = none) (n : Nat) (answers : Answers)
    (script : List (Call App)) (decided : answers.undecided = false) :
    Keeps c (c.onAlarm n answers script).1 ∧ Quiet (c.onAlarm n answers script).2 ∧
      Final ⟨n, answers, callbacks (c.onAlarm n answers script).2,
        (c.onAlarm n answers script).1.sessionReadyAlarm, (c.onAlarm n answers script).1.connected⟩ := by
  have stays : ∀ {c' : Client App}, Keeps c c' → c'.sessionReadyAlarm = none := by
    intro c' keeps
    refine Option.eq_none_iff_forall_not_mem.mpr fun m armed => ?_
    exact nomatch unarmed.symm.trans (keeps.ready m armed)
  rcases c.onAlarm_cases n answers script with ⟨undecided, -⟩ | ⟨-, fine, ready, exit⟩ | ⟨-, bad, message, line, exit⟩
  · exact nomatch undecided.symm.trans decided
  · obtain ⟨keeps, quiet, called⟩ := c.openSession_exit script
    rw [exit, called, stays keeps]
    refine ⟨keeps, quiet, decided, ?_, fun _ _ => ⟨fine, ready⟩, ?_, rfl, ?_⟩
    · cases c.sessionCallback <;> simp
    · intro callback message member
      simp at member
    · intro bad
      rw [fine, ready] at bad
      exact bad.elim nofun nofun
  · obtain ⟨keeps, quiet, called⟩ := c.fail_exit script message line
    rw [exit, called, stays keeps]
    refine ⟨keeps, quiet, decided, ?_, ?_, fun _ _ _ => bad, rfl, fun _ => rfl⟩
    · cases c.sessionErrorCallback <;> simp
    · intro callback member
      simp at member

theorem onHandshakeAlarm_wait (c : Client App) (armed : c.handshakeAlarm = some n) :
    c.onHandshakeAlarm false = (c, []) := by
  cases c
  cases armed
  rfl

theorem onHandshakeAlarm_send (c : Client App) (armed : c.handshakeAlarm = some n) :
    c.onHandshakeAlarm true =
      ({ c with handshakeAlarm := none, sessionReadyAlarm := some n }, [.sendRequest n]) := by
  cases c
  cases armed
  rfl

theorem onSessionReadyAlarm_fire (c : Client App) (armed : c.sessionReadyAlarm = some n) (answers : Answers)
    (script : List (Call App)) :
    c.onSessionReadyAlarm answers script =
      let result := c.disarm.onAlarm n answers script
      (result.1, result.2 ++ [.fired ⟨n, answers, callbacks result.2, result.1.sessionReadyAlarm,
        result.1.connected⟩]) := by
  unfold onSessionReadyAlarm
  rw [armed]

theorem disarm_rearm (c : Client App) (armed : c.sessionReadyAlarm = some n) :
    { c.disarm with sessionReadyAlarm := some n } = c := by
  cases c
  cases armed
  rfl

/-- While nothing is known the alarm is armed again. -/
theorem onSessionReadyAlarm_wait (c : Client App) (armed : c.sessionReadyAlarm = some n) (answers : Answers)
    (script : List (Call App)) (undecided : answers.undecided) :
    c.onSessionReadyAlarm answers script = (c, [.fired ⟨n, answers, [], some n, c.connected⟩]) := by
  rw [c.onSessionReadyAlarm_fire armed]
  rcases c.disarm.onAlarm_cases n answers script with
    ⟨-, exit⟩ | ⟨decided, -⟩ | ⟨decided, -⟩
  · rw [exit, c.disarm_rearm armed, ← armed]
    rfl
  · exact nomatch undecided.symm.trans decided
  · exact nomatch undecided.symm.trans decided

end Client

/-- What can still come for an attempt is with the alarms: behind the handshake alarm
everything, behind the session-ready alarm the firings that follow the waiting ones. -/
structure Orderly (trace : List (Effect App)) (c : Client App) : Prop where
  requests : ∀ n, requests n trace ≤ 1
  settles : ∀ n, Settles (firings n trace)
  handshake : ∀ n, c.handshakeAlarm = some n → n ≤ c.attempts ∧ Connection.requests n trace = 0 ∧ firings n trace = []
  ready : ∀ n, c.sessionReadyAlarm = some n → n ≤ c.attempts ∧ Connection.requests n trace = 1 ∧
    ∀ f ∈ firings n trace, Waiting f
  fresh : ∀ n, c.attempts < n → Connection.requests n trace = 0 ∧ firings n trace = []

namespace Orderly

variable {trace : List (Effect App)} {c : Client App}

theorem start : Orderly [] ({} : Client App) where
  requests _ := by simp [Connection.requests]
  settles _ := ⟨[], none, rfl, by simp, by simp⟩
  handshake _ armed := by cases armed
  ready _ armed := by cases armed
  fresh _ _ := ⟨rfl, rfl⟩

theorem quiet (h : Orderly trace c) (keeps : Keeps c c') (quiet : Quiet effects) : Orderly (trace ++ effects) c' where
  requests n := by
    rw [quiet.requests]
    exact h.requests n
  settles n := by
    rw [quiet.firings]
    exact h.settles n
  handshake n armed := by
    rw [quiet.requests, quiet.firings, keeps.attempts]
    exact h.handshake n (keeps.handshake n armed)
  ready n armed := by
    rw [quiet.requests, quiet.firings, keeps.attempts]
    exact h.ready n (keeps.ready n armed)
  fresh n new := by
    rw [quiet.requests, quiet.firings]
    exact h.fresh n (keeps.attempts ▸ new)

theorem connect (h : Orderly trace c) (established : Bool) :
    Orderly (trace ++ (c.connect established).2) (c.connect established).1 := by
  have quiet : Quiet (c.connect established).2 := by
    cases established <;> simp [Client.connect, Quiet, Effect.request?, Effect.firing?]
  have attempts : (c.connect established).1.attempts = c.attempts + 1 := by cases established <;> rfl
  have ready : (c.connect established).1.sessionReadyAlarm = c.sessionReadyAlarm := by cases established <;> rfl
  refine ⟨?_, ?_, ?_, ?_, ?_⟩
  · intro n
    rw [quiet.requests]
    exact h.requests n
  · intro n
    rw [quiet.firings]
    exact h.settles n
  · intro n armed
    rw [quiet.requests, quiet.firings, attempts]
    cases established with
    | true =>
      obtain rfl : c.attempts + 1 = n := Option.some.inj armed
      exact ⟨Nat.le_refl _, h.fresh _ (Nat.lt_succ_self _)⟩
    | false =>
      obtain ⟨old, none⟩ := h.handshake n armed
      exact ⟨Nat.le_succ_of_le old, none⟩
  · intro n armed
    rw [quiet.requests, quiet.firings, attempts]
    obtain ⟨old, rest⟩ := h.ready n (ready ▸ armed)
    exact ⟨Nat.le_succ_of_le old, rest⟩
  · intro n new
    rw [quiet.requests, quiet.firings]
    exact h.fresh n (by omega)

theorem onHandshakeAlarm (h : Orderly trace c) (clientSession : Bool) :
    Orderly (trace ++ (c.onHandshakeAlarm clientSession).2) (c.onHandshakeAlarm clientSession).1 := by
  cases armed : c.handshakeAlarm with
  | none =>
    have idle : c.onHandshakeAlarm clientSession = (c, []) := by simp [Client.onHandshakeAlarm, armed]
    rw [idle, List.append_nil]
    exact h
  | some n =>
  obtain ⟨known, unsent, unfired⟩ := h.handshake n armed
  cases clientSession with
  | false =>
    rw [c.onHandshakeAlarm_wait armed, List.append_nil]
    exact h
  | true =>
    rw [c.onHandshakeAlarm_send armed]
    have sent : ∀ m, Connection.requests m (trace ++ [.sendRequest n]) =
        Connection.requests m trace + if n = m then 1 else 0 := by
      intro m
      rw [requests_append]
      by_cases same : n = m <;> simp [Connection.requests, Effect.request?, same]
    have same : ∀ m, firings m (trace ++ [.sendRequest n]) = firings m trace := by
      intro m
      rw [firings_append]
      exact List.append_nil _
    refine ⟨?_, ?_, fun _ unarmed => (by cases unarmed), ?_, ?_⟩
    · intro m
      rw [sent]
      split
      next here => exact Nat.le_of_eq (by rw [← here, unsent])
      next => exact h.requests m
    · intro m
      rw [same]
      exact h.settles m
    · intro m now
      obtain rfl : n = m := Option.some.inj now
      rw [sent, same, unsent, unfired, if_pos rfl]
      exact ⟨known, rfl, by simp⟩
    · intro m new
      have newer : c.attempts < m := new
      rw [sent, same, if_neg (by omega)]
      exact h.fresh m newer

/-- One more firing of an attempt that has only waited so far. -/
theorem fire (h : Orderly trace c) (f : Firing App) (known : f.attempt ≤ c.attempts)
    (sent : Connection.requests f.attempt trace = 1) (waiting : ∀ g ∈ firings f.attempt trace, Waiting g)
    (kind : Waiting f ∨ Final f ∧ c.sessionReadyAlarm = none) : Orderly (trace ++ [.fired f]) c := by
  have fired : ∀ n, firings n (trace ++ [.fired f]) = firings n trace ++ if f.attempt = n then [f] else [] := by
    intro n
    rw [firings_append]
    by_cases same : f.attempt = n <;> simp [firings, Effect.firing?, same]
  have unsent : ∀ n, Connection.requests n (trace ++ [.fired f]) = Connection.requests n trace := by
    intro n
    rw [requests_append]
    rfl
  refine ⟨?_, ?_, ?_, ?_, ?_⟩
  · intro n
    rw [unsent]
    exact h.requests n
  · intro n
    rw [fired]
    split
    next here =>
      subst here
      exact Settles.concat waiting (kind.imp id And.left)
    next =>
      rw [List.append_nil]
      exact h.settles n
  · intro n armed
    obtain ⟨old, none, empty⟩ := h.handshake n armed
    have other : f.attempt ≠ n := by
      intro same
      rw [← same, sent] at none
      exact absurd none (by decide)
    rw [unsent, fired, if_neg other, empty]
    exact ⟨old, none, rfl⟩
  · intro n armed
    obtain ⟨old, once, waits⟩ := h.ready n armed
    rw [unsent, fired]
    refine ⟨old, once, ?_⟩
    rcases kind with still | ⟨-, unarmed⟩
    · split
      next => exact waiting_concat waits still
      next =>
        rw [List.append_nil]
        exact waits
    · exact nomatch unarmed.symm.trans armed
  · intro n new
    rw [unsent, fired, if_neg (by omega), List.append_nil]
    exact h.fresh n new

theorem onSessionReadyAlarm (h : Orderly trace c) (answers : Answers) (script : List (Call App)) :
    Orderly (trace ++ (c.onSessionReadyAlarm answers script).2) (c.onSessionReadyAlarm answers script).1 := by
  cases armed : c.sessionReadyAlarm with
  | none =>
    have idle : c.onSessionReadyAlarm answers script = (c, []) := by simp [Client.onSessionReadyAlarm, armed]
    rw [idle, List.append_nil]
    exact h
  | some n =>
  obtain ⟨known, sent, waiting⟩ := h.ready n armed
  cases undecided : answers.undecided with
  | true =>
    rw [c.onSessionReadyAlarm_wait armed answers script undecided]
    exact h.fire _ known sent waiting (.inl ⟨undecided, rfl, rfl⟩)
  | false =>
    obtain ⟨keeps, quiet, final⟩ :=
      c.disarm.onAlarm_final rfl n answers script undecided
    have disarmed : Keeps c c.disarm := ⟨rfl, fun _ => id, nofun⟩
    have after := h.quiet (disarmed.trans keeps) quiet
    rw [c.onSessionReadyAlarm_fire armed, ← List.append_assoc]
    refine after.fire _ ?_ ?_ ?_ (.inr ⟨final, ?_⟩)
    · exact Nat.le_trans known (Nat.le_of_eq keeps.attempts.symm)
    · rw [quiet.requests]
      exact sent
    · rw [quiet.firings]
      exact waiting
    · exact final.armed

theorem onSessionClosed (h : Orderly trace c) (errorMessage : String) (script : List (Call App)) :
    Orderly (trace ++ (c.onSessionClosed errorMessage script).2) (c.onSessionClosed errorMessage script).1 := by
  unfold Client.onSessionClosed
  split
  next => simpa using h
  next errorCallback _ =>
  have closed : Keeps c { c with session := none } := ⟨rfl, fun _ => id, fun _ => id⟩
  cases errorCallback with
  | none => exact h.quiet closed (by simp [Quiet, Effect.request?, Effect.firing?])
  | some callback =>
    obtain ⟨invoked, -⟩ := invoked_quiet { c with session := none } script (.sessionError callback errorMessage)
    refine h.quiet (closed.trans (Client.runScript_keeps _ script)) ?_
    exact List.forall_mem_cons.mpr ⟨⟨rfl, rfl⟩, invoked⟩

theorem step (h : Orderly trace c) (event : Event App) : Orderly (trace ++ (c.step event).2) (c.step event).1 := by
  cases event with
  | connect established => exact h.connect established
  | call action =>
    exact h.quiet (c.call_keeps action) fun e member => ⟨(c.call_quiet action e member).1, (c.call_quiet action e member).2.1⟩
  | handshakeAlarm clientSession => exact h.onHandshakeAlarm clientSession
  | sessionReadyAlarm answers script => exact h.onSessionReadyAlarm answers script
  | onSessionClosed errorMessage script => exact h.onSessionClosed errorMessage script

end Orderly

/-- `client_` is set while an alarm is armed, so both delegates can ask it for the session. -/
def Backed (c : Client App) : Prop :=
  c.handshakeAlarm.isSome ∨ c.sessionReadyAlarm.isSome → c.client

theorem Backed.runScript {c : Client App} (backed : Backed c) (script : List (Call App)) :
    Backed (c.runScript script).1 := by
  refine Machine.run_invariant Backed (fun now action backed => ?_) backed script
  cases action with
  | disconnect => exact fun armed => absurd armed (by simp [Client.call, Client.disconnect])
  | _ => exact backed

theorem Backed.onAlarm {c : Client App} (backed : Backed c) (set : c.client) (n : Nat) (answers : Answers)
    (script : List (Call App)) : Backed (c.onAlarm n answers script).1 := by
  rcases c.onAlarm_cases n answers script with ⟨-, exit⟩ | ⟨-, -, -, exit⟩ | ⟨-, -, message, line, exit⟩
  · rw [exit]
    exact fun _ => set
  · have created : Backed c.newClientSession := backed
    rw [exit, Client.openSession]
    cases c.sessionCallback with
    | none => exact created
    | some callback => exact created.runScript script
  · rw [exit, Client.fail]
    cases c.sessionErrorCallback with
    | none => exact backed
    | some callback => exact backed.runScript script

theorem Backed.step {c : Client App} (backed : Backed c) (event : Event App) : Backed (c.step event).1 := by
  cases event with
  | connect established => cases established <;> exact fun _ => rfl
  | call action => exact backed.runScript [action]
  | handshakeAlarm clientSession =>
    change Backed (c.onHandshakeAlarm clientSession).1
    unfold Client.onHandshakeAlarm
    split
    next => exact backed
    next armed =>
      have set : c.client := backed (.inl (by simp [armed]))
      cases clientSession <;> exact fun _ => set
  | sessionReadyAlarm answers script =>
    change Backed (c.onSessionReadyAlarm answers script).1
    cases armed : c.sessionReadyAlarm with
    | none => simpa [Client.onSessionReadyAlarm, armed] using backed
    | some n =>
      have set : c.client := backed (.inr (by simp [armed]))
      have disarmed : Backed c.disarm := fun _ => set
      rw [c.onSessionReadyAlarm_fire armed]
      exact disarmed.onAlarm set n answers script
  | onSessionClosed errorMessage script =>
    change Backed (c.onSessionClosed errorMessage script).1
    unfold Client.onSessionClosed
    split
    next => exact backed
    next errorCallback _ =>
    have closed : Backed { c with session := none } := backed
    cases errorCallback with
    | none => exact closed
    | some callback => exact closed.runScript script

theorem backed_run (events : List (Event App)) : Backed (Machine.run Client.step ({} : Client App) events).1 :=
  Machine.run_invariant Backed (fun _ event backed => backed.step event) (by simp [Backed]) events

/-- In every run and for every attempt the request is sent at most once, and the firings of
the session-ready alarm are some that wait and then at most one outcome. -/
theorem one_outcome (events : List (Event App)) (n : Nat) :
    let trace := (Machine.run Client.step ({} : Client App) events).2
    requests n trace ≤ 1 ∧ Settles (firings n trace) := by
  have orderly : Orderly (Machine.run Client.step ({} : Client App) events).2 (Machine.run Client.step {} events).1 :=
    Machine.run_trace Orderly (fun _ _ event orderly => orderly.step event) .start events
  exact ⟨orderly.requests n, orderly.settles n⟩

end WebTransport.Connection

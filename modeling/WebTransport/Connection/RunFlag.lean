import WebTransport.Connection.Outcome
import WebTransport.Theory.Moments

/-! What `connected_` follows. The trace has the occurrences that begin and end a connection;
the flag is compared with the latest of them after every event of a run. -/
namespace WebTransport.Connection

variable {App : Type}

def Answers.failed (a : Answers) : Bool := a.error || (!a.ready && a.headersDecompressed)

def Effect.occurrence? : Effect App → Option Bool
  | .connected _ => some true
  | .disconnected | .sessionClosed => some false
  | .fired firing => if firing.answers.failed then some false else none
  | _ => none

def latest (trace : List (Effect App)) : Option Bool :=
  (trace.filterMap Effect.occurrence?).getLast?

/-- The flag is what the latest occurrence says, and so is whether `runEventLoop` makes
another pass. -/
def Tracks (trace : List (Effect App)) (c : Client App) : Prop :=
  ∀ alive, latest trace = some alive → c.connected = alive ∧
    ∀ pass rest, c.runEventLoop (pass :: rest) =
      if alive then (Machine.run Client.step c pass).1.runEventLoop rest else (c, pass :: rest)

/-- A connection is established before anything has cleared the flag. The peer closes an
open session only when the flag is cleared already or the session's callback disconnects. -/
def Client.Kept (c : Client App) : Event App → Prop
  | .connect established => established → c.connected
  | .onSessionClosed _ script => ∀ errorCallback, c.session = some errorCallback →
      c.connected = false ∨ errorCallback.isSome ∧ .disconnect ∈ script
  | _ => True

theorem latest_append (trace effects : List (Effect App)) :
    latest (trace ++ effects) = (latest effects).or (latest trace) := by
  rw [latest, List.filterMap_append, List.getLast?_append]
  rfl

theorem tracks_iff (trace : List (Effect App)) (c : Client App) :
    Tracks trace c ↔ ∀ alive, latest trace = some alive → c.connected = alive := by
  refine forall_congr' fun alive => imp_congr_right fun _ => ⟨And.left, fun flag => ⟨flag, ?_⟩⟩
  intro pass rest
  rw [Client.runEventLoop, flag]

theorem Tracks.idle {trace effects : List (Effect App)} {c c' : Client App} (tracks : Tracks trace c)
    (none : latest effects = none) (same : c'.connected = c.connected) : Tracks (trace ++ effects) c' := by
  rw [tracks_iff, latest_append, none, same]
  exact (tracks_iff trace c).mp tracks

theorem tracks_append_iff {effects : List (Effect App)} (trace : List (Effect App)) (c : Client App)
    (last : latest effects = some alive) : Tracks (trace ++ effects) c ↔ c.connected = alive := by
  rw [tracks_iff, latest_append, last]
  simp

namespace Client

/-- A script either disconnects or leaves the flag alone. -/
theorem runScript_flag (c : Client App) (script : List (Call App)) :
    (.disconnect ∈ script ∧ latest (c.runScript script).2 = some false ∧ (c.runScript script).1.connected = false) ∨
      (.disconnect ∉ script ∧ latest (c.runScript script).2 = none ∧
        (c.runScript script).1.connected = c.connected) := by
  induction script generalizing c with
  | nil => exact .inr ⟨by simp, rfl, rfl⟩
  | cons action rest ih =>
    have append : c.runScript (action :: rest) =
        (((c.call action).1.runScript rest).1, (c.call action).2 ++ ((c.call action).1.runScript rest).2) :=
      Machine.run_cons _ _ _
    rw [append, latest_append]
    rcases ih (c.call action).1 with ⟨found, last, flag⟩ | ⟨absent, last, flag⟩
    · rw [last]
      exact .inl ⟨List.mem_cons_of_mem _ found, rfl, flag⟩
    · rw [last, flag]
      cases action with
      | disconnect => exact .inl ⟨by simp, rfl, rfl⟩
      | _ => exact .inr ⟨by simpa using absent, rfl, rfl⟩

end Client

theorem failed_of_decided {answers : Answers} (decided : answers.undecided = false)
    (bad : answers.error ∨ answers.ready = false) : answers.failed := by
  unfold Answers.undecided at decided
  unfold Answers.failed
  rcases bad with error | unready
  · simp [error]
  · cases error : answers.error <;> simp_all

theorem latest_fired (f : Firing App) :
    latest [.fired f] = if f.answers.failed then some false else none := by
  cases failed : f.answers.failed <;> simp [latest, Effect.occurrence?, failed]

namespace Tracks

variable {trace : List (Effect App)} {c : Client App}

theorem openSession (tracks : Tracks trace c) (script : List (Call App)) :
    Tracks (trace ++ (c.openSession script).2) (c.openSession script).1 := by
  unfold Client.openSession
  cases c.sessionCallback with
  | none => exact tracks.idle rfl rfl
  | some callback =>
    have same : latest (.callback (.sessionOpen callback) :: (c.newClientSession.runScript script).2) =
        latest (c.newClientSession.runScript script).2 := rfl
    rcases c.newClientSession.runScript_flag script with ⟨-, last, flag⟩ | ⟨-, last, flag⟩
    · exact (tracks_append_iff trace _ (same.trans last)).mpr flag
    · exact tracks.idle (same.trans last) flag

theorem onSessionReadyAlarm (tracks : Tracks trace c) (answers : Answers) (script : List (Call App)) :
    Tracks (trace ++ (c.onSessionReadyAlarm answers script).2) (c.onSessionReadyAlarm answers script).1 := by
  cases armed : c.sessionReadyAlarm with
  | none =>
    have idle : c.onSessionReadyAlarm answers script = (c, []) := by simp [Client.onSessionReadyAlarm, armed]
    rw [idle]
    exact tracks.idle rfl rfl
  | some n =>
    have disarmed : Tracks trace c.disarm := (tracks_iff trace c.disarm).mpr ((tracks_iff trace c).mp tracks)
    rw [c.onSessionReadyAlarm_fire armed, ← List.append_assoc]
    rcases c.disarm.onAlarm_cases n answers script with
      ⟨undecided, exit⟩ | ⟨-, fine, ready, exit⟩ | ⟨decided, bad, message, line, exit⟩
    · have open_ : answers.failed = false := by
        unfold Answers.undecided at undecided
        unfold Answers.failed
        simp_all
      rw [exit, List.append_nil]
      exact disarmed.idle ((latest_fired _).trans (if_neg (by simp [open_]))) rfl
    · have open_ : answers.failed = false := by simp [Answers.failed, fine, ready]
      rw [exit]
      exact (disarmed.openSession script).idle ((latest_fired _).trans (if_neg (by simp [open_]))) rfl
    · have failed := failed_of_decided decided bad
      rw [exit]
      refine (tracks_append_iff _ _ ((latest_fired _).trans (if_pos failed))).mpr ?_
      exact c.disarm.fail_connected script message line

/-- The report of a close leaves the flag to the session's callback. -/
theorem onSessionClosed_iff (tracks : Tracks trace c) (errorMessage : String) (script : List (Call App)) :
    Tracks (trace ++ (c.onSessionClosed errorMessage script).2) (c.onSessionClosed errorMessage script).1 ↔
      c.Kept (.onSessionClosed errorMessage script) := by
  unfold Client.onSessionClosed Client.Kept
  cases open_ : c.session with
  | none => exact iff_of_true (tracks.idle rfl rfl) (by simp)
  | some errorCallback =>
  cases errorCallback with
  | none =>
    have last : latest ([.sessionClosed, .print ("Session closed: " ++ errorMessage)] : List (Effect App)) =
        some false := rfl
    exact (tracks_append_iff trace _ last).trans (by simp)
  | some callback =>
    have closed : ∀ effects : List (Effect App),
        latest (.sessionClosed :: .callback (.sessionError callback errorMessage) :: effects) =
          (latest effects).or (some false) := fun effects => latest_append [_, _] effects
    have last := closed (Client.runScript { c with session := none } script).2
    rcases Client.runScript_flag { c with session := none } script with
      ⟨found, latest, flag⟩ | ⟨absent, latest, flag⟩
    · rw [latest] at last
      refine iff_of_true ((tracks_append_iff trace _ last).mpr flag) ?_
      intro _ same
      cases same
      exact .inr ⟨rfl, found⟩
    · rw [latest] at last
      refine (tracks_append_iff trace _ last).trans ?_
      rw [flag]
      simp [absent]

theorem step_iff (tracks : Tracks trace c) (event : Event App) :
    Tracks (trace ++ (c.step event).2) (c.step event).1 ↔ c.Kept event := by
  cases event with
  | connect established =>
    cases established with
    | true =>
      have last : latest (c.connect true).2 = some true := rfl
      exact (tracks_append_iff trace _ last).trans ⟨fun flag _ => flag, fun kept => kept rfl⟩
    | false => exact iff_of_true (tracks.idle rfl rfl) nofun
  | call action =>
    refine iff_of_true ?_ trivial
    cases action with
    | disconnect =>
      have last : latest c.disconnect.2 = some false := rfl
      exact (tracks_append_iff trace _ last).mpr rfl
    | _ => exact tracks.idle rfl rfl
  | handshakeAlarm clientSession =>
    refine iff_of_true ?_ trivial
    cases armed : c.handshakeAlarm with
    | none =>
      have idle : c.onHandshakeAlarm clientSession = (c, []) := by simp [Client.onHandshakeAlarm, armed]
      rw [Client.step, idle]
      exact tracks.idle rfl rfl
    | some n =>
      cases clientSession with
      | true =>
        rw [Client.step, c.onHandshakeAlarm_send armed]
        exact tracks.idle rfl rfl
      | false =>
        rw [Client.step, c.onHandshakeAlarm_wait armed]
        exact tracks.idle rfl rfl
  | sessionReadyAlarm answers script => exact iff_of_true (tracks.onSessionReadyAlarm answers script) trivial
  | onSessionClosed errorMessage script => exact tracks.onSessionClosed_iff errorMessage script

end Tracks

/-- After every event of every run the flag says what the latest lifecycle occurrence says,
exactly when each event was one that keeps it so. -/
theorem connected_tracks_iff (events : List (Event App)) :
    (∀ past later, events = past ++ later →
        let now := Machine.run Client.step ({} : Client App) past
        Tracks now.2 now.1) ↔
      Machine.Licensed (fun past event => (Machine.run Client.step ({} : Client App) past).1.Kept event) events := by
  change Machine.Always Client.step ({} : Client App) events (fun _ => Tracks) ↔ _
  apply Machine.always_iff (fun _ _ _ => True) (fun _ => Client.Kept)
  · exact fun _ _ _ _ _ => trivial
  · exact fun _ _ _ event _ tracks => tracks.step_iff event
  · trivial
  · exact fun _ none => nomatch none

/-- A reconnect: the flag stays down, and `runEventLoop` returns without a pass. -/
theorem reconnect_unserved :
    ¬ let now := Machine.run Client.step ({} : Client Nat) [.connect true, .call .disconnect, .connect true]
      Tracks now.2 now.1 := by
  intro tracks
  exact absurd (tracks true rfl).1 (by decide)

end WebTransport.Connection

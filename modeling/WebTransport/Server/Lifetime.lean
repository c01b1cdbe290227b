import WebTransport.Theory.Ownership

/-! `webtransport::Server` from its construction to the end of its block: `InitializeServer`,
`Listen` and the destructors, as programs over the library calls that make, use and delete
what a server consists of. Objects are numbered by the call of `InitializeServer` that makes
them; a null `unique_ptr` is `none`. -/
namespace WebTransport.Lifetime

open Ownership Discipline
open Calls.Program (yields_call_bind yields_bind)

inductive Question where
  | newBackend (backend : Nat)
  | deleteBackend (backend : Nat)
  | setServer (backend server : Nat)
  | setSocketFactory (backend : Nat) (socketFactory : Option Nat)
  -- `LoadPemFromStream`: whether there were certificates, and a key
  | loadCertificates
  | loadPrivateKey
  | newQuicServer (server : Nat)
  | freeQuicServer (server : Nat)
  | createEventLoop (eventLoop : Nat)
  | runEventLoopOnce (eventLoop : Nat)
  | deleteEventLoop (eventLoop : Nat)
  | newSocketFactory (socketFactory eventLoop : Nat)
  | deleteSocketFactory (socketFactory : Nat)
  | newDispatcher (dispatcher eventLoop backend : Nat)
  | initializeWithWriter (dispatcher fd : Nat)
  | deleteDispatcher (dispatcher : Nat)
  | createSocket
  | enableDroppedPacketCount (fd : Nat)
  | enableReceiveTimestamp (fd : Nat)
  | bind (fd : Nat)
  | fromSocket (fd : Nat)
  | registerSocket (eventLoop fd : Nat)
  | unregisterSocket (eventLoop : Nat) (fd : Option Nat)
  | close (fd : Option Nat)
  deriving DecidableEq, Repr

abbrev Answer : Question → Type
  | .createSocket => Option Nat
  | .loadCertificates | .loadPrivateKey | .enableDroppedPacketCount _ | .bind _ | .fromSocket _ => Bool
  | .registerSocket .. | .unregisterSocket .. => Bool
  | _ => Unit

abbrev Call : Type := Calls.Call Answer

abbrev Script : Type → Type := Calls.Program Question Answer

abbrev call (question : Question) : Script (Answer question) := Calls.Program.call question

structure QuicServer where
  number : Nat
  -- not owned
  backend : Nat
  eventLoop : Option Nat := none
  socketFactory : Option Nat := none
  dispatcher : Option Nat := none
  fd : Option Nat := none
  deriving DecidableEq, Repr

structure Server where
  port : UInt16
  server : Option QuicServer := none
  backend : Option Nat := none
  initialized : Bool := false
  made : Nat := 0
  deriving DecidableEq, Repr

/-- `reset` and the destructor of a `unique_ptr`. -/
def reset (delete : Nat → Script Unit) : Option Nat → Script Unit
  | none => pure ()
  | some object => delete object

namespace QuicServer

/-- The end of `CreateUDPSocketAndListen`, with a socket that is bound. -/
def register (q : QuicServer) (eventLoop fd : Nat) : Script (Bool × QuicServer) := do
  match ← call (.registerSocket eventLoop fd) with
  | false => pure (false, q)
  | true =>
    call (.newDispatcher q.number eventLoop q.backend)
    call (.initializeWithWriter q.number fd)
    pure (true, { q with dispatcher := some q.number })

def createUDPSocketAndListen (q : QuicServer) (port : UInt16) : Script (Bool × QuicServer) := do
  call (.createEventLoop q.number)
  call (.newSocketFactory q.number q.number)
  call (.setSocketFactory q.backend (some q.number))
  let q := { q with eventLoop := some q.number, socketFactory := some q.number }
  match ← call .createSocket with
  | none => pure (false, q)
  | some fd =>
    let q := { q with fd := some fd }
    let _ ← call (.enableDroppedPacketCount fd)
    call (.enableReceiveTimestamp fd)
    match ← call (.bind fd) with
    | false => pure (false, q)
    | true =>
      -- only which port is kept depends on the answer
      if port = 0 then
        let _ ← call (.fromSocket fd)
        q.register q.number fd
      else
        q.register q.number fd

def unregister (q : QuicServer) : Option Nat → Script Unit
  | none => pure ()
  | some eventLoop => do
    let _ ← call (.unregisterSocket eventLoop q.fd)
    pure ()

/-- `~QuicServer`, then its members from the last to the first. -/
def destroy (q : QuicServer) : Script Unit := do
  q.unregister q.eventLoop
  call (.close q.fd)
  call (.setSocketFactory q.backend none)
  reset (call <| .deleteDispatcher ·) q.dispatcher
  reset (call <| .deleteSocketFactory ·) q.socketFactory
  reset (call <| .deleteEventLoop ·) q.eventLoop
  call (.freeQuicServer q.number)

def destroy? : Option QuicServer → Script Unit
  | none => pure ()
  | some q => q.destroy

end QuicServer

namespace Server

/-- `false` is `exit(1)`. -/
def initializeServer (s : Server) : Script (Bool × Server) := do
  call (.newBackend s.made)
  reset (call <| .deleteBackend ·) s.backend
  let s := { s with backend := some s.made }
  match ← call .loadCertificates with
  | false => pure (false, s)
  | true =>
    match ← call .loadPrivateKey with
    | false => pure (false, s)
    | true =>
      call (.newQuicServer s.made)
      QuicServer.destroy? s.server
      call (.setServer s.made s.made)
      let (listening, q) ← QuicServer.createUDPSocketAndListen { number := s.made, backend := s.made } s.port
      pure (listening, { s with server := some q, initialized := listening, made := s.made + 1 })

/-- `HandleEventsForever`, watched for some turns. -/
def handleEvents (eventLoop : Nat) : Nat → Script Unit
  | 0 => pure ()
  | turns + 1 => do
    call (.runEventLoopOnce eventLoop)
    handleEvents eventLoop turns

def destroy (s : Server) : Script Unit := do
  reset (call <| .deleteBackend ·) s.backend
  QuicServer.destroy? s.server

end Server

inductive Operation where
  | initializeServer
  | listen (turns : Nat)
  deriving DecidableEq, Repr

inductive Ended where
  | destroyed
  | exited
  -- `Listen` does not return
  | listening
  deriving DecidableEq, Repr

def block (s : Server) : List Operation → Script Ended
  | [] => do
    s.destroy
    pure .destroyed
  | .initializeServer :: rest => do
    let (listening, s) ← s.initializeServer
    if listening then block s rest else pure .exited
  | .listen turns :: rest =>
    match s.initialized, s.server.bind (·.eventLoop) with
    | true, some eventLoop => do
      Server.handleEvents eventLoop turns
      pure .listening
    | _, _ => block s rest

inductive Handle where
  | backend (number : Nat)
  | quicServer (number : Nat)
  | eventLoop (number : Nat)
  | socketFactory (number : Nat)
  | dispatcher (number : Nat)
  | socket (fd : Nat)
  deriving DecidableEq, Repr

/-- What the calls do with the objects they are given and make. A `QuicServer` keeps a pointer
to its backend, but does not own it. -/
def discipline : Discipline Answer Handle where
  uses
    | .setServer backend server => [.backend backend, .quicServer server]
    | .setSocketFactory backend _ => [.backend backend]
    | .runEventLoopOnce eventLoop | .newSocketFactory _ eventLoop => [.eventLoop eventLoop]
    | .newDispatcher _ eventLoop backend => [.eventLoop eventLoop, .backend backend]
    | .initializeWithWriter dispatcher fd => [.dispatcher dispatcher, .socket fd]
    | .enableDroppedPacketCount fd | .enableReceiveTimestamp fd | .bind fd | .fromSocket fd => [.socket fd]
    | .registerSocket eventLoop fd => [.eventLoop eventLoop, .socket fd]
    | .unregisterSocket eventLoop _ => [.eventLoop eventLoop]
    | _ => []
  releases
    | .deleteBackend backend => [.backend backend]
    | .freeQuicServer server => [.quicServer server]
    | .deleteEventLoop eventLoop => [.eventLoop eventLoop]
    | .deleteSocketFactory socketFactory => [.socketFactory socketFactory]
    | .deleteDispatcher dispatcher => [.dispatcher dispatcher]
    | .close fd => fd.toList.map .socket
    | _ => []
  acquires
    | .newBackend backend, _ => [.backend backend]
    | .newQuicServer server, _ => [.quicServer server]
    | .createEventLoop eventLoop, _ => [.eventLoop eventLoop]
    | .newSocketFactory socketFactory _, _ => [.socketFactory socketFactory]
    | .newDispatcher dispatcher .., _ => [.dispatcher dispatcher]
    | .createSocket, fd => fd.toList.map .socket
    | _, _ => []

def held (handle : Nat → Handle) (member : Option Nat) : Multiset Handle := member.toList.map handle

@[simp] theorem held_none (handle : Nat → Handle) : held handle none = 0 := rfl

@[simp] theorem held_some (handle : Nat → Handle) (number : Nat) :
    held handle (some number) = {handle number} := rfl

def QuicServer.owned (q : QuicServer) : Multiset Handle :=
  {.quicServer q.number} + held .eventLoop q.eventLoop + held .socketFactory q.socketFactory +
    held .dispatcher q.dispatcher + held .socket q.fd

def Server.owned (s : Server) : Multiset Handle :=
  held .backend s.backend + (s.server.map QuicServer.owned).getD 0

theorem register_manages (number backend fd : Nat) :
    discipline.Manages
      ({.backend backend} + QuicServer.owned ⟨number, backend, some number, some number, none, some fd⟩)
      (QuicServer.register ⟨number, backend, some number, some number, none, some fd⟩ number fd)
      (fun result => {.backend backend} + result.2.owned) := by
  unfold QuicServer.register
  apply Manages.seq (Manages.use (by simp [discipline, QuicServer.owned]) rfl fun _ => rfl)
  rintro (_ | _)
  · exact Manages.pure rfl
  · dsimp only
    apply Manages.seq (Manages.ask (by simp [discipline, QuicServer.owned]) rfl)
    intro _
    apply Manages.seq (Manages.use (by simp [discipline, QuicServer.owned]) rfl fun _ => rfl)
    intro _
    exact Manages.pure (by simp [discipline, QuicServer.owned, -Multiset.singleton_add]; abel)

/-- With the backend that it was made for, whatever the answers are. -/
theorem createUDPSocketAndListen_manages (number backend : Nat) (port : UInt16) :
    discipline.Manages ({.backend backend} + {.quicServer number})
      (QuicServer.createUDPSocketAndListen { number, backend } port)
      (fun result => {.backend backend} + result.2.owned) := by
  unfold QuicServer.createUDPSocketAndListen
  apply Manages.seq (Manages.ask (by simp [discipline]) rfl)
  intro _
  apply Manages.seq (Manages.ask (by simp [discipline]) rfl)
  intro _
  apply Manages.seq (Manages.use (by simp [discipline]) rfl fun _ => rfl)
  intro _
  apply Manages.seq (Manages.ask (by simp [discipline]) rfl)
  rintro (_ | fd)
  · exact Manages.pure (by simp [discipline, QuicServer.owned, -Multiset.singleton_add]; abel)
  · dsimp only
    apply Manages.seq (Manages.use (by simp [discipline]) rfl fun _ => rfl)
    intro _
    apply Manages.seq (Manages.use (by simp [discipline]) rfl fun _ => rfl)
    intro _
    apply Manages.seq (Manages.use (by simp [discipline]) rfl fun _ => rfl)
    rintro (_ | _)
    · exact Manages.pure (by simp [discipline, QuicServer.owned, -Multiset.singleton_add]; abel)
    · have bound : {.backend backend} + {.quicServer number} + {.eventLoop number} + {.socketFactory number} +
          {.socket fd} = ({.backend backend} : Multiset Handle) +
            QuicServer.owned ⟨number, backend, some number, some number, none, some fd⟩ := by
        simp [QuicServer.owned, -Multiset.singleton_add]
        abel
      have registered := (register_manages number backend fd).of_eq bound
      dsimp only
      split
      · apply Manages.seq (Manages.use (by simp [discipline]) rfl fun _ => rfl)
        exact fun _ => registered
      · exact registered

structure Fresh (s : Server) : Prop where
  server : s.server = none
  backend : s.backend = none
  initialized : s.initialized = false

structure Ready (s : Server) (q : QuicServer) : Prop where
  server : s.server = some q
  backend : s.backend = some q.backend
  initialized : s.initialized = true
  before : q.backend < s.made
  listening : q.eventLoop.isSome

variable {s : Server} {q : QuicServer} {log before later : List Call} {operations : List Operation} {ended : Ended}

theorem reset_none {α : Type} (delete : Nat → Script Unit) (rest : Unit → Script α) :
    reset delete none >>= rest = rest () := rfl

theorem destroy?_none {α : Type} (rest : Unit → Script α) : QuicServer.destroy? none >>= rest = rest () := rfl

theorem initializeServer_manages (fresh : Fresh s) :
    discipline.Manages 0 s.initializeServer (fun result => result.2.owned) := by
  obtain ⟨port, server, backend, initialized, made⟩ := s
  obtain ⟨rfl, rfl, rfl⟩ := fresh
  unfold Server.initializeServer
  apply Manages.seq (Manages.acquire rfl rfl)
  intro _
  rw [reset_none]
  apply Manages.seq (Manages.use (by simp [discipline]) rfl fun _ => rfl)
  rintro (_ | _)
  · exact Manages.pure (by simp [discipline, Server.owned])
  · dsimp only
    apply Manages.seq (Manages.use (by simp [discipline]) rfl fun _ => rfl)
    rintro (_ | _)
    · exact Manages.pure (by simp [discipline, Server.owned])
    · dsimp only
      apply Manages.seq (Manages.ask (by simp [discipline]) rfl)
      intro _
      rw [destroy?_none]
      apply Manages.seq (Manages.use (by simp [discipline]) rfl fun _ => rfl)
      intro _
      apply Manages.seq (createUDPSocketAndListen_manages made made port)
      intro result
      exact Manages.pure (by simp [Server.owned])

def Question.makesServer : Question → Bool
  | .newQuicServer _ => true
  | _ => false

def servers (log : List Call) : Nat := log.countP fun call => call.1.makesServer

@[simp] theorem servers_nil : servers [] = 0 := rfl

@[simp] theorem servers_cons (question : Question) (answer : Answer question) (later : List Call) :
    servers (⟨question, answer⟩ :: later) = servers later + if question.makesServer then 1 else 0 :=
  List.countP_cons

@[simp] theorem servers_append (first second : List Call) :
    servers (first ++ second) = servers first + servers second :=
  List.countP_append

theorem register_yields {eventLoop fd : Nat} {result : Bool × QuicServer}
    (yields : (q.register eventLoop fd).Yields log result) :
    servers log = 0 ∧ result.2.backend = q.backend ∧ result.2.eventLoop = q.eventLoop := by
  unfold QuicServer.register at yields
  obtain ⟨registered, later, rfl, yields⟩ := yields
  cases registered with
  | false =>
    obtain ⟨rfl, rfl⟩ := yields
    exact ⟨rfl, rfl, rfl⟩
  | true =>
    obtain ⟨_, later, rfl, _, later', rfl, rfl, rfl⟩ := yields
    exact ⟨rfl, rfl, rfl⟩

theorem createUDPSocketAndListen_yields {port : UInt16} {result : Bool × QuicServer}
    (yields : (q.createUDPSocketAndListen port).Yields log result) :
    servers log = 0 ∧ result.2.backend = q.backend ∧ result.2.eventLoop = some q.number := by
  unfold QuicServer.createUDPSocketAndListen at yields
  obtain ⟨_, _, rfl, _, _, rfl, _, _, rfl, fd, later, rfl, yields⟩ := yields
  cases fd with
  | none =>
    obtain ⟨rfl, rfl⟩ := yields
    exact ⟨rfl, rfl, rfl⟩
  | some fd =>
    obtain ⟨_, _, rfl, _, _, rfl, bound, later, rfl, yields⟩ := yields
    cases bound with
    | false =>
      obtain ⟨rfl, rfl⟩ := yields
      exact ⟨rfl, rfl, rfl⟩
    | true =>
      dsimp only at yields
      split at yields
      · obtain ⟨_, later, rfl, yields⟩ := yields
        obtain ⟨none, backend, eventLoop⟩ := register_yields yields
        exact ⟨none, backend, eventLoop⟩
      · obtain ⟨none, backend, eventLoop⟩ := register_yields yields
        exact ⟨none, backend, eventLoop⟩

theorem initializeServer_yields (fresh : Fresh s) {result : Bool × Server}
    (yields : s.initializeServer.Yields log result) :
    servers log ≤ 1 ∧ (result.1 = true → servers log = 1 ∧ ∃ q, Ready result.2 q) := by
  obtain ⟨port, server, backend, initialized, made⟩ := s
  obtain ⟨rfl, rfl, rfl⟩ := fresh
  unfold Server.initializeServer at yields
  rw [reset_none, yields_call_bind] at yields
  obtain ⟨_, _, rfl, yields⟩ := yields
  rw [yields_call_bind] at yields
  obtain ⟨certificates, _, rfl, yields⟩ := yields
  cases certificates with
  | false =>
    obtain ⟨rfl, rfl⟩ := yields
    exact ⟨Nat.zero_le _, nofun⟩
  | true =>
    rw [yields_call_bind] at yields
    obtain ⟨key, _, rfl, yields⟩ := yields
    cases key with
    | false =>
      obtain ⟨rfl, rfl⟩ := yields
      exact ⟨Nat.zero_le _, nofun⟩
    | true =>
      rw [yields_call_bind] at yields
      obtain ⟨_, _, rfl, yields⟩ := yields
      rw [destroy?_none, yields_call_bind] at yields
      obtain ⟨_, _, rfl, yields⟩ := yields
      rw [yields_bind] at yields
      obtain ⟨first, ⟨listening, q⟩, second, rfl, created, rfl, rfl⟩ := yields
      obtain ⟨none, backend, eventLoop⟩ := createUDPSocketAndListen_yields created
      dsimp only at backend eventLoop
      constructor
      · simp [none, Question.makesServer]
      · rintro rfl
        refine ⟨by simp [none, Question.makesServer], q, rfl, ?_, rfl, ?_, ?_⟩
        · exact congrArg some backend.symm
        · exact backend ▸ Nat.lt_succ_self made
        · exact eventLoop ▸ rfl

theorem destroy_yields (yields : q.destroy.Yields log done) :
    ∃ first later, log = first ++ ⟨.setSocketFactory q.backend none, ()⟩ :: later ∧
      discipline.acquired first = [] := by
  unfold QuicServer.destroy at yields
  rw [yields_bind] at yields
  obtain ⟨first, _, _, rfl, unregistered, yields⟩ := yields
  rw [yields_call_bind] at yields
  obtain ⟨_, _, rfl, yields⟩ := yields
  rw [yields_call_bind] at yields
  obtain ⟨_, later, rfl, -⟩ := yields
  refine ⟨first ++ [⟨.close q.fd, ()⟩], later, by simp, ?_⟩
  cases listening : q.eventLoop with
  | none =>
    rw [listening] at unregistered
    obtain ⟨rfl, -⟩ := unregistered
    rfl
  | some eventLoop =>
    rw [listening, QuicServer.unregister, yields_call_bind] at unregistered
    obtain ⟨_, _, rfl, rfl, -⟩ := unregistered
    rfl

/-- If the backend was deleted before, the destructor calls it in vain. -/
theorem dangling (before : List Call) {owned after : Multiset Handle} (yields : q.destroy.Yields log done)
    (gone : owned.count (.backend q.backend) + (discipline.acquired before).count (.backend q.backend) ≤
      (discipline.released before).count (.backend q.backend)) :
    ¬ discipline.Runs owned (before ++ (log ++ later)) after := by
  intro runs
  obtain ⟨first, second, rfl, nothing⟩ := destroy_yields yields
  have same : before ++ (first ++ ⟨.setSocketFactory q.backend none, ()⟩ :: second ++ later) =
      (before ++ first) ++ ⟨.setSocketFactory q.backend none, ()⟩ :: (second ++ later) := by simp
  rw [same] at runs
  have touched : Handle.backend q.backend ∈ discipline.touches (.setSocketFactory q.backend none) := by
    simp [discipline, touches]
  have counted := runs.count_touched touched
  rw [released, acquired, List.flatMap_append, List.flatMap_append, List.count_append, List.count_append] at counted
  rw [released, acquired] at gone
  rw [acquired] at nothing
  rw [nothing, List.count_nil] at counted
  omega

theorem count_owned (ready : Ready s q) : s.owned.count (.backend q.backend) = 1 := by
  have others (handle : Nat → Handle) (member : Option Nat)
      (apart : ∀ number, handle number ≠ .backend q.backend) :
      (held handle member).count (.backend q.backend) = 0 := by
    cases member with
    | none => rfl
    | some number => exact Multiset.count_eq_zero.mpr (by simpa using (apart number).symm)
  simp [Server.owned, ready.server, ready.backend, QuicServer.owned, others]

theorem handleEvents_manages {owned : Multiset Handle} {eventLoop : Nat} (there : .eventLoop eventLoop ∈ owned)
    (turns : Nat) : discipline.Manages owned (Server.handleEvents eventLoop turns) (fun _ => owned) := by
  induction turns with
  | zero => exact Manages.pure rfl
  | succ turns ih =>
    apply Manages.seq (Manages.use (by simpa [discipline] using there) rfl fun _ => rfl)
    exact fun _ => ih

theorem handleEvents_servers {eventLoop turns : Nat}
    (yields : (Server.handleEvents eventLoop turns).Yields log done) : servers log = 0 := by
  induction turns generalizing log with
  | zero =>
    obtain ⟨rfl, -⟩ := yields
    rfl
  | succ turns ih =>
    rw [Server.handleEvents, yields_call_bind] at yields
    obtain ⟨_, later, rfl, yields⟩ := yields
    simp [ih yields, Question.makesServer]

/-- A new backend takes the place of the old one. -/
theorem backend_replaced {old new : Nat} {others after : Multiset Handle}
    (rest : discipline.Runs (others + {.backend new}) later after) :
    discipline.Runs ({.backend old} + others) (⟨.newBackend new, ()⟩ :: ⟨.deleteBackend old, ()⟩ :: later) after := by
  refine ⟨{.backend old} + others + {.backend new}, ⟨by simp [discipline], {.backend old} + others, ?_, rfl⟩,
    others + {.backend new}, ⟨by simp [discipline], others + {.backend new}, ?_, ?_⟩, rest⟩
  · exact (add_zero _).symm
  · rw [add_assoc, add_comm]
    rfl
  · exact (add_zero _).symm

theorem asked {owned after : Multiset Handle} {c : Call} (file : c.1 = .loadCertificates ∨ c.1 = .loadPrivateKey)
    (rest : discipline.Runs owned later after) : discipline.Runs owned (c :: later) after := by
  obtain ⟨question, answer⟩ := c
  rcases file with rfl | rfl
  · exact ⟨owned, ⟨by simp [discipline], owned, (add_zero _).symm, (add_zero _).symm⟩, rest⟩
  · exact ⟨owned, ⟨by simp [discipline], owned, (add_zero _).symm, (add_zero _).symm⟩, rest⟩

/-- The end of the block, or a second server, takes the backend from the first. -/
theorem ready_block (ready : Ready s q) (yields : (block s operations).Yields log ended) :
    (∃ after, discipline.Runs s.owned log after) ↔ servers log = 0 ∧ ended ≠ .destroyed := by
  have once := count_owned ready
  obtain ⟨port, server, backend, initialized, made⟩ := s
  obtain ⟨rfl, rfl, rfl, older, listening⟩ := ready
  match operations with
  | [] =>
    rw [block, yields_bind] at yields
    obtain ⟨first, _, _, rfl, destroyed, rfl, rfl⟩ := yields
    rw [Server.destroy, reset, yields_call_bind] at destroyed
    obtain ⟨_, later, rfl, destroyed⟩ := destroyed
    refine iff_of_false ?_ (fun kept => kept.2 rfl)
    rintro ⟨after, runs⟩
    exact dangling [⟨.deleteBackend q.backend, ()⟩] destroyed (by simp [once, discipline, acquired, released]) runs
  | .listen turns :: rest =>
    obtain ⟨eventLoop, there⟩ := Option.isSome_iff_exists.mp listening
    simp only [block, there, Option.bind_some] at yields
    rw [yields_bind] at yields
    obtain ⟨first, _, _, rfl, handled, rfl, rfl⟩ := yields
    rw [List.append_nil]
    refine iff_of_true ⟨_, handleEvents_manages ?_ turns first _ handled⟩ ⟨handleEvents_servers handled, nofun⟩
    simp [Server.owned, QuicServer.owned, there]
  | .initializeServer :: rest =>
    rw [block, yields_bind] at yields
    obtain ⟨first, result, later, rfl, initialized, yields⟩ := yields
    rw [Server.initializeServer, yields_call_bind] at initialized
    obtain ⟨_, _, rfl, initialized⟩ := initialized
    rw [reset, yields_call_bind] at initialized
    obtain ⟨_, _, rfl, initialized⟩ := initialized
    rw [yields_call_bind] at initialized
    obtain ⟨certificates, _, rfl, initialized⟩ := initialized
    cases certificates with
    | false =>
      obtain ⟨rfl, rfl⟩ := initialized
      obtain ⟨rfl, rfl⟩ := yields
      exact iff_of_true ⟨_, backend_replaced (asked (.inl rfl) rfl)⟩ ⟨rfl, nofun⟩
    | true =>
      rw [yields_call_bind] at initialized
      obtain ⟨key, _, rfl, initialized⟩ := initialized
      cases key with
      | false =>
        obtain ⟨rfl, rfl⟩ := initialized
        obtain ⟨rfl, rfl⟩ := yields
        exact iff_of_true ⟨_, backend_replaced (asked (.inl rfl) (asked (.inr rfl) rfl))⟩ ⟨rfl, nofun⟩
      | true =>
        rw [yields_call_bind] at initialized
        obtain ⟨_, _, rfl, initialized⟩ := initialized
        rw [QuicServer.destroy?, yields_bind] at initialized
        obtain ⟨during, _, _, rfl, destroyed, -⟩ := initialized
        refine iff_of_false ?_ (by simp [Question.makesServer])
        rintro ⟨after, runs⟩
        have apart : Handle.backend made ≠ .backend q.backend := by
          simpa using Nat.ne_of_gt older
        rw [List.cons_append, List.cons_append, List.cons_append, List.cons_append, List.cons_append,
          List.append_assoc] at runs
        exact dangling [⟨.newBackend made, ()⟩, ⟨.deleteBackend q.backend, ()⟩, ⟨.loadCertificates, true⟩,
          ⟨.loadPrivateKey, true⟩, ⟨.newQuicServer made, ()⟩] destroyed
          (by simp [once, discipline, acquired, released, apart]) runs

/-- A server that is never initialized is not more than its members. -/
theorem fresh_block (fresh : Fresh s) (yields : (block s operations).Yields log ended) :
    (∃ after, discipline.Runs 0 log after) ↔ servers log ≤ if ended = .destroyed then 0 else 1 := by
  induction operations generalizing s log with
  | nil =>
    obtain ⟨port, server, backend, initialized, made⟩ := s
    obtain ⟨rfl, rfl, rfl⟩ := fresh
    obtain ⟨rfl, rfl⟩ := yields
    exact iff_of_true ⟨0, rfl⟩ (Nat.zero_le _)
  | cons operation rest ih =>
    cases operation with
    | listen turns =>
      rw [block, fresh.initialized] at yields
      exact ih fresh yields
    | initializeServer =>
      rw [block, yields_bind] at yields
      obtain ⟨first, ⟨listening, s'⟩, later, rfl, initialized, yields⟩ := yields
      have runs := initializeServer_manages fresh first _ initialized
      obtain ⟨few, counts⟩ := initializeServer_yields fresh initialized
      cases listening with
      | false =>
        obtain ⟨rfl, rfl⟩ := yields
        rw [List.append_nil]
        exact iff_of_true ⟨_, runs⟩ (by simpa using few)
      | true =>
        obtain ⟨one, q, ready⟩ := counts rfl
        have rest := ready_block ready yields
        have same : (∃ after, discipline.Runs 0 (first ++ later) after) ↔
            ∃ after, discipline.Runs s'.owned later after := by
          simp only [runs_append]
          constructor
          · rintro ⟨after, middle, now, next⟩
            obtain rfl := now.unique runs
            exact ⟨after, next⟩
          · rintro ⟨after, next⟩
            exact ⟨after, _, runs, next⟩
        rw [same, rest, servers_append, one]
        split
        next reached => exact iff_of_false (fun kept => kept.2 reached) (by omega)
        next before => exact ⟨fun kept => by omega, fun few => ⟨by omega, before⟩⟩

/-- Whatever the library answers, the calls of a block are on objects that exist exactly if at
most one `QuicServer` is made, and none when the end of the block is reached: `~QuicServer`
calls the backend, which was declared after the server and so is deleted before it. -/
theorem block_disciplined_iff (port : UInt16) (yields : (block { port } operations).Yields log ended) :
    (∃ after, discipline.Runs 0 log after) ↔ servers log ≤ if ended = .destroyed then 0 else 1 :=
  fresh_block ⟨rfl, rfl, rfl⟩ yields

def accepting : Calls.Program.Library Answer
  | _, .createSocket => some 3
  | _, .loadCertificates | _, .loadPrivateKey | _, .enableDroppedPacketCount _ | _, .bind _ => true
  | _, .fromSocket _ | _, .registerSocket .. | _, .unregisterSocket .. => true
  | _, .newBackend _ | _, .deleteBackend _ | _, .setServer .. | _, .setSocketFactory .. => ()
  | _, .newQuicServer _ | _, .freeQuicServer _ | _, .createEventLoop _ | _, .runEventLoopOnce _ => ()
  | _, .deleteEventLoop _ | _, .newSocketFactory .. | _, .deleteSocketFactory _ | _, .newDispatcher .. => ()
  | _, .initializeWithWriter .. | _, .deleteDispatcher _ | _, .enableReceiveTimestamp _ | _, .close _ => ()

/-- A server that listens is disciplined, one that is initialized and left is not. -/
theorem block_disciplined_iff_accepting :
    (∃ after, discipline.Runs 0 ((block { port := 443 } [.initializeServer, .listen 2]).run accepting []).2 after) ∧
      ¬ ∃ after, discipline.Runs 0 ((block { port := 443 } [.initializeServer]).run accepting []).2 after := by
  constructor
  · exact (block_disciplined_iff 443 (Calls.Program.run_iff.mp rfl).1).mpr (by decide)
  · intro disciplined
    exact absurd ((block_disciplined_iff 443 (Calls.Program.run_iff.mp rfl).1).mp disciplined) (by decide)

end WebTransport.Lifetime

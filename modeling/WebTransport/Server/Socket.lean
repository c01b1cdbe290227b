import WebTransport.Theory.Loop
import WebTransport.Theory.Machine

/-! `QuicServer` at its event loop. The dispatcher, the packet reader and the loop are
quiche's; the server calls them as here, and of each only its laws are known. -/
namespace WebTransport.Server

open Loop

/-- `QuicDispatcher`. Its laws: only packets put a CHLO into the buffer, and
`ProcessBufferedChlos` takes out as many as it is told to, if there are. -/
structure Dispatcher (Packet : Type) where
  State : Type
  Timer : Type
  fresh : State
  processPacket : State → Packet → State
  processBufferedChlos : State → Nat → State
  hasChlosBuffered : State → Bool
  onCanWrite : State → State
  hasPendingWrites : State → Bool
  onAlarm : State → Timer → State
  chlos : State → Nat
  hasChlosBuffered_iff : hasChlosBuffered s = true ↔ 0 < chlos s
  fresh_chlos : chlos fresh = 0
  processBufferedChlos_chlos : chlos (processBufferedChlos s n) ≤ chlos s - n
  onCanWrite_chlos : chlos (onCanWrite s) ≤ chlos s
  onAlarm_chlos : chlos (onAlarm s timer) ≤ chlos s

/-- `QuicPacketReader`: how many of the waiting packets a call reads and whether it returns
that there may be more. If it does not, all are read, and if it does, some. -/
structure PacketReader (Packet : Type) where
  reads : List Packet → Nat
  moreToRead : List Packet → Bool
  all : moreToRead queue = false → queue.length ≤ reads queue
  some : moreToRead queue = true → 0 < reads queue ∧ reads queue ≤ queue.length

inductive SocketEvent where
  | readable
  | writable
  deriving DecidableEq, Repr

abbrev SocketEventMask := SocketEvent → Bool

def SocketEvent.mask (event : SocketEvent) : SocketEventMask := (· == event)

/-- `QuicEventLoop` with one registered socket. A turn gets what the socket is ready for and
answers with what it reports. An event is armed if a turn reports it once the socket is ready
for it: with edge triggering after each change of the socket, otherwise by a registration,
which the report unsets. The loop may report other events as well, but without edge
triggering no event that is neither armed nor notified artificially. -/
structure EventLoop where
  State : Type
  supportsEdgeTriggered : Bool
  registerSocket : SocketEventMask → State
  -- the socket becomes ready for the event, or ready again
  socketChanges : State → SocketEvent → State
  rearmSocket : State → SocketEventMask → State
  artificiallyNotifyEvent : State → SocketEventMask → State
  runEventLoopOnce : State → SocketEventMask → SocketEventMask × State
  Armed : State → SocketEvent → Prop
  Notified : State → SocketEvent → Prop
  registerSocket_armed : events e = true → Armed (registerSocket events) e
  registerSocket_notified : ¬Notified (registerSocket events) e
  socketChanges_armed : Armed s e → Armed (socketChanges s changed) e
  socketChanges_edge : supportsEdgeTriggered = true → Armed (socketChanges s e) e
  socketChanges_once : supportsEdgeTriggered = false → Armed (socketChanges s changed) e → Armed s e
  socketChanges_notified : Notified (socketChanges s changed) e ↔ Notified s e
  rearmSocket_armed : supportsEdgeTriggered = false →
    (Armed (rearmSocket s events) e ↔ Armed s e ∨ events e = true)
  rearmSocket_notified : supportsEdgeTriggered = false → (Notified (rearmSocket s events) e ↔ Notified s e)
  artificiallyNotifyEvent_armed : Armed (artificiallyNotifyEvent s events) e ↔ Armed s e
  artificiallyNotifyEvent_notified :
    Notified (artificiallyNotifyEvent s events) e ↔ Notified s e ∨ events e = true
  reports_armed : Armed s e → ready e = true → (runEventLoopOnce s ready).1 e = true
  reports_notified : Notified s e → (runEventLoopOnce s ready).1 e = true
  reports_once : supportsEdgeTriggered = false → ¬Notified s e → (runEventLoopOnce s ready).1 e = true →
    Armed s e ∧ ¬Armed (runEventLoopOnce s ready).2 e
  unreported_once : supportsEdgeTriggered = false → (runEventLoopOnce s ready).1 e = false →
    (Armed (runEventLoopOnce s ready).2 e ↔ Armed s e)
  runEventLoopOnce_notified : Notified (runEventLoopOnce s ready).2 e → Notified s e

structure QuicServer {Packet : Type} (d : Dispatcher Packet) (l : EventLoop) where
  queue : List Packet
  sendable : Bool
  dispatcher : d.State
  loop : l.State

inductive Transfer (Packet : Type) where
  | processPacket (packet : Packet)
  -- with what `HasPendingWrites` returns after the call
  | onCanWrite (pending : Bool)
  deriving DecidableEq, Repr

namespace Transfer

variable {Packet : Type}

def packet? : Transfer Packet → Option Packet
  | .processPacket packet => some packet
  | .onCanWrite _ => none

def isOnCanWrite : Transfer Packet → Bool
  | .processPacket _ => false
  | .onCanWrite _ => true

/-- `OnCanWrite` is not called any more once it has found nothing pending. -/
def Unspent (before : List (Transfer Packet)) (transfer : Transfer Packet) : Prop :=
  transfer.isOnCanWrite = true → .onCanWrite false ∉ before

end Transfer

namespace QuicServer

variable {Packet : Type} (reader : PacketReader Packet) (d : Dispatcher Packet) (l : EventLoop)
  (maxSessionsToCreate : Nat)

/-- Behind `CreateUDPSocketAndListen`, which registers for both events. -/
def listening (queue : List Packet) (sendable : Bool) : QuicServer d l :=
  ⟨queue, sendable, d.fresh, l.registerSocket fun _ => true⟩

variable {d} {l}

def arrive (s : QuicServer d l) (packets : List Packet) : QuicServer d l :=
  { s with
    queue := s.queue ++ packets
    loop := if packets.isEmpty then s.loop else l.socketChanges s.loop .readable }

/-- Variables of the read loop: `during` holds the packets that arrive in front of the next
calls. -/
structure Reading (d : Dispatcher Packet) (l : EventLoop) where
  server : QuicServer d l
  during : List (List Packet)
  processed : List Packet

def readPass (r : Reading d l) : Except Fault (Pass (Reading d l) (Reading d l)) :=
  let queue := r.server.queue
  let packets := queue.take (reader.reads queue)
  let server := { r.server with
    queue := queue.drop (reader.reads queue)
    dispatcher := packets.foldl d.processPacket r.server.dispatcher }
  let next := ⟨server.arrive (r.during.headD []), r.during.tail, r.processed ++ packets⟩
  if reader.moreToRead queue then .ok (.again next) else .ok (.leave next)

/-- The end of the branch for `kSocketEventReadable`. -/
def renew (s : QuicServer d l) : QuicServer d l :=
  let s :=
    if d.hasChlosBuffered s.dispatcher then
      { s with loop := l.artificiallyNotifyEvent s.loop SocketEvent.readable.mask }
    else s
  if !l.supportsEdgeTriggered then { s with loop := l.rearmSocket s.loop SocketEvent.readable.mask } else s

def onReadable (s : QuicServer d l) (during : List (List Packet)) :
    Except Fault (QuicServer d l × List (Transfer Packet)) := do
  let s := { s with dispatcher := d.processBufferedChlos s.dispatcher maxSessionsToCreate }
  let r ← Loop.loop (readPass reader) (s.queue.length + during.flatten.length + 1) ⟨s, during, []⟩
  .ok ((r.server.arrive r.during.flatten).renew, r.processed.map .processPacket)

def readBranch (s : QuicServer d l) (events : SocketEventMask) (during : List (List Packet)) :
    Except Fault (QuicServer d l × List (Transfer Packet)) :=
  if events .readable then s.onReadable reader maxSessionsToCreate during
  else .ok (s.arrive during.flatten, [])

def onWritable (s : QuicServer d l) : QuicServer d l × List (Transfer Packet) :=
  let s := { s with dispatcher := d.onCanWrite s.dispatcher }
  let pending := d.hasPendingWrites s.dispatcher
  (if !l.supportsEdgeTriggered && pending then
      { s with loop := l.rearmSocket s.loop SocketEvent.writable.mask }
    else s, [.onCanWrite pending])

def onSocketEvent (s : QuicServer d l) (events : SocketEventMask) (during : List (List Packet)) :
    Except Fault (QuicServer d l × List (Transfer Packet)) := do
  let (s, processed) ← s.readBranch reader maxSessionsToCreate events during
  let (s, written) := if events .writable then s.onWritable else (s, [])
  .ok (s, processed ++ written)

def ready (s : QuicServer d l) : SocketEventMask
  | .readable => !s.queue.isEmpty
  | .writable => s.sendable

inductive Event (d : Dispatcher Packet) where
  | arrive (packets : List Packet)
  | sendable (now : Bool)
  | alarm (timer : d.Timer)
  | runEventLoopOnce (during : List (List Packet))

def Event.arrived : Event d → List Packet
  | .arrive packets => packets
  | .runEventLoopOnce during => during.flatten
  | _ => []

def step (s : QuicServer d l) : Event d → Except Fault (QuicServer d l × List (Transfer Packet))
  | .arrive packets => .ok (s.arrive packets, [])
  | .sendable now => .ok ({ s with
      sendable := now
      loop := if now && !s.sendable then l.socketChanges s.loop .writable else s.loop }, [])
  | .alarm timer => .ok ({ s with dispatcher := d.onAlarm s.dispatcher timer }, [])
  -- If the loop reports nothing, it does not call, which is as a call for no event.
  | .runEventLoopOnce during =>
    let (events, loop) := l.runEventLoopOnce s.loop s.ready
    { s with loop }.onSocketEvent reader maxSessionsToCreate events during

variable {reader} {maxSessionsToCreate}

theorem headD_flatten_tail (during : List (List Packet)) :
    during.headD [] ++ during.tail.flatten = during.flatten := by cases during <;> rfl

/-- The loop will report the socket as long as something is unread, and a registration for
its reading is never left unset. -/
def Subscribed (s : QuicServer d l) : Prop :=
  l.supportsEdgeTriggered = false ∨ s.queue ≠ [] → l.Armed s.loop .readable

structure Changed (before after : l.State) : Prop where
  armed : l.Armed before e → l.Armed after e
  once : l.supportsEdgeTriggered = false → l.Armed after e → l.Armed before e
  notified : l.Notified after e ↔ l.Notified before e

theorem Changed.refl (loop : l.State) : Changed loop loop := ⟨id, fun _ => id, Iff.rfl⟩

theorem Changed.trans {first second third : l.State} (h : Changed first second) (h' : Changed second third) :
    Changed first third :=
  ⟨fun armed => h'.armed (h.armed armed), fun once armed => h.once once (h'.once once armed),
    h'.notified.trans h.notified⟩

theorem arrive_changed (s : QuicServer d l) (packets : List Packet) : Changed s.loop (s.arrive packets).loop := by
  unfold arrive
  dsimp only
  split
  · exact .refl s.loop
  · exact ⟨l.socketChanges_armed, l.socketChanges_once, l.socketChanges_notified⟩

theorem Subscribed.arrive {s : QuicServer d l} (subscribed : s.Subscribed) (packets : List Packet) :
    (s.arrive packets).Subscribed := by
  intro needed
  by_cases before : l.supportsEdgeTriggered = false ∨ s.queue ≠ []
  · exact (s.arrive_changed packets).armed (subscribed before)
  · simp only [not_or, Bool.not_eq_false, ne_eq, not_not] at before
    have new : packets ≠ [] := by simpa [QuicServer.arrive, before] using needed
    rw [QuicServer.arrive]
    dsimp only
    rw [if_neg (by simpa using new)]
    exact l.socketChanges_edge before.1

structure Along (s : QuicServer d l) (during : List (List Packet)) (r : Reading d l) : Prop where
  conserved : r.processed ++ r.server.queue ++ r.during.flatten = s.queue ++ during.flatten
  dispatched : r.server.dispatcher = r.processed.foldl d.processPacket s.dispatcher
  loop : Changed s.loop r.server.loop
  later : r.during.flatten.length ≤ during.flatten.length

theorem Along.pass {s : QuicServer d l} {r : Reading d l} (along : Along s during r) :
    let queue := r.server.queue
    let packets := queue.take (reader.reads queue)
    let server := { r.server with
      queue := queue.drop (reader.reads queue)
      dispatcher := packets.foldl d.processPacket r.server.dispatcher }
    Along s during ⟨server.arrive (r.during.headD []), r.during.tail, r.processed ++ packets⟩ where
  conserved := by
    rw [← along.conserved, ← headD_flatten_tail r.during]
    simp only [arrive, List.append_assoc, List.append_cancel_left_eq]
    rw [← List.append_assoc, List.take_append_drop]
  dispatched := by simp only [arrive, along.dispatched, List.foldl_append]
  loop := along.loop.trans (arrive_changed _ _)
  later := by
    have split := congrArg List.length (headD_flatten_tail r.during)
    rw [List.length_append] at split
    exact Nat.le_trans (by simp only; omega) along.later

/-- The loop ends: every call but the last reads a packet. What is unread then came during it. -/
theorem read_total (reader : PacketReader Packet) (s : QuicServer d l) (during : List (List Packet)) :
    ∃ r, Loop.loop (readPass reader) (s.queue.length + during.flatten.length + 1) ⟨s, during, []⟩ = .ok r ∧
      Along s during r ∧ r.server.queue.length + r.during.flatten.length ≤ during.flatten.length ∧
      (l.supportsEdgeTriggered = true → r.server.Subscribed) := by
  refine loop_total (Along s during) _ (fun r => r.server.queue.length + r.during.flatten.length) ?_
    ⟨rfl, rfl, .refl s.loop, Nat.le_refl _⟩ (Nat.lt_succ_self _)
  intro r along
  have split := congrArg List.length (headD_flatten_tail r.during)
  rw [List.length_append] at split
  cases more : reader.moreToRead r.server.queue with
  | true =>
    obtain ⟨some, inside⟩ := reader.some more
    refine .inl ⟨_, if_pos more, along.pass, ?_⟩
    simp only [arrive, List.length_append, List.length_drop]
    omega
  | false =>
    have all := reader.all more
    have empty : r.server.queue.drop (reader.reads r.server.queue) = [] := List.drop_eq_nil_of_le all
    refine .inr ⟨_, if_neg (by simp [more]), along.pass, ?_, ?_⟩
    · simp only [arrive, empty, List.nil_append]
      have := along.later
      omega
    · intro edge
      apply Subscribed.arrive
      intro needed
      simp [edge, empty] at needed

/-- Whatever there is to do, the loop will report it. The server never notifies itself of
`kSocketEventWritable`. -/
structure Watched (s : QuicServer d l) : Prop where
  subscribed : s.Subscribed
  buffered : d.hasChlosBuffered s.dispatcher = true → l.Notified s.loop .readable
  unnotified : ¬l.Notified s.loop .writable

theorem Watched.reported {s : QuicServer d l} (watched : s.Watched)
    (work : s.queue ≠ [] ∨ d.hasChlosBuffered s.dispatcher = true) :
    (l.runEventLoopOnce s.loop s.ready).1 .readable = true := by
  rcases work with unread | buffered
  · exact l.reports_armed (watched.subscribed (.inr unread)) (by simpa [ready] using unread)
  · exact l.reports_notified (watched.buffered buffered)

theorem Watched.frame {s s' : QuicServer d l} (watched : s.Watched) (queue : s'.queue = s.queue)
    (armed : l.Armed s.loop .readable → l.Armed s'.loop .readable)
    (notified : ∀ {e}, l.Notified s'.loop e ↔ l.Notified s.loop e)
    (fewer : d.chlos s'.dispatcher ≤ d.chlos s.dispatcher) : s'.Watched where
  subscribed needed := by
    rw [queue] at needed
    exact armed (watched.subscribed needed)
  buffered some := by
    rw [notified]
    apply watched.buffered
    rw [d.hasChlosBuffered_iff] at some ⊢
    omega
  unnotified := mt notified.mp watched.unnotified

theorem Watched.arrive {s : QuicServer d l} (watched : s.Watched) (packets : List Packet) :
    (s.arrive packets).Watched where
  subscribed := watched.subscribed.arrive packets
  buffered some := (s.arrive_changed packets).notified.mpr (watched.buffered some)
  unnotified := mt (s.arrive_changed packets).notified.mp watched.unnotified

/-- A turn that does not report the socket readable leaves it watched. -/
theorem Watched.unreported {s : QuicServer d l} (watched : s.Watched)
    (silent : (l.runEventLoopOnce s.loop s.ready).1 .readable = false) :
    Watched { s with loop := (l.runEventLoopOnce s.loop s.ready).2 } where
  subscribed needed := by
    rcases needed with once | unread
    · exact (l.unreported_once once silent).mpr (watched.subscribed (.inl once))
    · rw [watched.reported (.inl unread)] at silent
      cases silent
  buffered some := by
    rw [watched.reported (.inr some)] at silent
    cases silent
  unnotified again := watched.unnotified (l.runEventLoopOnce_notified again)

/-- What `onReadable` does: all that was unread is dispatched in order, and the loop knows of
what came since. -/
structure Served (maxSessionsToCreate : Nat) (s : QuicServer d l) (during : List (List Packet))
    (s' : QuicServer d l) (processed : List Packet) : Prop where
  conserved : s.queue ++ during.flatten = processed ++ s'.queue
  dispatched : s'.dispatcher =
    processed.foldl d.processPacket (d.processBufferedChlos s.dispatcher maxSessionsToCreate)
  left : s'.queue.length ≤ during.flatten.length
  watched : s'.Watched
  writable : l.supportsEdgeTriggered = false → l.Armed s'.loop .writable → l.Armed s.loop .writable

theorem renew_frame (s : QuicServer d l) : s.renew.queue = s.queue ∧ s.renew.dispatcher = s.dispatcher := by
  unfold renew
  dsimp only
  split <;> split <;> exact ⟨rfl, rfl⟩

theorem renew_notified (s : QuicServer d l) : l.Notified s.renew.loop e ↔
    l.Notified s.loop e ∨ d.hasChlosBuffered s.dispatcher = true ∧ e = .readable := by
  have marks : l.Notified (if d.hasChlosBuffered s.dispatcher then
        { s with loop := l.artificiallyNotifyEvent s.loop SocketEvent.readable.mask } else s).loop e ↔
      l.Notified s.loop e ∨ d.hasChlosBuffered s.dispatcher = true ∧ e = .readable := by
    split
    · rename_i some
      simp [l.artificiallyNotifyEvent_notified, some, SocketEvent.mask]
    · rename_i none
      simp [none]
  rw [← marks, renew]
  split
  · rename_i once
    exact l.rearmSocket_notified (by simpa using once)
  · exact Iff.rfl

theorem renew_armed (s : QuicServer d l) : l.Armed s.renew.loop e ↔
    l.Armed s.loop e ∨ l.supportsEdgeTriggered = false ∧ e = .readable := by
  have marks : l.Armed (if d.hasChlosBuffered s.dispatcher then
        { s with loop := l.artificiallyNotifyEvent s.loop SocketEvent.readable.mask } else s).loop e ↔
      l.Armed s.loop e := by
    split
    · exact l.artificiallyNotifyEvent_armed
    · rfl
  rw [← marks, renew]
  split
  · rename_i once
    rw [Bool.not_eq_true'] at once
    simp [l.rearmSocket_armed once, once, SocketEvent.mask]
  · rename_i edge
    simp at edge
    simp [edge]

theorem renew_watched (s : QuicServer d l) (subscribed : l.supportsEdgeTriggered = true → s.Subscribed)
    (unnotified : ¬l.Notified s.loop .writable) : s.renew.Watched where
  subscribed needed := by
    rw [renew_armed]
    cases edge : l.supportsEdgeTriggered with
    | false => exact .inr ⟨rfl, rfl⟩
    | true =>
      rw [s.renew_frame.1] at needed
      exact .inl (subscribed edge needed)
  buffered some := by
    rw [s.renew_frame.2] at some
    exact (renew_notified s).mpr (.inr ⟨some, rfl⟩)
  unnotified again := by
    rcases (renew_notified s).mp again with before | ⟨_, other⟩
    · exact unnotified before
    · cases other

theorem onReadable_serves (reader : PacketReader Packet) (maxSessionsToCreate : Nat) (s : QuicServer d l)
    (unnotified : ¬l.Notified s.loop .writable) (during : List (List Packet)) : ∃ s' processed,
    s.onReadable reader maxSessionsToCreate during = .ok (s', processed.map .processPacket) ∧
    Served maxSessionsToCreate s during s' processed := by
  obtain ⟨r, run, along, left, subscribed⟩ := read_total reader
    { s with dispatcher := d.processBufferedChlos s.dispatcher maxSessionsToCreate } during
  have loop := along.loop.trans (r.server.arrive_changed r.during.flatten)
  obtain ⟨queue, dispatcher⟩ := (r.server.arrive r.during.flatten).renew_frame
  refine ⟨(r.server.arrive r.during.flatten).renew, r.processed, by simp only [onReadable, run, ok_bind],
    ?_, ?_, ?_, ?_, ?_⟩
  · rw [queue, arrive, ← along.conserved, List.append_assoc]
  · rw [dispatcher]
    exact along.dispatched
  · rw [queue, arrive, List.length_append]
    exact left
  · exact renew_watched _ (fun edge => (subscribed edge).arrive _) (mt loop.notified.mp unnotified)
  · intro once armed
    rcases (renew_armed _).mp armed with before | ⟨_, other⟩
    · exact loop.once once before
    · cases other

/-- The branch for `kSocketEventWritable`: with nothing pending, nothing is armed. -/
theorem onWritable_frame (s : QuicServer d l) (watched : s.Watched) :
    s.onWritable.1.queue = s.queue ∧ s.onWritable.1.Watched ∧
      d.chlos s.onWritable.1.dispatcher ≤ d.chlos s.dispatcher ∧
      ∃ pending, s.onWritable.2 = [.onCanWrite pending] ∧
        (pending = false → l.Armed s.onWritable.1.loop .writable → l.Armed s.loop .writable) := by
  have fewer := d.onCanWrite_chlos (s := s.dispatcher)
  have written : s.onWritable.2 = [.onCanWrite (d.hasPendingWrites (d.onCanWrite s.dispatcher))] := rfl
  unfold onWritable at *
  dsimp only at *
  split
  · rename_i rearms
    rw [Bool.and_eq_true, Bool.not_eq_true'] at rearms
    obtain ⟨once, pending⟩ := rearms
    refine ⟨rfl, ?_, fewer, _, written, ?_⟩
    · exact watched.frame rfl (fun armed => (l.rearmSocket_armed once).mpr (.inl armed))
        (l.rearmSocket_notified once) fewer
    · intro none
      rw [pending] at none
      cases none
  · exact ⟨rfl, watched.frame rfl id Iff.rfl fewer, fewer, _, written, fun _ => id⟩

/-- The calls of `OnCanWrite` in one event, and what they mean for a registration that a
report unsets. -/
inductive Writes (s s' : QuicServer d l) : List (Transfer Packet) → Prop where
  | none (same : l.supportsEdgeTriggered = false → l.Armed s'.loop .writable → l.Armed s.loop .writable) :
      Writes s s' []
  | once (spent : l.supportsEdgeTriggered = false → l.Armed s.loop .writable ∧
        (pending = false → ¬l.Armed s'.loop .writable)) : Writes s s' [.onCanWrite pending]

structure Steps (s : QuicServer d l) (arrived : List Packet) (s' : QuicServer d l) (processed : List Packet)
    (written : List (Transfer Packet)) : Prop where
  conserved : s.queue ++ arrived = processed ++ s'.queue
  watched : s'.Watched
  writes : Writes s s' written

/-- Without arrivals a turn of the loop reads all that is unread, and one that finds nothing
unread goes on with the buffered CHLOs. -/
def Drained (maxSessionsToCreate : Nat) (s s' : QuicServer d l) : Prop :=
  s'.queue = [] ∧ (s.queue = [] → d.chlos s'.dispatcher ≤ d.chlos s.dispatcher - maxSessionsToCreate)

theorem Served.drained {s s' : QuicServer d l} {during : List (List Packet)}
    (served : Served maxSessionsToCreate s during s' processed) (idle : during.flatten = []) :
    Drained maxSessionsToCreate s s' := by
  have left := served.left
  rw [idle, List.length_nil, Nat.le_zero, List.length_eq_zero_iff] at left
  refine ⟨left, fun empty => ?_⟩
  have none : processed = [] := by
    have conserved := served.conserved
    rw [empty, idle] at conserved
    exact (List.append_eq_nil_iff.mp conserved.symm).1
  rw [served.dispatched, none]
  exact d.processBufferedChlos_chlos

theorem Watched.drained {s : QuicServer d l} (watched : s.Watched)
    (silent : (l.runEventLoopOnce s.loop s.ready).1 .readable = false) :
    s.queue = [] ∧ d.chlos s.dispatcher = 0 := by
  constructor
  · by_contra unread
    rw [watched.reported (.inl unread)] at silent
    cases silent
  · by_contra some
    rw [watched.reported (.inr (d.hasChlosBuffered_iff.mpr (Nat.pos_of_ne_zero some)))] at silent
    cases silent

/-- The first branch, behind a report of the loop. -/
theorem readBranch_steps (reader : PacketReader Packet) (maxSessionsToCreate : Nat) {s reported : QuicServer d l}
    (watched : s.Watched) (turn : reported = { s with loop := (l.runEventLoopOnce s.loop s.ready).2 })
    (during : List (List Packet)) : ∃ s' processed,
    reported.readBranch reader maxSessionsToCreate (l.runEventLoopOnce s.loop s.ready).1 during =
        .ok (s', processed.map .processPacket) ∧
      s.queue ++ during.flatten = processed ++ s'.queue ∧ s'.Watched ∧
      (l.supportsEdgeTriggered = false → l.Armed s'.loop .writable → l.Armed reported.loop .writable) ∧
      (during.flatten = [] → Drained maxSessionsToCreate s s') := by
  subst turn
  unfold readBranch
  cases readable : (l.runEventLoopOnce s.loop s.ready).1 .readable with
  | true =>
    obtain ⟨s', processed, run, served⟩ := onReadable_serves reader maxSessionsToCreate
      { s with loop := (l.runEventLoopOnce s.loop s.ready).2 }
      (fun again => watched.unnotified (l.runEventLoopOnce_notified again)) during
    exact ⟨s', processed, run, served.conserved, served.watched, served.writable, served.drained⟩
  | false =>
    obtain ⟨empty, chlos⟩ := watched.drained readable
    refine ⟨_, [], rfl, rfl, (watched.unreported readable).arrive during.flatten, ?_, ?_⟩
    · exact fun once => (arrive_changed _ _).once once
    · intro idle
      refine ⟨?_, fun _ => chlos ▸ Nat.zero_le _⟩
      rw [QuicServer.arrive, empty, idle]
      rfl

theorem turn_steps (reader : PacketReader Packet) (maxSessionsToCreate : Nat) {s : QuicServer d l}
    (watched : s.Watched) (during : List (List Packet)) : ∃ s' processed written,
    s.step reader maxSessionsToCreate (.runEventLoopOnce during) =
        .ok (s', processed.map .processPacket ++ written) ∧
      Steps s during.flatten s' processed written ∧ (during.flatten = [] → Drained maxSessionsToCreate s s') := by
  obtain ⟨middle, processed, run, conserved, kept, unarmed, drained⟩ :=
    readBranch_steps reader maxSessionsToCreate watched rfl during
  simp only [step, onSocketEvent, run, ok_bind]
  cases writable : (l.runEventLoopOnce s.loop s.ready).1 .writable with
  | false =>
    refine ⟨middle, processed, [], rfl, ⟨conserved, kept, .none ?_⟩, drained⟩
    exact fun once armed => (l.unreported_once once writable).mp (unarmed once armed)
  | true =>
    obtain ⟨queue, after, fewer, pending, written, spent⟩ := onWritable_frame middle kept
    refine ⟨middle.onWritable.1, processed, [.onCanWrite pending], ?_, ⟨?_, after, .once ?_⟩, ?_⟩
    · rw [← written]
      rfl
    · rw [queue, conserved]
    · intro once
      obtain ⟨armed, unset⟩ := l.reports_once once watched.unnotified writable
      exact ⟨armed, fun none again => unset (unarmed once (spent none again))⟩
    · intro idle
      obtain ⟨empty, less⟩ := drained idle
      exact ⟨queue.trans empty, fun read => Nat.le_trans fewer (less read)⟩

theorem step_steps (reader : PacketReader Packet) (maxSessionsToCreate : Nat) {s : QuicServer d l}
    (watched : s.Watched) (event : Event d) : ∃ s' processed written,
    s.step reader maxSessionsToCreate event = .ok (s', processed.map .processPacket ++ written) ∧
      Steps s event.arrived s' processed written := by
  cases event with
  | arrive packets =>
    exact ⟨_, [], [], rfl, rfl, watched.arrive packets, .none fun once => (s.arrive_changed packets).once once⟩
  | sendable now =>
    have changed : Changed s.loop (if now && !s.sendable then l.socketChanges s.loop .writable else s.loop) := by
      split
      · exact ⟨l.socketChanges_armed, l.socketChanges_once, l.socketChanges_notified⟩
      · exact .refl s.loop
    exact ⟨_, [], [], rfl, List.append_nil _,
      watched.frame rfl changed.armed changed.notified (Nat.le_refl _), .none fun once => changed.once once⟩
  | alarm timer =>
    exact ⟨_, [], [], rfl, List.append_nil _, watched.frame rfl id Iff.rfl d.onAlarm_chlos, .none fun _ => id⟩
  | runEventLoopOnce during =>
    obtain ⟨s', processed, written, run, steps, _⟩ := turn_steps reader maxSessionsToCreate watched during
    exact ⟨s', processed, written, run, steps⟩

theorem idle_rounds (reader : PacketReader Packet) (maxSessionsToCreate rounds : Nat) {s : QuicServer d l}
    (watched : s.Watched) (empty : s.queue = []) : ∃ s' transfers,
    Machine.runM (step reader maxSessionsToCreate) s (List.replicate rounds (.runEventLoopOnce [])) =
        .ok (s', transfers) ∧
      s'.queue = [] ∧ d.chlos s'.dispatcher ≤ d.chlos s.dispatcher - rounds * maxSessionsToCreate := by
  induction rounds generalizing s with
  | zero => exact ⟨s, [], rfl, empty, by omega⟩
  | succ rounds ih =>
    obtain ⟨next, processed, written, now, steps, drained⟩ := turn_steps reader maxSessionsToCreate watched []
    obtain ⟨read, fewer⟩ := drained rfl
    obtain ⟨s', transfers, run, queue, left⟩ := ih steps.watched read
    refine ⟨s', _, Machine.runM_cons_ok now run, queue, ?_⟩
    have := fewer empty
    rw [Nat.succ_mul]
    omega

theorem listening_watched (queue : List Packet) (sendable : Bool) : (listening d l queue sendable).Watched where
  subscribed _ := l.registerSocket_armed rfl
  buffered some := by
    rw [d.hasChlosBuffered_iff, listening, d.fresh_chlos] at some
    exact absurd some (Nat.lt_irrefl 0)
  unnotified := l.registerSocket_notified

theorem Writes.packets {s s' : QuicServer d l} (writes : Writes s s' written) (processed : List Packet) :
    (processed.map Transfer.processPacket ++ written).filterMap Transfer.packet? = processed := by
  have all : (processed.map Transfer.processPacket).filterMap Transfer.packet? = processed := by
    rw [List.filterMap_map]
    exact List.filterMap_some
  rw [List.filterMap_append, all]
  cases writes <;> simp [Transfer.packet?]

/-- One event keeps the order of the calls, and what it leaves of the registration. -/
theorem Writes.unspent {s s' : QuicServer d l} {trace written : List (Transfer Packet)} (writes : Writes s s' written)
    (once : l.supportsEdgeTriggered = false) (processed : List Packet)
    (licensed : Machine.Licensed Transfer.Unspent trace)
    (spent : .onCanWrite false ∈ trace → ¬l.Armed s.loop .writable) :
    Machine.Licensed Transfer.Unspent (trace ++ (processed.map .processPacket ++ written)) ∧
      (.onCanWrite false ∈ trace ++ (processed.map .processPacket ++ written) → ¬l.Armed s'.loop .writable) := by
  have reads : Machine.Licensed Transfer.Unspent (trace ++ processed.map .processPacket) := by
    refine Machine.licensed_append.mpr ⟨licensed, .of_forall ?_⟩
    intro transfer member before call
    obtain ⟨packet, _, rfl⟩ := List.mem_map.mp member
    cases call
  have before : .onCanWrite false ∈ trace ++ processed.map .processPacket → ¬l.Armed s.loop .writable := by
    intro member
    apply spent
    simpa using member
  rw [← List.append_assoc]
  cases writes with
  | none same =>
    rw [List.append_nil]
    exact ⟨reads, fun member => mt (same once) (before member)⟩
  | once armed =>
    obtain ⟨open', after⟩ := armed once
    have first : .onCanWrite false ∉ trace ++ processed.map .processPacket := fun member => before member open'
    refine ⟨Machine.licensed_concat.mpr ⟨reads, fun _ => first⟩, ?_⟩
    intro member
    rcases List.mem_append.mp member with earlier | last
    · exact absurd earlier first
    · rw [List.mem_singleton, Transfer.onCanWrite.injEq] at last
      exact after last.symm

theorem run_served (reader : PacketReader Packet) (maxSessionsToCreate : Nat) (queue : List Packet) (sendable : Bool)
    (events : List (Event d)) : ∃ s transfers,
    Machine.runM (step reader maxSessionsToCreate) (listening d l queue sendable) events = .ok (s, transfers) ∧
      s.Watched ∧
      queue ++ events.flatMap Event.arrived = transfers.flatten.filterMap Transfer.packet? ++ s.queue := by
  refine Machine.runM_history (fun past trace (s : QuicServer d l) => s.Watched ∧
    queue ++ past.flatMap Event.arrived = trace.flatten.filterMap Transfer.packet? ++ s.queue) ?_
    ⟨listening_watched queue sendable, by simp [listening]⟩ events
  rintro past trace s event ⟨watched, conserved⟩
  obtain ⟨s', processed, written, run, steps⟩ := step_steps reader maxSessionsToCreate watched event
  refine ⟨s', _, run, steps.watched, ?_⟩
  rw [List.flatMap_append, List.flatMap_singleton, ← List.append_assoc, conserved, List.flatten_append,
    List.flatten_singleton, List.filterMap_append, steps.writes.packets, List.append_assoc, List.append_assoc,
    steps.conserved]

end QuicServer

open QuicServer

/-- In every run, with packets arriving at any time, also between the calls that read them:
each packet is dispatched once and in order, and the loop's next turn reports the socket
readable as long as a packet is unread or a CHLO is buffered. -/
theorem packets_served {Packet : Type} (d : Dispatcher Packet) (reader : PacketReader Packet) (l : EventLoop)
    (maxSessionsToCreate : Nat) (queue : List Packet) (sendable : Bool) (events : List (QuicServer.Event d)) :
    ∃ s transfers,
      Machine.runM (step reader maxSessionsToCreate) (listening d l queue sendable) events = .ok (s, transfers) ∧
        queue ++ events.flatMap QuicServer.Event.arrived = transfers.flatten.filterMap Transfer.packet? ++ s.queue ∧
        (s.queue ≠ [] ∨ d.hasChlosBuffered s.dispatcher = true →
          (l.runEventLoopOnce s.loop s.ready).1 .readable = true) := by
  obtain ⟨s, transfers, run, watched, conserved⟩ := run_served reader maxSessionsToCreate queue sendable events
  exact ⟨s, transfers, run, conserved, watched.reported⟩

/-- After any run, a network that falls silent is served to the end: one turn of the loop
reads what is unread, and each one after it takes the next CHLOs out of the buffer. -/
theorem server_quiesces {Packet : Type} (d : Dispatcher Packet) (reader : PacketReader Packet) (l : EventLoop)
    (maxSessionsToCreate : Nat) (queue : List Packet) (sendable : Bool) (events : List (QuicServer.Event d)) :
    ∃ s transfers, Machine.runM (step reader maxSessionsToCreate) (listening d l queue sendable)
        (events ++ [.runEventLoopOnce []]) = .ok (s, transfers) ∧ s.queue = [] ∧
      ∀ rounds, d.chlos s.dispatcher ≤ rounds * maxSessionsToCreate → ∃ s' transfers',
        Machine.runM (step reader maxSessionsToCreate) (listening d l queue sendable)
            (events ++ [.runEventLoopOnce []] ++ List.replicate rounds (.runEventLoopOnce [])) =
          .ok (s', transfers') ∧ s'.queue = [] ∧ d.hasChlosBuffered s'.dispatcher = false := by
  obtain ⟨s, transfers, run, watched, _⟩ := run_served (l := l) reader maxSessionsToCreate queue sendable events
  obtain ⟨next, processed, written, now, steps, drained⟩ := turn_steps reader maxSessionsToCreate watched []
  have first := Machine.runM_append_ok run (Machine.runM_cons_ok now (Machine.runM_nil _))
  refine ⟨next, _, first, (drained rfl).1, ?_⟩
  intro rounds enough
  obtain ⟨s', transfers', later, empty, left⟩ :=
    idle_rounds reader maxSessionsToCreate rounds steps.watched (drained rfl).1
  refine ⟨s', _, Machine.runM_append_ok first later, empty, ?_⟩
  rw [Bool.eq_false_iff]
  intro buffered
  have some := d.hasChlosBuffered_iff.mp buffered
  omega

/-- Where a report unsets the registration, writing has the rest of the run only as long as
each call finds writes pending: whatever becomes pending after one that does not stays so. -/
theorem writable_spent {Packet : Type} (d : Dispatcher Packet) (reader : PacketReader Packet) (l : EventLoop)
    (once : l.supportsEdgeTriggered = false) (maxSessionsToCreate : Nat) (queue : List Packet) (sendable : Bool)
    (events : List (QuicServer.Event d)) : ∃ s transfers,
      Machine.runM (step reader maxSessionsToCreate) (listening d l queue sendable) events = .ok (s, transfers) ∧
        Machine.Licensed Transfer.Unspent transfers.flatten := by
  have holds : ∃ s transfers,
      Machine.runM (step reader maxSessionsToCreate) (listening d l queue sendable) events = .ok (s, transfers) ∧
        s.Watched ∧ Machine.Licensed Transfer.Unspent transfers.flatten ∧
        (.onCanWrite false ∈ transfers.flatten → ¬l.Armed s.loop .writable) := by
    refine Machine.runM_history (fun _ (trace : List (List (Transfer Packet))) (s : QuicServer d l) =>
      s.Watched ∧ Machine.Licensed Transfer.Unspent trace.flatten ∧
        (.onCanWrite false ∈ trace.flatten → ¬l.Armed s.loop .writable)) ?_
      ⟨listening_watched queue sendable, by simp, by simp⟩ events
    rintro _ trace s event ⟨watched, licensed, spent⟩
    obtain ⟨s', processed, written, run, steps⟩ := step_steps reader maxSessionsToCreate watched event
    refine ⟨s', _, run, steps.watched, ?_⟩
    rw [List.flatten_append, List.flatten_singleton]
    exact steps.writes.unspent once processed licensed spent
  obtain ⟨s, transfers, run, _, licensed, _⟩ := holds
  exact ⟨s, transfers, run, licensed⟩

/-- Reads in batches: a full one may not be the last. -/
def PacketReader.batches (Packet : Type) (size : Nat) (some : 0 < size) : PacketReader Packet where
  reads queue := min size queue.length
  moreToRead queue := decide (size ≤ queue.length)
  all short := by
    have := of_decide_eq_false short
    omega
  some full := by
    have := of_decide_eq_true full
    omega

/-- A packet is a CHLO or is answered, and the answer waits for the socket. -/
def Dispatcher.answering : Dispatcher Bool where
  State := Nat × Bool
  Timer := Unit
  fresh := (0, false)
  processPacket s chlo := if chlo then (s.1 + 1, s.2) else (s.1, true)
  processBufferedChlos s n := (s.1 - n, s.2)
  hasChlosBuffered s := decide (0 < s.1)
  onCanWrite s := (s.1, false)
  hasPendingWrites s := s.2
  onAlarm s _ := s
  chlos s := s.1
  hasChlosBuffered_iff := decide_eq_true_iff
  fresh_chlos := rfl
  processBufferedChlos_chlos := Nat.le_refl _
  onCanWrite_chlos := Nat.le_refl _
  onAlarm_chlos := Nat.le_refl _

/-- What is armed, and what was notified artificially. -/
def EventLoop.plain (supportsEdgeTriggered : Bool) : EventLoop where
  State := SocketEventMask × SocketEventMask
  supportsEdgeTriggered := supportsEdgeTriggered
  registerSocket events := (events, fun _ => false)
  socketChanges s event := (fun e => s.1 e || supportsEdgeTriggered && event.mask e, s.2)
  rearmSocket s events := (fun e => s.1 e || events e, s.2)
  artificiallyNotifyEvent s events := (s.1, fun e => s.2 e || events e)
  runEventLoopOnce s ready := (fun e => s.1 e && ready e || s.2 e, fun e => s.1 e && !ready e, fun _ => false)
  Armed s e := s.1 e = true
  Notified s e := s.2 e = true
  registerSocket_armed := id
  registerSocket_notified := by simp
  socketChanges_armed := by simp +contextual
  socketChanges_edge := by simp +contextual [SocketEvent.mask]
  socketChanges_once := by simp +contextual
  socketChanges_notified := Iff.rfl
  rearmSocket_armed := by simp
  rearmSocket_notified _ := Iff.rfl
  artificiallyNotifyEvent_armed := Iff.rfl
  artificiallyNotifyEvent_notified := by simp
  reports_armed := by simp +contextual
  reports_notified := by simp +contextual
  reports_once := by simp +contextual
  unreported_once := by simp +contextual
  runEventLoopOnce_notified := by simp

theorem writable_spent_answering : ∃ s transfers,
    Machine.runM (step (.batches Bool 2 (by decide)) 16) (listening .answering (.plain false) [] true)
      [.runEventLoopOnce [], .arrive [true, false, true], .runEventLoopOnce []] = .ok (s, transfers) ∧
        Machine.Licensed Transfer.Unspent transfers.flatten :=
  writable_spent .answering _ (.plain false) rfl 16 [] true _

-- The first turn finds the socket writable and nothing to write. The answer stays pending.
example : (Machine.runM (step (.batches Bool 2 (by decide)) 16) (listening .answering (.plain false) [] true)
    [.runEventLoopOnce [], .arrive [true, false, true], .runEventLoopOnce [], .runEventLoopOnce [],
      .runEventLoopOnce []]).map (fun r => (r.1.dispatcher, r.2.flatten)) =
    .ok (((0, true) : Nat × Bool),
      [.onCanWrite false, .processPacket true, .processPacket false, .processPacket true]) := rfl

end WebTransport.Server

import WebTransport.BidirectionalStream.Page
import WebTransport.Datagrams.Delivery
import WebTransport.Datagrams.Poll

/-! The media server in front of the page. Every stream polls the one UDP socket from its
interval, and writes what it reads as a frame. -/
namespace WebTransport.BidirectionalStream

open Loop RTP VP8 Datagrams Framing Grouping

namespace Relay

/-- A datagram comes to the socket, or the interval of a stream fires. The clock and the
answer of `Write` are the environment's. -/
inductive Event where
  | arrive (datagram : List UInt8)
  | tick (stream : Nat) (now : UInt64) (written : Bool)
  deriving DecidableEq, Repr

/-- A frame for a stream, and whether `Write` took it; it takes all or nothing. -/
structure Sent where
  stream : Nat
  frame : Frame
  written : Bool
  deriving DecidableEq, Repr

def step (socket : List (List UInt8)) : Event → List (List UInt8) × List Sent
  | .arrive datagram => (socket ++ [datagram], [])
  | .tick stream now written =>
    match poll socket with
    | (some data, rest) => (rest, [⟨stream, ⟨0, now, data⟩, written⟩])
    | (none, rest) => (rest, [])

def Event.arrived : Event → List (List UInt8)
  | .arrive datagram => [datagram]
  | .tick _ _ _ => []

def frames (stream : Nat) (sent : List Sent) : List Frame :=
  (sent.filter fun s => s.stream == stream && s.written).map (·.frame)

def bytes (stream : Nat) (sent : List Sent) : List UInt8 :=
  (frames stream sent).flatMap (·.serialize)

/-- Every datagram that came is read once and in order, by whichever stream's turn it is,
or is still in the socket. -/
theorem relayed_once (events : List Event) :
    (events.flatMap Event.arrived).filterMap forwardable =
      (Machine.run step [] events).2.map (·.frame.data) ++
        (Machine.run step [] events).1.filterMap forwardable := by
  have moves : ∀ (socket : List (List UInt8)) (event : Event),
      socket.filterMap forwardable ++ event.arrived.filterMap forwardable =
        (step socket event).2.flatMap (fun s => [s.frame.data]) ++ (step socket event).1.filterMap forwardable := by
    intro socket event
    cases event with
    | arrive datagram => simp [step, Event.arrived]
    | tick stream now written =>
      cases socket with
      | nil => rfl
      | cons datagram rest =>
        simp only [step, poll_cons, Event.arrived, List.filterMap_cons, List.filterMap_nil, List.append_nil]
        cases forwardable datagram <;> simp
  have conserved := Machine.run_conserves (List.filterMap forwardable)
    (fun event : Event => event.arrived.filterMap forwardable) (fun s : Sent => [s.frame.data]) moves [] events
  rw [List.filterMap_nil, List.nil_append] at conserved
  rw [List.filterMap_flatMap, conserved, List.map_eq_flatMap]

theorem sent_small (events : List Event) : ∀ s ∈ (Machine.run step [] events).2, s.frame.Sendable := by
  apply Machine.run_outputs
  intro socket event s member
  cases event with
  | arrive datagram => simp [step] at member
  | tick stream now written =>
    cases socket with
    | nil => simp [step, poll, recvfrom] at member
    | cons datagram rest =>
      simp only [step, poll_cons] at member
      cases forwarded : forwardable datagram with
      | none => simp [forwarded] at member
      | some data =>
        obtain rfl : s = ⟨stream, ⟨0, now, data⟩, written⟩ := by simpa [forwarded] using member
        have small := (forwardable_length forwarded).2
        change data.length < 2 ^ 32
        omega

/-- What the page drains from the bytes of its stream are the frames that went into it. -/
theorem drain_bytes (events : List Event) (stream : Nat) :
    ∃ whole : List Sendable, whole.map (·.val) = frames stream (Machine.run step [] events).2 ∧
      drain frameCodec.toDecoder (bytes stream (Machine.run step [] events).2) = (whole, []) := by
  have small : ∀ f ∈ frames stream (Machine.run step [] events).2, f.Sendable := by
    intro f member
    obtain ⟨s, taken, rfl⟩ := List.mem_map.mp member
    exact sent_small events s (List.mem_of_mem_filter taken)
  refine ⟨(frames stream (Machine.run step [] events).2).attachWith _ small, List.attachWith_map_subtype_val _, ?_⟩
  have encoded := drain_encode (c := frameCodec)
    ((frames stream (Machine.run step [] events).2).attachWith _ small) []
  rw [drain_none (show frameCodec.toDecoder.next [] = none from rfl), List.append_nil, List.append_nil] at encoded
  rw [← encoded, bytes, List.flatMap_def]
  congr 2
  conv_lhs => rw [← List.attachWith_map_subtype_val small, List.map_map]
  rfl

end Relay

/-- The whole way from the server's socket to the decoder, in any order of datagrams and
intervals: each datagram goes to one stream, in order, and with the bytes of a stream in any
chunks, its page decodes what was written to it, divided at the markers. -/
theorem page_shows_stream (native : Bool) (returns : List Call → Call → Bool) (events : List Relay.Event)
    (stream : Nat) (chunks : List (List UInt8))
    (cutting : chunks.flatten = Relay.bytes stream (Machine.run Relay.step [] events).2) :
    (events.flatMap Relay.Event.arrived).filterMap forwardable =
        (Machine.run Relay.step [] events).2.map (·.frame.data) ++
          (Machine.run Relay.step [] events).1.filterMap forwardable ∧
    ∃ page handed shown opened,
      Machine.runM (onChunk native (Page.process returns)) ⟨[], {}⟩ chunks = .ok (⟨[], page⟩, handed) ∧
      Page.Divided returns ((Relay.frames stream (Machine.run Relay.step [] events).2).filterMap
        fun f => arrival? f.data) page shown opened := by
  obtain ⟨handed, run⟩ := Page.run_receive native returns chunks
  obtain ⟨whole, same, drained⟩ := Relay.drain_bytes events stream
  rw [cutting, drained] at run
  obtain ⟨shown, opened, divided⟩ := Page.foldl_divided returns
    (whole.map fun f => arrival? f.val.data)
  refine ⟨Relay.relayed_once events, _, handed, shown, opened, run, ?_⟩
  rw [← same, List.filterMap_map]
  rw [List.filterMap_map] at divided
  exact divided

/-- Two streams take turns at the socket; the last packet of a frame goes to the other one. -/
def twoViewers : List Relay.Event :=
  [.arrive [0x80, 0x60, 0, 0, 0, 0, 0, 1, 0, 0, 0, 7, 0x10, 0xA1], .tick 0 5 true,
    .arrive [0x80, 0xE0, 0, 1, 0, 0, 0, 1, 0, 0, 0, 7, 0x00, 0xA2], .tick 1 6 true]

theorem page_shows_stream_two :
    (twoViewers.flatMap Relay.Event.arrived).filterMap forwardable =
        (Machine.run Relay.step [] twoViewers).2.map (·.frame.data) ++
          (Machine.run Relay.step [] twoViewers).1.filterMap forwardable ∧
    ∃ page handed shown opened,
      Machine.runM (onChunk true (Page.process fun _ _ => true)) ⟨[], {}⟩
        [[0, 0, 0, 0, 0, 0, 0, 0, 6, 0, 0, 0, 14, 0x80, 0xE0, 0, 1, 0, 0],
          [0, 1, 0, 0, 0, 7, 0x00, 0xA2]] = .ok (⟨[], page⟩, handed) ∧
      Page.Divided (fun _ _ => true) ((Relay.frames 1 (Machine.run Relay.step [] twoViewers).2).filterMap
        fun f => arrival? f.data) page shown opened :=
  page_shows_stream true (fun _ _ => true) twoViewers 1
    [[0, 0, 0, 0, 0, 0, 0, 0, 6, 0, 0, 0, 14, 0x80, 0xE0, 0, 1, 0, 0], [0, 1, 0, 0, 0, 7, 0x00, 0xA2]]
    (by decide +kernel)

end WebTransport.BidirectionalStream

import WebTransport.Datagrams.Depacketizer
import WebTransport.Theory.Machine
import Mathlib.Data.FinEnum

/-! `WebTransportRTPClient`: loss detection and frame assembly over received datagrams.
`processRTPPacket` is the method; `Arrival` is what a datagram says to it, and
`onArrival` is the part of the method behind the parsers. -/
namespace WebTransport.Datagrams

open Loop RTP VP8

/-- An element of `currentFramePackets`. -/
structure FramePacket where
  payload : List UInt8
  isKeyFrame : Bool
  timestamp : Int
  deriving DecidableEq, Repr

structure EncodedVideoChunk where
  key : Bool
  timestamp : Int
  data : List UInt8
  deriving DecidableEq, Repr

structure Client where
  rtpPacket : RTPPacket Int := RTPPacket.fresh
  vp8Depacketizer : VP8Depacketizer := {}
  currentFramePackets : List FramePacket := []
  lastSequenceNumber : Option UInt16 := none
  deriving DecidableEq, Repr

/-- What a datagram says once both parsers have accepted it. -/
structure Arrival where
  sequenceNumber : UInt16
  marker : Bool
  head : Bool
  isKeyFrame : Bool
  timestamp : Int
  body : List UInt8
  deriving DecidableEq, Repr

namespace Client

-- Whether the `EncodedVideoChunk` constructor returns. If it throws, the exception is
-- caught and nothing is decoded; an exception of `decode` itself changes nothing.
variable (constructs : EncodedVideoChunk → Bool)

def assembleAndDecodeFrame (c : Client) : List EncodedVideoChunk :=
  match c.currentFramePackets with
  | [] => []
  | first :: _ =>
    let chunk := ⟨first.isKeyFrame, first.timestamp * 1000, c.currentFramePackets.flatMap (·.payload)⟩
    if constructs chunk then [chunk] else []

/-- Loss detection: a gap in front of a packet that is no head empties the assembly. -/
def detectLoss (c : Client) (a : Arrival) : Client :=
  match c.lastSequenceNumber with
  | some last =>
    let expectedSeqNum := last + 1
    if a.sequenceNumber ≠ expectedSeqNum then
      if a.head then c else { c with currentFramePackets := [] }
    else c
  | none => c

def startPartition (c : Client) (a : Arrival) : Client × List EncodedVideoChunk :=
  if a.head ∧ 0 < c.currentFramePackets.length then
    ({ c with currentFramePackets := [] }, c.assembleAndDecodeFrame constructs)
  else (c, [])

def keepPayload (c : Client) (a : Arrival) : Client :=
  if 0 < a.body.length then
    { c with currentFramePackets := c.currentFramePackets ++ [⟨a.body, a.isKeyFrame, a.timestamp⟩] }
  else c

def endFrame (c : Client) (a : Arrival) : Client × List EncodedVideoChunk :=
  if a.marker then ({ c with currentFramePackets := [] }, c.assembleAndDecodeFrame constructs)
  else (c, [])

def onArrival (c : Client) (a : Arrival) : Client × List EncodedVideoChunk :=
  let c := c.detectLoss a
  let c := { c with lastSequenceNumber := some a.sequenceNumber }
  let (c, flushed) := c.startPartition constructs a
  let c := c.keepPayload a
  let (c, decoded) := c.endFrame constructs a
  (c, flushed ++ decoded)

def processRTPPacket (c : Client) (data : List UInt8) : Except Fault (Client × List EncodedVideoChunk) := do
  let (parsed, rtpPacket) ← c.rtpPacket.unmarshalJs data
  let c := { c with rtpPacket }
  if parsed then
    match rtpPacket.payload with
    | none => .ok (c, [])
    | some payload =>
      if payload.length = 0 then .ok (c, [])
      else
        let (output, vp8Depacketizer) ←
          c.vp8Depacketizer.unmarshal payload (List.replicate payload.length 0)
        let c := { c with vp8Depacketizer }
        match output with
        | none => .ok (c, [])
        | some (data, size) =>
          let vp8Payload := data.take size
          let isPartitionHead ← VP8Packet.isPartitionHead payload
          .ok (c.onArrival constructs ⟨rtpPacket.sequenceNumber, rtpPacket.marker, isPartitionHead,
            vp8Depacketizer.isKeyFrame, rtpPacket.timestamp, vp8Payload⟩)
  else .ok (c, [])

end Client

/-- The arrival that a datagram is, if it is one. The head flag is the S bit. -/
def arrival? (datagram : List UInt8) : Option Arrival := do
  let rtp ← RTPPacket.read? datagram
  let payload ← rtp.payload
  let (vp8, body) ← VP8Packet.read? payload
  some ⟨rtp.sequenceNumber, rtp.marker, vp8.s == 1, vp8.s == 1 && vp8.pid == 0, rtp.timestamp, body⟩

theorem isPartitionHead_eq (first : UInt8) (rest : List UInt8) :
    VP8Packet.isPartitionHead (first :: rest) = .ok (((first &&& 0x10) >>> 4) == 1) := by
  have bit : ∀ b : UInt8, ((b &&& 0x10) != 0) = (((b &&& 0x10) >>> 4) == 1) := by decide +kernel
  simp [VP8Packet.isPartitionHead, bit]

theorem isPartitionHead_read (vp8 : VP8Packet.read? payload = some (v, body)) :
    VP8Packet.isPartitionHead payload = .ok (v.s == 1) := by
  have walk := ({} : VP8Packet).parseDescriptor_read payload
  rw [vp8] at walk
  obtain ⟨index, walked, _⟩ := walk
  obtain ⟨b, rest, rfl, flag, _⟩ := VP8Packet.parseDescriptor_first _ _ walked
  rw [isPartitionHead_eq, flag]

/-- A datagram is its arrival: anything else only changes the parser objects. -/
theorem processRTPPacket_arrival (constructs : EncodedVideoChunk → Bool) (c : Client) (datagram : List UInt8) :
    ∃ rtpPacket vp8Depacketizer, c.processRTPPacket constructs datagram = .ok
      (match arrival? datagram with
      | some a => Client.onArrival constructs { c with rtpPacket, vp8Depacketizer } a
      | none => ({ c with rtpPacket, vp8Depacketizer }, [])) := by
  obtain ⟨q, read⟩ := c.rtpPacket.unmarshalJs_read datagram
  cases rtp : RTPPacket.read? datagram with
  | none =>
    rw [rtp] at read
    refine ⟨q, c.vp8Depacketizer, ?_⟩
    simp [Client.processRTPPacket, read, arrival?, rtp]
  | some r =>
    rw [rtp] at read
    obtain ⟨parsed, id, length, rfl⟩ := read
    cases carried : r.payload with
    | none =>
      have reading : arrival? datagram = none := by simp [arrival?, rtp, carried]
      refine ⟨{ r with extensionHeaderId := id, extensionLength := length }, c.vp8Depacketizer, ?_⟩
      simp only [Client.processRTPPacket, parsed, ok_bind, if_true, carried, reading]
    | some payload =>
      obtain ⟨d, unpacked⟩ := c.vp8Depacketizer.unmarshal_read payload
      by_cases empty : payload.length = 0
      · obtain rfl := List.length_eq_zero_iff.mp empty
        refine ⟨{ r with extensionHeaderId := id, extensionLength := length }, c.vp8Depacketizer, ?_⟩
        have reading : arrival? datagram = none := by
          simp [arrival?, rtp, carried, VP8Packet.read?, VP8Packet.parseDescriptor, VP8Packet.parseFirst]
        simp only [Client.processRTPPacket, parsed, ok_bind, if_true, carried, List.length_nil, reading]
      cases vp8 : VP8Packet.read? payload with
      | none =>
        rw [vp8] at unpacked
        refine ⟨{ r with extensionHeaderId := id, extensionLength := length }, d, ?_⟩
        have reading : arrival? datagram = none := by simp [arrival?, rtp, carried, vp8]
        simp only [Client.processRTPPacket, parsed, ok_bind, if_true, carried, empty, if_false, unpacked,
          reading]
      | some result =>
        obtain ⟨v, body⟩ := result
        rw [vp8] at unpacked
        obtain ⟨data, same, sliced, unpacked⟩ := unpacked
        have head := isPartitionHead_read vp8
        refine ⟨{ r with extensionHeaderId := id, extensionLength := length }, d, ?_⟩
        have reading : arrival? datagram = some ⟨r.sequenceNumber, r.marker, v.s == 1, v.s == 1 && v.pid == 0,
            r.timestamp, body⟩ := by simp [arrival?, rtp, carried, vp8]
        simp only [Client.processRTPPacket, parsed, ok_bind, if_true, carried, empty, if_false, unpacked,
          sliced, head, VP8Depacketizer.isKeyFrame, same, reading]

/-- Assembly does not look at the parser objects. -/
theorem onArrival_parsers (constructs : EncodedVideoChunk → Bool) (c : Client) (a : Arrival)
    (rtpPacket : RTPPacket Int) (vp8Depacketizer : VP8Depacketizer) :
    Client.onArrival constructs { c with rtpPacket, vp8Depacketizer } a =
      ({ (c.onArrival constructs a).1 with rtpPacket, vp8Depacketizer }, (c.onArrival constructs a).2) := by
  have loss : Client.detectLoss { c with rtpPacket, vp8Depacketizer } a =
      { c.detectLoss a with rtpPacket, vp8Depacketizer } := by
    obtain ⟨_, _, packets, last⟩ := c
    cases last with
    | none => rfl
    | some last =>
      simp only [Client.detectLoss]
      split
      · split <;> rfl
      · rfl
  have start (c : Client) : Client.startPartition constructs { c with rtpPacket, vp8Depacketizer } a =
      ({ (c.startPartition constructs a).1 with rtpPacket, vp8Depacketizer },
        (c.startPartition constructs a).2) := by
    unfold Client.startPartition
    split <;> rfl
  have keep (c : Client) : Client.keepPayload { c with rtpPacket, vp8Depacketizer } a =
      { c.keepPayload a with rtpPacket, vp8Depacketizer } := by
    unfold Client.keepPayload
    split <;> rfl
  have finish (c : Client) : Client.endFrame constructs { c with rtpPacket, vp8Depacketizer } a =
      ({ (c.endFrame constructs a).1 with rtpPacket, vp8Depacketizer },
        (c.endFrame constructs a).2) := by
    unfold Client.endFrame
    split <;> rfl
  simp only [Client.onArrival, loss]
  rw [start { c.detectLoss a with lastSequenceNumber := some a.sequenceNumber }]
  simp only
  rw [keep, finish]

theorem run_processRTPPacket (constructs : EncodedVideoChunk → Bool) (c : Client)
    (datagrams : List (List UInt8)) : ∃ rtpPacket vp8Depacketizer outputs,
    Machine.runM (Client.processRTPPacket constructs) c datagrams = .ok
        ({ (Machine.run (Client.onArrival constructs) c (datagrams.filterMap arrival?)).1 with
          rtpPacket, vp8Depacketizer }, outputs) ∧
      outputs.flatten = (Machine.run (Client.onArrival constructs) c (datagrams.filterMap arrival?)).2 := by
  -- generalised over the parser objects that the run starts with
  suffices general : ∀ rtp vp8, ∃ rtpPacket vp8Depacketizer outputs,
      Machine.runM (Client.processRTPPacket constructs)
          { c with rtpPacket := rtp, vp8Depacketizer := vp8 } datagrams = .ok
        ({ (Machine.run (Client.onArrival constructs) c (datagrams.filterMap arrival?)).1 with
          rtpPacket, vp8Depacketizer }, outputs) ∧
      outputs.flatten = (Machine.run (Client.onArrival constructs) c (datagrams.filterMap arrival?)).2 from
    general c.rtpPacket c.vp8Depacketizer
  induction datagrams generalizing c with
  | nil => exact fun rtp vp8 => ⟨rtp, vp8, [], rfl, rfl⟩
  | cons datagram rest ih =>
    intro rtp vp8
    obtain ⟨rtp', vp8', now⟩ := processRTPPacket_arrival constructs
      { c with rtpPacket := rtp, vp8Depacketizer := vp8 } datagram
    cases reading : arrival? datagram with
    | none =>
      obtain ⟨rtpPacket, vp8Depacketizer, outputs, later, same⟩ := ih c rtp' vp8'
      rw [reading] at now
      rw [List.filterMap_cons_none reading]
      exact ⟨rtpPacket, vp8Depacketizer, _, Machine.runM_cons_ok now later, by rw [List.flatten_cons, same]; rfl⟩
    | some a =>
      rw [reading] at now
      simp only [onArrival_parsers] at now
      obtain ⟨rtpPacket, vp8Depacketizer, outputs, later, same⟩ :=
        ih (c.onArrival constructs a).1 rtp' vp8'
      rw [List.filterMap_cons_some reading, Machine.run_cons]
      exact ⟨rtpPacket, vp8Depacketizer, _, Machine.runM_cons_ok now later, by rw [List.flatten_cons, same]⟩

end WebTransport.Datagrams

import WebTransport.RTP.JavaScript
import WebTransport.RTP.Format
import WebTransport.VP8.Descriptor

/-! The JavaScript parsers of the datagram client. The two packet classes mirror the C++
ones: the 32-bit RTP fields are signed, and the VP8 body goes into a buffer that the
caller provides, with its size on the side. -/
namespace WebTransport

open Loop

namespace RTP.RTPPacket

/-- `b0 << 24 | b1 << 16 | b2 << 8 | b3` of four bytes: bitwise operators give a signed
32-bit number. -/
def signedWord (w : UInt32) : Int := w.toInt32.toInt

def fresh : RTPPacket Int := { timestamp := 0, ssrc := 0 }

def unmarshalJs (p : RTPPacket Int) (buffer : List UInt8) : Except Fault (Bool × RTPPacket Int) :=
  p.unmarshalWith signedWord buffer

/-- With its fields as numbers this is the class as the page has it. -/
theorem unmarshalJs_eq (p : RTPPacket Int) (buffer : List UInt8) :
    (JavaScript.RTPPacket.numbers id p).unmarshal buffer =
      (p.unmarshalJs buffer).map fun r => (r.1, JavaScript.RTPPacket.numbers id r.2) :=
  JavaScript.RTPPacket.unmarshal_eq signedWord id (fun _ => rfl) p buffer

/-- The fields of an accepted buffer, apart from an absent extension's. -/
def read? (buffer : List UInt8) : Option (RTPPacket Int) :=
  match fresh.parse signedWord buffer with
  | .ok p => some p
  | .error _ => none

/-- A call on any object reads the buffer as a new object does. -/
theorem unmarshalJs_read (p : RTPPacket Int) (buffer : List UInt8) : ∃ q,
    match read? buffer with
    | some r => p.unmarshalJs buffer = .ok (true, q) ∧ SameBuffer r q
    | none => p.unmarshalJs buffer = .ok (false, q) := by
  rcases (fresh.parse_alike buffer signedWord p).ends (p.parse_safe buffer signedWord) with
    ⟨r, q, one, other, same, -⟩ | ⟨s, t, one, other⟩
  · have found : read? buffer = some r := by rw [read?, one]
    rw [found]
    exact ⟨q, by rw [unmarshalJs, unmarshalWith, other], same⟩
  · have none : read? buffer = none := by rw [read?, one]
    rw [none]
    exact ⟨t, by rw [unmarshalJs, unmarshalWith, other]⟩

end RTP.RTPPacket

namespace VP8

/-- Indexed stores from the beginning of a typed array; stores past its end are dropped. -/
def overwrite (buffer bytes : List UInt8) : List UInt8 :=
  (bytes ++ buffer.drop bytes.length).take buffer.length

theorem take_overwrite (buffer bytes : List UInt8) (fits : bytes.length ≤ buffer.length) :
    (overwrite buffer bytes).take bytes.length = bytes := by
  rw [overwrite, List.take_take, Nat.min_eq_left fits, List.take_left]

theorem length_overwrite (buffer bytes : List UInt8) (fits : bytes.length ≤ buffer.length) :
    (overwrite buffer bytes).length = buffer.length := by
  simp [overwrite]
  omega

namespace VP8Packet

/-- The JavaScript `unmarshal`: error, packet, output buffer and `outputInfo.length`. -/
def unmarshalJs (p : VP8Packet) (payload outputPayload : List UInt8) :
    Except Fault (VP8PacketError × VP8Packet × List UInt8 × Nat) :=
  if payload.length = 0 then .ok (.nilPacket, p, outputPayload, 0)
  else
    match p.parseDescriptor payload with
    | .error (.fault fault) => .error fault
    | .error (.early p) => .ok (.shortPacket, p, outputPayload, 0)
    | .ok (p, index) => do
      let actualPayload ← slice payload index (payload.length - index)
      .ok (.ok, p, overwrite outputPayload actualPayload, actualPayload.length)

def read? (payload : List UInt8) : Option (VP8Packet × List UInt8) :=
  match ({} : VP8Packet).parseDescriptor payload with
  | .ok (p, index) => some (p, payload.drop index)
  | .error _ => none

/-- A walk from any packet reads the payload as a walk from a new one. -/
theorem parseDescriptor_read (p : VP8Packet) (payload : List UInt8) :
    match read? payload with
    | some (q, body) => ∃ index, p.parseDescriptor payload = .ok (q, index) ∧ index ≤ payload.length ∧
        body = payload.drop index
    | none => ∃ q, p.parseDescriptor payload = .error (.early q) := by
  rcases (parseDescriptor_alike payload {} p).ends (p.parseDescriptor_safe payload) with
    ⟨⟨r, n⟩, q, one, other, same, inside⟩ | ⟨s, t, one, other⟩
  · obtain rfl : (r, n) = q := same
    have found : read? payload = some (r, payload.drop n) := by rw [read?, one]
    rw [found]
    exact ⟨n, other, inside, rfl⟩
  · have none : read? payload = none := by rw [read?, one]
    rw [none]
    exact ⟨t, other⟩

end VP8Packet

/-- `VP8DepacketizerFixed`. -/
structure VP8Depacketizer where
  packet : VP8Packet := {}
  payloadSize : Nat := 0
  deriving DecidableEq, Repr

namespace VP8Depacketizer

/-- With true, the output container's data and size. -/
def unmarshal (d : VP8Depacketizer) (packet outputData : List UInt8) :
    Except Fault (Option (List UInt8 × Nat) × VP8Depacketizer) :=
  if packet.length = 0 then .ok (none, d)
  else do
    let (err, p, tempOutput, actualSize) ← d.packet.unmarshalJs packet (List.replicate packet.length 0)
    if err ≠ .ok then .ok (none, { d with packet := p })
    else
      let copied ← slice tempOutput 0 actualSize
      .ok (some (overwrite outputData copied, actualSize), ⟨p, actualSize⟩)

def isKeyFrame (d : VP8Depacketizer) : Bool := d.packet.s == 1 && d.packet.pid == 0

/-- With a buffer as long as the payload, what the client slices off is the body. -/
theorem unmarshal_read (d : VP8Depacketizer) (payload : List UInt8) : ∃ d' : VP8Depacketizer,
    match VP8Packet.read? payload with
    | some (q, body) => ∃ data, d'.packet = q ∧ data.take body.length = body ∧
        d.unmarshal payload (List.replicate payload.length 0) = .ok (some (data, body.length), d')
    | none => d.unmarshal payload (List.replicate payload.length 0) = .ok (none, d') := by
  by_cases empty : payload.length = 0
  · obtain rfl := List.length_eq_zero_iff.mp empty
    exact ⟨d, rfl⟩
  have walk := d.packet.parseDescriptor_read payload
  cases read : VP8Packet.read? payload with
  | none =>
    rw [read] at walk
    obtain ⟨q, short⟩ := walk
    exact ⟨{ d with packet := q }, by
      simp only [unmarshal, empty, if_false, VP8Packet.unmarshalJs, short, ok_bind]
      rfl⟩
  | some result =>
    obtain ⟨q, body⟩ := result
    rw [read] at walk
    obtain ⟨index, parsed, inside, rfl⟩ := walk
    have room : (payload.drop index).length ≤ (List.replicate payload.length (0 : UInt8)).length := by
      simp
    have copied : slice payload index (payload.length - index) = .ok (payload.drop index) := by
      rw [slice_of_le (by omega), List.take_of_length_le (by simp)]
    have sliced : slice (overwrite (List.replicate payload.length 0) (payload.drop index)) 0
        (payload.drop index).length = .ok (payload.drop index) := by
      rw [slice_of_le (by rw [length_overwrite _ _ room]; omega), List.drop_zero, take_overwrite _ _ room]
    have written : d.unmarshal payload (List.replicate payload.length 0) =
        .ok (some (overwrite (List.replicate payload.length 0) (payload.drop index), (payload.drop index).length),
          ⟨q, (payload.drop index).length⟩) := by
      simp only [unmarshal, empty, if_false, VP8Packet.unmarshalJs, parsed, ok_bind, copied, sliced,
        ne_eq, not_true_eq_false]
    exact ⟨⟨q, (payload.drop index).length⟩, _, rfl, take_overwrite _ _ room, written⟩

end VP8Depacketizer

end VP8

end WebTransport

import WebTransport.Theory.Bytes
import WebTransport.Theory.Early
import Mathlib.Data.FinEnum

/-! The VP8 payload descriptor as `VP8Packet` walks it. The C++ class and the
JavaScript one read the same bytes in the same order and differ only in how they
hand out the body. A walk that runs short leaves the fields it has set. -/
namespace WebTransport.VP8

open Loop BigEndian

inductive VP8PacketError where
  | ok
  | nilPacket
  | shortPacket
  deriving DecidableEq, Repr

structure VP8Packet where
  x : UInt8 := 0
  n : UInt8 := 0
  s : UInt8 := 0
  pid : UInt8 := 0
  i : UInt8 := 0
  l : UInt8 := 0
  t : UInt8 := 0
  k : UInt8 := 0
  pictureId : UInt16 := 0
  tl0picIdx : UInt8 := 0
  tid : UInt8 := 0
  y : UInt8 := 0
  keyIdx : UInt8 := 0
  deriving DecidableEq, Repr

namespace VP8Packet

variable (p : VP8Packet) (payload : List UInt8) (index : Nat)

def parseFirst : Except (Stop VP8Packet) (VP8Packet × Nat) :=
  if payload.length ≤ index then .error (.early p)
  else do
    let b ← checked (readAt payload index)
    .ok ({ p with x := (b &&& 0x80) >>> 7, n := (b &&& 0x20) >>> 5, s := (b &&& 0x10) >>> 4, pid := b &&& 0x07 },
      index + 1)

def parseX : Except (Stop VP8Packet) (VP8Packet × Nat) :=
  if p.x = 1 then
    if payload.length ≤ index then .error (.early p)
    else do
      let b ← checked (readAt payload index)
      .ok ({ p with i := (b &&& 0x80) >>> 7, l := (b &&& 0x40) >>> 6, t := (b &&& 0x20) >>> 5, k := (b &&& 0x10) >>> 4 },
        index + 1)
  else .ok ({ p with i := 0, l := 0, t := 0, k := 0 }, index)

def parsePictureID : Except (Stop VP8Packet) (VP8Packet × Nat) :=
  if p.i = 1 then
    if payload.length ≤ index then .error (.early p)
    else do
      let b ← checked (readAt payload index)
      if b &&& 0x80 ≠ 0 then
        if payload.length ≤ index + 1 then .error (.early p)
        else
          let low ← checked (readAt payload (index + 1))
          .ok ({ p with pictureId := join16 (b &&& 0x7F) low }, index + 2)
      else .ok ({ p with pictureId := b.toUInt16 }, index + 1)
  else .ok ({ p with pictureId := 0 }, index)

def parseTL0PICIDX : Except (Stop VP8Packet) (VP8Packet × Nat) :=
  if p.l = 1 then
    if payload.length ≤ index then .error (.early p)
    else do
      let b ← checked (readAt payload index)
      .ok ({ p with tl0picIdx := b }, index + 1)
  else .ok ({ p with tl0picIdx := 0 }, index)

def parseTID : Except (Stop VP8Packet) (VP8Packet × Nat) :=
  if p.t = 1 ∨ p.k = 1 then
    if payload.length ≤ index then .error (.early p)
    else do
      let b ← checked (readAt payload index)
      let p := if p.t = 1 then { p with tid := b >>> 6, y := (b >>> 5) &&& 0x1 } else { p with tid := 0, y := 0 }
      let p := if p.k = 1 then { p with keyIdx := b &&& 0x1F } else { p with keyIdx := 0 }
      .ok (p, index + 1)
  else .ok ({ p with tid := 0, y := 0, keyIdx := 0 }, index)

/-- The walk over the whole descriptor; the number is the index of the body. -/
def parseDescriptor : Except (Stop VP8Packet) (VP8Packet × Nat) := do
  let (p, index) ← p.parseFirst payload 0
  let (p, index) ← p.parseX payload index
  let (p, index) ← p.parsePictureID payload index
  let (p, index) ← p.parseTL0PICIDX payload index
  p.parseTID payload index

/-- The C++ method, with an output vector. Only a whole descriptor touches the vector. -/
def unmarshal (output : List UInt8) : Except Fault (VP8PacketError × VP8Packet × List UInt8) :=
  if payload.length = 0 then .ok (.nilPacket, p, output)
  else
    match p.parseDescriptor payload with
    | .error (.fault fault) => .error fault
    | .error (.early p) => .ok (.shortPacket, p, output)
    | .ok (p, index) => do
      let body ← slice payload index (payload.length - index)
      .ok (.ok, p, body)

def isPartitionHead : Except Fault Bool :=
  if payload.length < 1 then .ok false else do .ok (((← readAt payload 0) &&& 0x10) != 0)

variable {p payload index}

/-- A bare first byte: no extension, so no optional field. -/
theorem parseDescriptor_bare (first : UInt8) (body : List UInt8) (bare : (first &&& 0x80) >>> 7 = 0) :
    p.parseDescriptor (first :: body) = .ok (
      { n := (first &&& 0x20) >>> 5, s := (first &&& 0x10) >>> 4, pid := first &&& 0x07 }, 1) := by
  simp [parseDescriptor, parseFirst, parseX, parsePictureID, parseTL0PICIDX, parseTID, bare]

theorem parseX_pictureID (extended : p.x = 1) (next : payload[index]? = some 0x80) :
    p.parseX payload index = .ok ({ p with i := 1, l := 0, t := 0, k := 0 }, index + 1) := by
  obtain ⟨inside, value⟩ := List.getElem?_eq_some_iff.mp next
  rw [parseX, if_pos extended, if_neg (by omega), readAt_of_lt inside, value]
  rfl

theorem parseDescriptor_short (first id : UInt8) (body : List UInt8)
    (extended : (first &&& 0x80) >>> 7 = 1) (short : id &&& 0x80 = 0) :
    p.parseDescriptor (first :: 0x80 :: id :: body) = .ok (
      { x := 1, n := (first &&& 0x20) >>> 5, s := (first &&& 0x10) >>> 4, pid := first &&& 0x07,
        i := 1, pictureId := id.toUInt16 }, 3) := by
  simp [parseDescriptor, parseFirst, parseX_pictureID, parsePictureID, parseTL0PICIDX, parseTID,
    extended, short]

theorem parseDescriptor_long (first high low : UInt8) (body : List UInt8)
    (extended : (first &&& 0x80) >>> 7 = 1) (long : high &&& 0x80 ≠ 0) :
    p.parseDescriptor (first :: 0x80 :: high :: low :: body) = .ok (
      { x := 1, n := (first &&& 0x20) >>> 5, s := (first &&& 0x10) >>> 4, pid := first &&& 0x07,
        i := 1, pictureId := join16 (high &&& 0x7F) low }, 4) := by
  simp [parseDescriptor, parseFirst, parseX_pictureID, parsePictureID, parseTL0PICIDX, parseTID,
    extended, long]

theorem unmarshal_of_parse {q : VP8Packet} (some : header ++ body ≠ [])
    (parsed : p.parseDescriptor (header ++ body) = .ok (q, header.length)) (output : List UInt8) :
    p.unmarshal (header ++ body) output = .ok (.ok, q, body) := by
  have copied : slice (header ++ body) header.length ((header ++ body).length - header.length) = .ok body := by
    simpa using slice_middle header body []
  have nonempty : (header ++ body).length ≠ 0 := fun none => some (List.length_eq_zero_iff.mp none)
  rw [unmarshal, if_neg nonempty, parsed]
  simp only [copied, ok_bind]

end VP8Packet

end WebTransport.VP8

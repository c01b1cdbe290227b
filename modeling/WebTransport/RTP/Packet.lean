import WebTransport.Theory.Bytes
import WebTransport.Theory.Early

/-! `RTPPacket` and its `Unmarshal`. The C++ class and the JavaScript one run the same
checks and assignments; they differ in the type of the 32-bit fields, which is a
parameter. A call that returns false keeps the fields assigned before it. -/
namespace WebTransport.RTP

open Loop BigEndian

structure RTPPacket (Word : Type) where
  version : UInt8 := 0
  padding : Bool := false
  extension : Bool := false
  csrcCount : UInt8 := 0
  marker : Bool := false
  payloadType : UInt8 := 0
  sequenceNumber : UInt16 := 0
  timestamp : Word
  ssrc : Word
  csrcs : List Word := []
  extensionHeaderId : UInt16 := 0
  extensionLength : UInt16 := 0
  extensionValue : Option (List UInt8) := none
  paddingSize : UInt8 := 0
  payload : Option (List UInt8) := none
  payloadSize : Nat := 0
  deriving DecidableEq, Repr

namespace RTPPacket

variable {Word : Type} (toWord : UInt32 → Word)

def wordAt (buffer : List UInt8) (index : Nat) : Except Fault Word := do
  let b0 ← readAt buffer index
  let b1 ← readAt buffer (index + 1)
  let b2 ← readAt buffer (index + 2)
  let b3 ← readAt buffer (index + 3)
  .ok (toWord (join32 b0 b1 b2 b3))

def halfAt (buffer : List UInt8) (index : Nat) : Except Fault UInt16 := do
  let hi ← readAt buffer index
  let lo ← readAt buffer (index + 1)
  .ok (join16 hi lo)

/-- The loop over the contributing sources: `count` fields from `index` on. -/
def csrcsAt (buffer : List UInt8) : Nat → Nat → Except Fault (List Word)
  | 0, _ => .ok []
  | count + 1, index => do
    let csrc ← wordAt toWord buffer index
    let rest ← csrcsAt buffer count (index + 4)
    .ok (csrc :: rest)

variable (p : RTPPacket Word) (buffer : List UInt8) (headerSize : Nat)

/-- The fixed header and the contributing sources; the number is the header size so far. -/
def parseHeader : Except (Stop (RTPPacket Word)) (RTPPacket Word × Nat) :=
  let p := { p with extensionValue := none, payload := none, payloadSize := 0 }
  if buffer.length < 12 then .error (.early p)
  else do
    let b0 ← checked (readAt buffer 0)
    let b1 ← checked (readAt buffer 1)
    let sequenceNumber ← checked (halfAt buffer 2)
    let timestamp ← checked (wordAt toWord buffer 4)
    let ssrc ← checked (wordAt toWord buffer 8)
    let p := { p with
      version := (b0 >>> 6) &&& 0x03
      padding := ((b0 >>> 5) &&& 0x01) != 0
      extension := ((b0 >>> 4) &&& 0x01) != 0
      csrcCount := b0 &&& 0x0F
      marker := ((b1 >>> 7) &&& 0x01) != 0
      payloadType := b1 &&& 0x7F
      sequenceNumber, timestamp, ssrc }
    let headerSize := 12 + p.csrcCount.toNat * 4
    if buffer.length < headerSize then .error (.early p)
    else
      let csrcs ← checked (csrcsAt toWord buffer p.csrcCount.toNat 12)
      .ok ({ p with csrcs }, headerSize)

def parseExtension : Except (Stop (RTPPacket Word)) (RTPPacket Word × Nat) :=
  if p.extension then
    if buffer.length < headerSize + 4 then .error (.early p)
    else do
      let extensionHeaderId ← checked (halfAt buffer headerSize)
      let extensionLength ← checked (halfAt buffer (headerSize + 2))
      let p := { p with extensionHeaderId, extensionLength }
      let extensionSize := p.extensionLength.toNat * 4
      if buffer.length < headerSize + 4 + extensionSize then .error (.early p)
      else
        let value ← checked (slice buffer (headerSize + 4) extensionSize)
        .ok ({ p with extensionValue := some value }, headerSize + (4 + extensionSize))
  else .ok (p, headerSize)

/-- The number is the payload size. The padding count is stored before it is validated. -/
def parsePadding : Except (Stop (RTPPacket Word)) (RTPPacket Word × Nat) :=
  let payloadSize := buffer.length - headerSize
  if p.padding ∧ 0 < payloadSize then do
    let paddingSize ← checked (readAt buffer (buffer.length - 1))
    let p := { p with paddingSize }
    if paddingSize = 0 ∨ payloadSize < paddingSize.toNat then .error (.early p)
    else .ok (p, payloadSize - paddingSize.toNat)
  else .ok ({ p with paddingSize := 0 }, payloadSize)

def storePayload (payloadSize : Nat) : Except (Stop (RTPPacket Word)) (RTPPacket Word) :=
  if 0 < payloadSize then do
    let payload ← checked (slice buffer headerSize payloadSize)
    .ok { p with payload := some payload, payloadSize }
  else .ok p

def parse : Except (Stop (RTPPacket Word)) (RTPPacket Word) := do
  let (p, headerSize) ← p.parseHeader toWord buffer
  let (p, headerSize) ← p.parseExtension buffer headerSize
  let (p, payloadSize) ← p.parsePadding buffer headerSize
  p.storePayload buffer headerSize payloadSize

/-- The method in either language: whether the buffer was accepted, and the object after. -/
def unmarshalWith : Except Fault (Bool × RTPPacket Word) :=
  match p.parse toWord buffer with
  | .ok p => .ok (true, p)
  | .error (.early p) => .ok (false, p)
  | .error (.fault fault) => .error fault

def new : RTPPacket UInt32 := { timestamp := 0, ssrc := 0 }

def unmarshal (p : RTPPacket UInt32) (buffer : List UInt8) : Except Fault (Bool × RTPPacket UInt32) :=
  p.unmarshalWith id buffer

/-- Equal but for the fields that a header does not store. -/
def SameHeader (a b : RTPPacket Word) : Prop := ∃ extensionHeaderId extensionLength paddingSize,
  b = { a with extensionHeaderId, extensionLength, paddingSize }

/-- Equal but for an extension's id and length. -/
def SameBuffer (a b : RTPPacket Word) : Prop := ∃ extensionHeaderId extensionLength,
  b = { a with extensionHeaderId, extensionLength }

end RTPPacket

end WebTransport.RTP

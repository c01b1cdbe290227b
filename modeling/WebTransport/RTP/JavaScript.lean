import WebTransport.RTP.Packet
import WebTransport.Theory.Signed

/-! The JavaScript class `RTPPacket`. Its fields are numbers, and its shifts, masks and
joins are the 32-bit signed operators of the language. Both browser clients hold the same
text of it. `parse_related` compares it with the C++ class field by field. -/
namespace WebTransport.RTP.JavaScript

open Loop Signed

structure RTPPacket where
  version : Int := 0
  padding : Bool := false
  extension : Bool := false
  csrcCount : Int := 0
  marker : Bool := false
  payloadType : Int := 0
  sequenceNumber : Int := 0
  timestamp : Int := 0
  ssrc : Int := 0
  csrcs : List Int := []
  extensionHeaderId : Int := 0
  extensionLength : Int := 0
  extensionValue : Option (List UInt8) := none
  paddingSize : Int := 0
  payload : Option (List UInt8) := none
  payloadSize : Int := 0
  deriving DecidableEq, Repr

namespace RTPPacket

def numberAt (buffer : List UInt8) (index : Nat) : Except Fault Int := do
  let byte ← readAt buffer index
  .ok byte.toNat

def halfAt (buffer : List UInt8) (index : Nat) : Except Fault Int := do
  let hi ← numberAt buffer index
  let lo ← numberAt buffer (index + 1)
  .ok (bitOr (shiftLeft hi 8) lo)

def wordAt (buffer : List UInt8) (index : Nat) : Except Fault Int := do
  let b0 ← numberAt buffer index
  let b1 ← numberAt buffer (index + 1)
  let b2 ← numberAt buffer (index + 2)
  let b3 ← numberAt buffer (index + 3)
  .ok (bitOr (bitOr (bitOr (shiftLeft b0 24) (shiftLeft b1 16)) (shiftLeft b2 8)) b3)

def csrcsAt (buffer : List UInt8) : Nat → Nat → Except Fault (List Int)
  | 0, _ => .ok []
  | count + 1, index => do
    let csrc ← wordAt buffer index
    let rest ← csrcsAt buffer count (index + 4)
    .ok (csrc :: rest)

variable (p : RTPPacket) (buffer : List UInt8) (headerSize : Nat)

def parseHeader : Except (Stop RTPPacket) (RTPPacket × Nat) :=
  let p := { p with extensionValue := none, payload := none, payloadSize := 0 }
  if buffer.length < 12 then .error (.early p)
  else do
    let b0 ← checked (numberAt buffer 0)
    let b1 ← checked (numberAt buffer 1)
    let sequenceNumber ← checked (halfAt buffer 2)
    let timestamp ← checked (wordAt buffer 4)
    let ssrc ← checked (wordAt buffer 8)
    let p := { p with
      version := bitAnd (shiftRight b0 6) 0x03
      padding := bitAnd (shiftRight b0 5) 0x01 != 0
      extension := bitAnd (shiftRight b0 4) 0x01 != 0
      csrcCount := bitAnd b0 0x0F
      marker := bitAnd (shiftRight b1 7) 0x01 != 0
      payloadType := bitAnd b1 0x7F
      sequenceNumber, timestamp, ssrc }
    let headerSize := 12 + p.csrcCount.toNat * 4
    if buffer.length < headerSize then .error (.early p)
    else
      let csrcs ← checked (csrcsAt buffer p.csrcCount.toNat 12)
      .ok ({ p with csrcs }, headerSize)

def parseExtension : Except (Stop RTPPacket) (RTPPacket × Nat) :=
  if p.extension then
    if buffer.length < headerSize + 4 then .error (.early p)
    else do
      let extensionHeaderId ← checked (halfAt buffer headerSize)
      let extensionLength ← checked (halfAt buffer (headerSize + 2))
      let p := { p with extensionHeaderId, extensionLength }
      let extensionSize := p.extensionLength.toNat * 4
      if buffer.length < headerSize + 4 + extensionSize then .error (.early p)
      else
        let value ← checked (slice buffer (headerSize + 4) extensionSize)
        .ok ({ p with extensionValue := some value }, headerSize + (4 + extensionSize))
  else .ok (p, headerSize)

def parsePadding : Except (Stop RTPPacket) (RTPPacket × Nat) :=
  let payloadSize := buffer.length - headerSize
  if p.padding ∧ 0 < payloadSize then do
    let paddingSize ← checked (numberAt buffer (buffer.length - 1))
    let p := { p with paddingSize }
    if paddingSize = 0 ∨ payloadSize < paddingSize then .error (.early p)
    else .ok (p, payloadSize - paddingSize.toNat)
  else .ok ({ p with paddingSize := 0 }, payloadSize)

def storePayload (payloadSize : Nat) : Except (Stop RTPPacket) RTPPacket :=
  if 0 < payloadSize then do
    let payload ← checked (slice buffer headerSize payloadSize)
    .ok { p with payload := some payload, payloadSize }
  else .ok p

def parse : Except (Stop RTPPacket) RTPPacket := do
  let (p, headerSize) ← p.parseHeader buffer
  let (p, headerSize) ← p.parseExtension buffer headerSize
  let (p, payloadSize) ← p.parsePadding buffer headerSize
  p.storePayload buffer headerSize payloadSize

def unmarshal : Except Fault (Bool × RTPPacket) :=
  match p.parse buffer with
  | .ok p => .ok (true, p)
  | .error (.early p) => .ok (false, p)
  | .error (.fault fault) => .error fault

def numbers (value : Word → Int) (p : RTP.RTPPacket Word) : RTPPacket where
  version := p.version.toNat
  padding := p.padding
  extension := p.extension
  csrcCount := p.csrcCount.toNat
  marker := p.marker
  payloadType := p.payloadType.toNat
  sequenceNumber := p.sequenceNumber.toNat
  timestamp := value p.timestamp
  ssrc := value p.ssrc
  csrcs := p.csrcs.map value
  extensionHeaderId := p.extensionHeaderId.toNat
  extensionLength := p.extensionLength.toNat
  extensionValue := p.extensionValue
  paddingSize := p.paddingSize.toNat
  payload := p.payload
  payloadSize := p.payloadSize

theorem numberAt_eq (buffer : List UInt8) (index : Nat) :
    numberAt buffer index = (readAt buffer index).map fun b => (b.toNat : Int) := by
  unfold numberAt
  cases readAt buffer index <;> rfl

theorem halfAt_eq (buffer : List UInt8) (index : Nat) :
    halfAt buffer index = (RTP.RTPPacket.halfAt buffer index).map fun x => (x.toNat : Int) := by
  unfold halfAt RTP.RTPPacket.halfAt
  rw [numberAt_eq, numberAt_eq]
  cases readAt buffer index with
  | error fault => rfl
  | ok hi =>
    cases readAt buffer (index + 1) with
    | error fault => rfl
    | ok lo => exact congrArg Except.ok (half_eq hi lo)

section Words

variable {Word : Type} {toWord : UInt32 → Word} {value : Word → Int}
  (signed : ∀ w, value (toWord w) = w.toInt32.toInt)
include signed

theorem wordAt_eq (buffer : List UInt8) (index : Nat) :
    wordAt buffer index = (RTP.RTPPacket.wordAt toWord buffer index).map value := by
  unfold wordAt RTP.RTPPacket.wordAt
  rw [numberAt_eq, numberAt_eq, numberAt_eq, numberAt_eq]
  cases readAt buffer index with
  | error fault => rfl
  | ok b0 =>
  cases readAt buffer (index + 1) with
  | error fault => rfl
  | ok b1 =>
  cases readAt buffer (index + 2) with
  | error fault => rfl
  | ok b2 =>
  cases readAt buffer (index + 3) with
  | error fault => rfl
  | ok b3 => exact congrArg Except.ok ((word_eq b0 b1 b2 b3).trans (signed _).symm)

theorem csrcsAt_eq (buffer : List UInt8) (count index : Nat) :
    csrcsAt buffer count index = (RTP.RTPPacket.csrcsAt toWord buffer count index).map (List.map value) := by
  induction count generalizing index with
  | zero => rfl
  | succ count ih =>
    unfold csrcsAt RTP.RTPPacket.csrcsAt
    rw [wordAt_eq signed, ih]
    cases RTP.RTPPacket.wordAt toWord buffer index with
    | error fault => rfl
    | ok csrc => cases RTP.RTPPacket.csrcsAt toWord buffer count (index + 4) <;> rfl

end Words

theorem bit_ne_zero (x : UInt8) : ((x.toNat : Int) != 0) = (x != 0) := by
  revert x; decide +kernel

section Stages

variable {Word : Type} {toWord : UInt32 → Word} {value : Word → Int}

/-- The numbers of the C++ object, and the same size. -/
def View (value : Word → Int) (a : RTP.RTPPacket Word × Nat) (b : RTPPacket × Nat) : Prop :=
  b.1 = numbers value a.1 ∧ b.2 = a.2

theorem parseHeader_related (signed : ∀ w, value (toWord w) = w.toInt32.toInt) (p : RTP.RTPPacket Word)
    (buffer : List UInt8) :
    Related (fun p q => q = numbers value p) (View value) (p.parseHeader toWord buffer)
      ((numbers value p).parseHeader buffer) := by
  refine Related.ite Iff.rfl (fun _ => rfl) fun _ => ?_
  refine Related.read _ (numberAt_eq buffer 0) fun b0 => ?_
  refine Related.read _ (numberAt_eq buffer 1) fun b1 => ?_
  refine Related.read _ (halfAt_eq buffer 2) fun sequenceNumber => ?_
  refine Related.read _ (wordAt_eq signed buffer 4) fun timestamp => ?_
  refine Related.read _ (wordAt_eq signed buffer 8) fun ssrc => ?_
  obtain ⟨-, version, padding, extension, count, -⟩ := bits_eq b0
  obtain ⟨marker, -, -, -, -, kind⟩ := bits_eq b1
  simp only [version, padding, extension, count, marker, kind, bit_ne_zero, Int.toNat_natCast]
  refine Related.ite Iff.rfl (fun _ => rfl) fun _ => ?_
  refine Related.read _ (csrcsAt_eq signed buffer _ 12) fun csrcs => ?_
  exact ⟨rfl, rfl⟩

theorem parseExtension_related (p : RTP.RTPPacket Word) (buffer : List UInt8) (headerSize : Nat) :
    Related (fun p q => q = numbers value p) (View value) (p.parseExtension buffer headerSize)
      ((numbers value p).parseExtension buffer headerSize) := by
  refine Related.ite Iff.rfl (fun _ => ?_) fun _ => ⟨rfl, rfl⟩
  refine Related.ite Iff.rfl (fun _ => rfl) fun _ => ?_
  refine Related.read _ (halfAt_eq buffer headerSize) fun identifier => ?_
  refine Related.read _ (halfAt_eq buffer (headerSize + 2)) fun length => ?_
  simp only [Int.toNat_natCast]
  refine Related.ite Iff.rfl (fun _ => rfl) fun _ => ?_
  refine Related.read id ?_ fun value => ?_
  · cases slice buffer (headerSize + 4) (length.toNat * 4) <;> rfl
  · exact ⟨rfl, rfl⟩

theorem parsePadding_related (p : RTP.RTPPacket Word) (buffer : List UInt8) (headerSize : Nat) :
    Related (fun p q => q = numbers value p) (View value) (p.parsePadding buffer headerSize)
      ((numbers value p).parsePadding buffer headerSize) := by
  refine Related.ite Iff.rfl (fun _ => ?_) fun _ => ⟨rfl, rfl⟩
  refine Related.read _ (numberAt_eq buffer (buffer.length - 1)) fun paddingSize => ?_
  have invalid : paddingSize = 0 ∨ buffer.length - headerSize < paddingSize.toNat ↔
      (paddingSize.toNat : Int) = 0 ∨ ((buffer.length - headerSize : Nat) : Int) < paddingSize.toNat := by
    rw [← UInt8.toNat_inj, UInt8.toNat_zero]
    omega
  refine Related.ite invalid (fun _ => rfl) fun _ => ?_
  exact ⟨rfl, rfl⟩

theorem storePayload_related (p : RTP.RTPPacket Word) (buffer : List UInt8) (headerSize payloadSize : Nat) :
    Related (fun p q => q = numbers value p) (fun p q => q = numbers value p)
      (p.storePayload buffer headerSize payloadSize)
      ((numbers value p).storePayload buffer headerSize payloadSize) := by
  refine Related.ite Iff.rfl (fun _ => ?_) fun _ => rfl
  refine Related.read id ?_ fun payload => rfl
  cases slice buffer headerSize payloadSize <;> rfl

/-- Both classes stop at the same line with the same numbers. -/
theorem parse_related (signed : ∀ w, value (toWord w) = w.toInt32.toInt) (p : RTP.RTPPacket Word)
    (buffer : List UInt8) :
    Related (fun p q => q = numbers value p) (fun p q => q = numbers value p) (p.parse toWord buffer)
      ((numbers value p).parse buffer) := by
  refine Related.bind (parseHeader_related signed p buffer) ?_
  rintro ⟨p, headerSize⟩ ⟨q, size⟩ ⟨same, sizes⟩
  obtain rfl : q = numbers value p := same
  obtain rfl : size = headerSize := sizes
  refine Related.bind (parseExtension_related p buffer size) ?_
  rintro ⟨p, headerSize⟩ ⟨q, size⟩ ⟨same, sizes⟩
  obtain rfl : q = numbers value p := same
  obtain rfl : size = headerSize := sizes
  refine Related.bind (parsePadding_related p buffer size) ?_
  rintro ⟨p, payloadSize⟩ ⟨q, rest⟩ ⟨same, sizes⟩
  obtain rfl : q = numbers value p := same
  obtain rfl : rest = payloadSize := sizes
  exact storePayload_related p buffer size rest

end Stages

/-- The JavaScript method is the C++ one with signed words. -/
theorem unmarshal_eq (toWord : UInt32 → Word) (value : Word → Int)
    (signed : ∀ w, value (toWord w) = w.toInt32.toInt) (p : RTP.RTPPacket Word) (buffer : List UInt8) :
    (numbers value p).unmarshal buffer =
      (p.unmarshalWith toWord buffer).map fun r => (r.1, numbers value r.2) := by
  unfold unmarshal RTP.RTPPacket.unmarshalWith
  rcases (parse_related signed p buffer).ends with
    ⟨a, b, one, other, same⟩ | ⟨a, b, one, other, same⟩ | ⟨fault, one, other⟩
  · rw [one, other, show b = numbers value a from same]
    rfl
  · rw [one, other, show b = numbers value a from same]
    rfl
  · rw [one, other]
    rfl

end RTPPacket

end WebTransport.RTP.JavaScript

import WebTransport.RTP.Packet
import Mathlib.Data.FinEnum

/-! The RTP wire format and its decoding. `Fields` holds what a packet says, within the
bounds of the format, and `encode` is its byte string; `received` is the object that
`Unmarshal` leaves, whatever object it was called on. -/
namespace WebTransport.RTP

open Loop BigEndian

structure Extension where
  id : UInt16
  words : List UInt32
  words_lt : words.length < 2 ^ 16

def Extension.value (e : Extension) : List UInt8 := e.words.flatMap fun w => toBytes 4 w.toNat

/-- Padding bytes of any value, of which the last is the count of all. -/
structure Padding where
  filler : List UInt8
  filler_le : filler.length ≤ 254

def Padding.size (padding : Padding) : UInt8 := UInt8.ofNat (padding.filler.length + 1)
def Padding.bytes (padding : Padding) : List UInt8 := padding.filler ++ [padding.size]

theorem Padding.size_toNat (padding : Padding) : padding.size.toNat = padding.filler.length + 1 := by
  have bound := padding.filler_le
  rw [Padding.size, UInt8.toNat_ofNat']
  omega

structure Fields where
  version : Fin 4
  marker : Bool
  payloadType : Fin 128
  sequenceNumber : UInt16
  timestamp : UInt32
  ssrc : UInt32
  csrcs : List UInt32
  csrcs_le : csrcs.length ≤ 15
  extension : Option Extension
  payload : List UInt8
  padding : Option Padding

namespace Fields

variable (f : Fields)

def firstByte : UInt8 := UInt8.ofNat (f.version.val * 64 + f.padding.isSome.toNat * 32 +
  f.extension.isSome.toNat * 16 + f.csrcs.length)

def secondByte : UInt8 := UInt8.ofNat (f.marker.toNat * 128 + f.payloadType.val)

def csrcBytes : List UInt8 := f.csrcs.flatMap fun csrc => toBytes 4 csrc.toNat

def extensionBytes : List UInt8 :=
  match f.extension with
  | some e => toBytes 2 e.id.toNat ++ (toBytes 2 e.words.length ++ e.value)
  | none => []

def paddingBytes : List UInt8 :=
  match f.padding with
  | some padding => padding.bytes
  | none => []

def fixedHeader : List UInt8 :=
  [f.firstByte, f.secondByte] ++ (toBytes 2 f.sequenceNumber.toNat ++
    (toBytes 4 f.timestamp.toNat ++ toBytes 4 f.ssrc.toNat))

def encode : List UInt8 :=
  f.fixedHeader ++ (f.csrcBytes ++ (f.extensionBytes ++ (f.payload ++ f.paddingBytes)))

theorem length_words (words : List UInt32) :
    (words.flatMap fun w => toBytes 4 w.toNat).length = words.length * 4 := by
  induction words with
  | nil => rfl
  | cons w rest ih =>
    rw [List.flatMap_cons, List.length_append, ih, length_toBytes, List.length_cons]
    omega

theorem firstByte_bits : ((f.firstByte >>> 6) &&& 0x03).toNat = f.version.val ∧
    (((f.firstByte >>> 5) &&& 0x01) != 0) = f.padding.isSome ∧
    (((f.firstByte >>> 4) &&& 0x01) != 0) = f.extension.isSome ∧
    (f.firstByte &&& 0x0F).toNat = f.csrcs.length := by
  have bits : ∀ (version : Fin 4) (padding extension : Bool) (count : Fin 16),
      let b := UInt8.ofNat (version.val * 64 + padding.toNat * 32 + extension.toNat * 16 + count.val)
      ((b >>> 6) &&& 0x03).toNat = version.val ∧ (((b >>> 5) &&& 0x01) != 0) = padding ∧
        (((b >>> 4) &&& 0x01) != 0) = extension ∧ (b &&& 0x0F).toNat = count.val := by
    decide +kernel
  exact bits f.version f.padding.isSome f.extension.isSome ⟨f.csrcs.length, by have := f.csrcs_le; omega⟩

theorem secondByte_bits : (((f.secondByte >>> 7) &&& 0x01) != 0) = f.marker ∧
    (f.secondByte &&& 0x7F).toNat = f.payloadType.val := by
  have bits : ∀ (marker : Bool) (kind : Fin 128),
      let b := UInt8.ofNat (marker.toNat * 128 + kind.val)
      (((b >>> 7) &&& 0x01) != 0) = marker ∧ (b &&& 0x7F).toNat = kind.val := by
    decide +kernel
  exact bits f.marker f.payloadType

end Fields

namespace RTPPacket

variable {Word : Type} (toWord : UInt32 → Word)

theorem halfAt_encoded (front : List UInt8) (x : UInt16) (back : List UInt8) :
    halfAt (front ++ (toBytes 2 x.toNat ++ back)) front.length = .ok x := by
  obtain ⟨hi, lo, bytes⟩ : ∃ hi lo, toBytes 2 x.toNat = [hi, lo] := ⟨_, _, rfl⟩
  have first : readAt (front ++ ([hi, lo] ++ back)) front.length = .ok hi :=
    readAt_right front (i := 0) rfl
  have second : readAt (front ++ ([hi, lo] ++ back)) (front.length + 1) = .ok lo := readAt_right front rfl
  rw [bytes, halfAt, first, second]
  simp only [ok_bind, join16_toBytes x bytes]

theorem wordAt_encoded (front : List UInt8) (x : UInt32) (back : List UInt8) :
    wordAt toWord (front ++ (toBytes 4 x.toNat ++ back)) front.length = .ok (toWord x) := by
  obtain ⟨b0, b1, b2, b3, bytes⟩ : ∃ b0 b1 b2 b3, toBytes 4 x.toNat = [b0, b1, b2, b3] :=
    ⟨_, _, _, _, rfl⟩
  have first : readAt (front ++ ([b0, b1, b2, b3] ++ back)) front.length = .ok b0 :=
    readAt_right front (i := 0) rfl
  have others : ∀ i b, ([b0, b1, b2, b3] ++ back)[i]? = some b →
      readAt (front ++ ([b0, b1, b2, b3] ++ back)) (front.length + i) = .ok b :=
    fun _ _ found => readAt_right front found
  rw [bytes, wordAt, first, others 1 b1 rfl, others 2 b2 rfl, others 3 b3 rfl]
  simp only [ok_bind, join32_toBytes x bytes]

/-- The loop reads every source in order; each one moves the front on by four bytes. -/
theorem csrcsAt_encoded (csrcs : List UInt32) (front back : List UInt8) :
    csrcsAt toWord (front ++ ((csrcs.flatMap fun csrc => toBytes 4 csrc.toNat) ++ back))
      csrcs.length front.length = .ok (csrcs.map toWord) := by
  induction csrcs generalizing front with
  | nil => rfl
  | cons csrc rest ih =>
    have later := ih (front ++ toBytes 4 csrc.toNat)
    rw [List.append_assoc, List.length_append, length_toBytes] at later
    rw [List.flatMap_cons, List.append_assoc, List.length_cons, csrcsAt, wordAt_encoded, ok_bind, later]
    rfl

variable (p : RTPPacket Word) (f : Fields)

/-- The object after the header stage: the fixed fields and the sources are new, what a
call clears is cleared, the rest is as it was. -/
def headerRead : RTPPacket Word :=
  { p with
    version := (f.firstByte >>> 6) &&& 0x03
    padding := f.padding.isSome
    extension := f.extension.isSome
    csrcCount := f.firstByte &&& 0x0F
    marker := f.marker
    payloadType := f.secondByte &&& 0x7F
    sequenceNumber := f.sequenceNumber
    timestamp := toWord f.timestamp
    ssrc := toWord f.ssrc
    csrcs := f.csrcs.map toWord
    extensionValue := none
    payload := none
    payloadSize := 0 }

/-- The object after a whole packet. Without an extension its id and length keep their
old values. -/
def received : RTPPacket Word :=
  { headerRead toWord p f with
    extensionHeaderId := (f.extension.map (·.id)).getD p.extensionHeaderId
    extensionLength := (f.extension.map fun e => UInt16.ofNat e.words.length).getD p.extensionLength
    extensionValue := f.extension.map (·.value)
    paddingSize := (f.padding.map (·.size)).getD 0
    payload := if f.payload = [] then none else some f.payload
    payloadSize := f.payload.length }

theorem length_fixedHeader : f.fixedHeader.length = 12 := rfl

theorem parseHeader_encode :
    p.parseHeader toWord f.encode = .ok (headerRead toWord p f, 12 + f.csrcs.length * 4) := by
  obtain ⟨version, padding, extension, count⟩ := f.firstByte_bits
  obtain ⟨marker, kind⟩ := f.secondByte_bits
  have size : f.encode.length = 12 + (f.csrcs.length * 4 +
      (f.extensionBytes ++ (f.payload ++ f.paddingBytes)).length) := by
    rw [Fields.encode, List.length_append, List.length_append, length_fixedHeader, Fields.csrcBytes,
      Fields.length_words]
  have half : halfAt f.encode 2 = .ok f.sequenceNumber := by
    rw [Fields.encode, Fields.fixedHeader, List.append_assoc, List.append_assoc]
    exact halfAt_encoded [f.firstByte, f.secondByte] _ _
  have time : wordAt toWord f.encode 4 = .ok (toWord f.timestamp) := by
    rw [Fields.encode, Fields.fixedHeader, ← List.append_assoc _ (toBytes 2 _), List.append_assoc,
      List.append_assoc]
    exact wordAt_encoded toWord ([f.firstByte, f.secondByte] ++ toBytes 2 f.sequenceNumber.toNat) _ _
  have source : wordAt toWord f.encode 8 = .ok (toWord f.ssrc) := by
    rw [Fields.encode, Fields.fixedHeader, ← List.append_assoc _ (toBytes 2 _),
      ← List.append_assoc _ (toBytes 4 _), List.append_assoc]
    exact wordAt_encoded toWord ([f.firstByte, f.secondByte] ++ toBytes 2 f.sequenceNumber.toNat ++
      toBytes 4 f.timestamp.toNat) _ _
  have sources : csrcsAt toWord f.encode f.csrcs.length 12 = .ok (f.csrcs.map toWord) :=
    csrcsAt_encoded toWord f.csrcs f.fixedHeader _
  have first : readAt f.encode 0 = .ok f.firstByte := rfl
  have second : readAt f.encode 1 = .ok f.secondByte := rfl
  simp only [parseHeader, first, second, half, time, source, checked_ok, ok_bind, count, sources,
    show ¬ f.encode.length < 12 by omega, show ¬ f.encode.length < 12 + f.csrcs.length * 4 by omega,
    if_false, padding, extension, marker]
  rfl

theorem parseExtension_encode (q : RTPPacket Word) (announced : q.extension = f.extension.isSome)
    (front back : List UInt8) :
    q.parseExtension (front ++ (f.extensionBytes ++ back)) front.length = .ok ({ q with
      extensionHeaderId := (f.extension.map (·.id)).getD q.extensionHeaderId
      extensionLength := (f.extension.map fun e => UInt16.ofNat e.words.length).getD q.extensionLength
      extensionValue := (f.extension.map fun e => some e.value).getD q.extensionValue },
      front.length + f.extensionBytes.length) := by
  cases present : f.extension with
  | none =>
    have quiet : ¬ q.extension = true := by simp [announced, present]
    rw [parseExtension, if_neg quiet]
    simp [Fields.extensionBytes, present]
  | some e =>
    have count : (UInt16.ofNat e.words.length).toNat = e.words.length := by
      rw [UInt16.toNat_ofNat', Nat.mod_eq_of_lt e.words_lt]
    have value : e.value.length = e.words.length * 4 := Fields.length_words e.words
    have bytes : f.extensionBytes = toBytes 2 e.id.toNat ++
        (toBytes 2 (UInt16.ofNat e.words.length).toNat ++ e.value) := by
      rw [Fields.extensionBytes, present, count]
    have total : f.extensionBytes.length = 4 + e.words.length * 4 := by
      simp [bytes, value]; omega
    have size : (front ++ (f.extensionBytes ++ back)).length =
        front.length + (4 + e.words.length * 4) + back.length := by simp [total]; omega
    have id : halfAt (front ++ (f.extensionBytes ++ back)) front.length = .ok e.id := by
      rw [bytes, List.append_assoc]
      exact halfAt_encoded front _ _
    have length : halfAt (front ++ (f.extensionBytes ++ back)) (front.length + 2) =
        .ok (UInt16.ofNat e.words.length) := by
      have moved := halfAt_encoded (front ++ toBytes 2 e.id.toNat) (UInt16.ofNat e.words.length)
        (e.value ++ back)
      rw [List.length_append, length_toBytes] at moved
      simpa only [bytes, List.append_assoc] using moved
    have copied : slice (front ++ (f.extensionBytes ++ back)) (front.length + 4) (e.words.length * 4) =
        .ok e.value := by
      have middle := slice_middle (front ++ (toBytes 2 e.id.toNat ++
        toBytes 2 (UInt16.ofNat e.words.length).toNat)) e.value back
      rw [List.length_append, List.length_append, length_toBytes, length_toBytes, value] at middle
      simpa only [bytes, List.append_assoc] using middle
    have set : q.extension = true := by rw [announced, present]; rfl
    rw [parseExtension, if_pos set]
    simp only [id, length, checked_ok,
      ok_bind, count, copied, show ¬ (front ++ (f.extensionBytes ++ back)).length < front.length + 4 by omega,
      show ¬ (front ++ (f.extensionBytes ++ back)).length < front.length + 4 + e.words.length * 4 by omega,
      if_false, total]
    rfl

theorem parsePadding_encode (q : RTPPacket Word) (announced : q.padding = f.padding.isSome)
    (front : List UInt8) :
    q.parsePadding (front ++ (f.payload ++ f.paddingBytes)) front.length =
      .ok ({ q with paddingSize := (f.padding.map (·.size)).getD 0 }, f.payload.length) := by
  have rest : (front ++ (f.payload ++ f.paddingBytes)).length - front.length =
      f.payload.length + f.paddingBytes.length := by simp
  cases present : f.padding with
  | none =>
    have quiet : ¬ (q.padding = true ∧
        0 < (front ++ (f.payload ++ f.paddingBytes)).length - front.length) := by simp [announced, present]
    rw [parsePadding, if_neg quiet, rest]
    simp [Fields.paddingBytes, present]
  | some padding =>
    have bytes : f.paddingBytes = padding.filler ++ [padding.size] := by
      simp [Fields.paddingBytes, present, Padding.bytes]
    have size := padding.size_toNat
    have count : f.paddingBytes.length = padding.size.toNat := by rw [bytes, size]; simp
    have last : readAt (front ++ (f.payload ++ f.paddingBytes))
        ((front ++ (f.payload ++ f.paddingBytes)).length - 1) = .ok padding.size := by
      apply readAt_of_getElem?
      rw [← List.getLast?_eq_getElem?, bytes]
      simp [← List.append_assoc]
    have valid : ¬ (padding.size = 0 ∨ f.payload.length + padding.size.toNat < padding.size.toNat) := by
      rintro (zero | above)
      · rw [zero] at size
        simp at size
      · omega
    have set : q.padding = true ∧
        0 < (front ++ (f.payload ++ f.paddingBytes)).length - front.length :=
      ⟨by rw [announced, present]; rfl, by omega⟩
    rw [parsePadding, if_pos set]
    simp only [rest, count, last, checked_ok, ok_bind, valid, if_false, Nat.add_sub_cancel]
    rfl

theorem storePayload_encode (q : RTPPacket Word) (cleared : q.payload = none) (zero : q.payloadSize = 0)
    (front : List UInt8) :
    q.storePayload (front ++ (f.payload ++ f.paddingBytes)) front.length f.payload.length =
      .ok { q with payload := if f.payload = [] then none else some f.payload, payloadSize := f.payload.length } := by
  have copied : slice (front ++ (f.payload ++ f.paddingBytes)) front.length f.payload.length =
      .ok f.payload := by
    rw [← List.append_assoc]
    exact slice_middle front f.payload f.paddingBytes
  by_cases empty : f.payload = []
  · cases q
    simp_all [storePayload]
  · simp [storePayload, empty, copied, List.length_pos_iff.mpr empty]

/-- The stages one after the other: each starts where the encoding of its part does. -/
theorem parse_encode : p.parse toWord f.encode = .ok (received toWord p f) := by
  have sources : f.csrcBytes.length = f.csrcs.length * 4 := Fields.length_words f.csrcs
  have extension := parseExtension_encode f (headerRead toWord p f) rfl
    (f.fixedHeader ++ f.csrcBytes) (f.payload ++ f.paddingBytes)
  have padding (q : RTPPacket Word) (announced : q.padding = f.padding.isSome) :=
    parsePadding_encode f q announced (f.fixedHeader ++ (f.csrcBytes ++ f.extensionBytes))
  have payload (q : RTPPacket Word) (cleared : q.payload = none) (zero : q.payloadSize = 0) :=
    storePayload_encode f q cleared zero (f.fixedHeader ++ (f.csrcBytes ++ f.extensionBytes))
  simp only [List.append_assoc, List.length_append, length_fixedHeader, sources] at extension padding payload
  rw [parse, parseHeader_encode]
  simp only [ok_bind]
  rw [Fields.encode, extension]
  simp only [ok_bind, Nat.add_assoc]
  rw [padding _ rfl]
  simp only [ok_bind]
  rw [payload _ rfl rfl]
  cases present : f.extension <;> simp [received, headerRead, present]

structure Carries (q : RTPPacket Word) : Prop where
  version : q.version.toNat = f.version.val
  padding : q.padding = f.padding.isSome
  extension : q.extension = f.extension.isSome
  csrcCount : q.csrcCount.toNat = f.csrcs.length
  marker : q.marker = f.marker
  payloadType : q.payloadType.toNat = f.payloadType.val
  sequenceNumber : q.sequenceNumber = f.sequenceNumber
  timestamp : q.timestamp = toWord f.timestamp
  ssrc : q.ssrc = toWord f.ssrc
  csrcs : q.csrcs = f.csrcs.map toWord
  extensionHeader : ∀ e, f.extension = some e →
    q.extensionHeaderId = e.id ∧ q.extensionLength.toNat = e.words.length
  extensionValue : q.extensionValue = f.extension.map (·.value)
  paddingSize : q.paddingSize.toNat = f.paddingBytes.length
  payload : q.payload = if f.payload = [] then none else some f.payload
  payloadSize : q.payloadSize = f.payload.length

theorem received_carries : Carries toWord f (received toWord p f) where
  version := f.firstByte_bits.1
  padding := rfl
  extension := rfl
  csrcCount := f.firstByte_bits.2.2.2
  marker := rfl
  payloadType := f.secondByte_bits.2
  sequenceNumber := rfl
  timestamp := rfl
  ssrc := rfl
  csrcs := rfl
  extensionHeader e present := by
    simp only [received, present, Option.map_some, Option.getD_some, true_and]
    rw [UInt16.toNat_ofNat', Nat.mod_eq_of_lt e.words_lt]
  extensionValue := rfl
  paddingSize := by
    cases present : f.padding with
    | none => simp [received, Fields.paddingBytes, present]
    | some padding => simp [received, Fields.paddingBytes, present, Padding.bytes, padding.size_toNat]
  payload := rfl
  payloadSize := rfl

end RTPPacket

/-- Decoding undoes encoding, on any object and with nothing left over. -/
theorem rtp_round_trip (p : RTPPacket UInt32) (f : Fields) :
    ∃ q, p.unmarshal f.encode = .ok (true, q) ∧ RTPPacket.Carries id f q :=
  ⟨RTPPacket.received id p f, by rw [RTPPacket.unmarshal, RTPPacket.unmarshalWith, RTPPacket.parse_encode],
    RTPPacket.received_carries id p f⟩

end WebTransport.RTP

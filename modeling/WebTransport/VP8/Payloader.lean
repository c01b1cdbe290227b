import WebTransport.Theory.Fragment
import WebTransport.Theory.Machine
import WebTransport.VP8.Packet

/-! The VP8 packetizer `VP8Payloader`. The header of a frame's packets depends on the
picture id, which the call then advances; both languages compute the same, the C++
one with a 16-bit `mtu`. -/
namespace WebTransport.VP8

open Loop BigEndian

def kVP8HeaderSize : Nat := 1

structure VP8Payloader where
  enablePictureId : Bool := false
  pictureId : UInt16 := 0
  deriving DecidableEq, Repr

namespace VP8Payloader

def enablePictureID (p : VP8Payloader) (enable : Bool) : VP8Payloader :=
  { p with enablePictureId := enable }

def setPictureID (p : VP8Payloader) (id : UInt16) : VP8Payloader :=
  { p with pictureId := id &&& 0x7FFF }

variable (p : VP8Payloader)

def usingHeaderSize : Nat :=
  if p.enablePictureId then
    if p.pictureId = 0 then kVP8HeaderSize
    else if p.pictureId < 128 then kVP8HeaderSize + 2
    else kVP8HeaderSize + 3
  else kVP8HeaderSize

def basic (first : Bool) : UInt8 := if first then 0x10 else 0x00

def header (first : Bool) : List UInt8 :=
  if p.enablePictureId then
    if p.usingHeaderSize = kVP8HeaderSize then [basic first]
    else if p.usingHeaderSize = kVP8HeaderSize + 2 then
      [basic first ||| 0x80, 0x80, (p.pictureId &&& 0x7F).toUInt8]
    else [basic first ||| 0x80, 0x80, (0x80 : UInt8) ||| ((p.pictureId >>> 8) &&& 0x7F).toUInt8,
      (p.pictureId &&& 0xFF).toUInt8]
  else [basic first]

/-- One packet; nothing marks the last. -/
def packet (first _last : Bool) (fragment : List UInt8) : List UInt8 := p.header first ++ fragment

/-- The body of the method, for an `mtu` of any sign. -/
def payloadWith (mtu : Int) (frame : List UInt8) : Except Fault (VP8Payloader × List (List UInt8)) :=
  if frame.length = 0 then .ok (p, [])
  else
    let maxFragmentSize := mtu - p.usingHeaderSize
    if maxFragmentSize ≤ 0 then .ok (p, [])
    else do
      let payloads ← Fragment.cut maxFragmentSize.toNat p.packet frame
      .ok ({ p with pictureId := (p.pictureId + 1) &&& 0x7FFF }, payloads)

def payload (mtu : UInt16) (frame : List UInt8) : Except Fault (VP8Payloader × List (List UInt8)) :=
  p.payloadWith mtu.toNat frame

def payloadJs (mtu : Int) (frame : List UInt8) : Except Fault (VP8Payloader × List (List UInt8)) :=
  p.payloadWith mtu frame

theorem length_header (first : Bool) : (p.header first).length = p.usingHeaderSize := by
  unfold header usingHeaderSize
  cases p.enablePictureId
  · rfl
  by_cases zero : p.pictureId = 0
  · simp [zero, kVP8HeaderSize]
  by_cases small : p.pictureId < 128 <;> simp [zero, small, kVP8HeaderSize]

theorem usingHeaderSize_pos : 0 < p.usingHeaderSize := by
  unfold usingHeaderSize kVP8HeaderSize
  split
  · split
    · decide
    split <;> decide
  · decide

def sentPictureId : UInt16 := if p.enablePictureId then p.pictureId else 0

theorem toNat_and_seven (id : UInt16) : (id &&& 0x7F).toNat = id.toNat % 2 ^ 7 := by
  have mask : UInt16.toNat 0x7F = 2 ^ 7 - 1 := rfl
  rw [UInt16.toNat_and, mask, Nat.and_two_pow_sub_one_eq_mod]

theorem toNat_and_fifteen (id : UInt16) : (id &&& 0x7FFF).toNat = id.toNat % 2 ^ 15 := by
  have mask : UInt16.toNat 0x7FFF = 2 ^ 15 - 1 := rfl
  rw [UInt16.toNat_and, mask, Nat.and_two_pow_sub_one_eq_mod]

theorem toNat_highByte (id : UInt16) : (id >>> 8).toNat = id.toNat / 2 ^ 8 := by
  have distance : UInt16.toNat 8 % 16 = 8 := rfl
  rw [UInt16.toNat_shiftRight, distance, Nat.shiftRight_eq_div_pow]

theorem low_seven (id : UInt16) (small : id < 128) :
    (id &&& 0x7F).toUInt8 &&& 0x80 = 0 ∧ (id &&& 0x7F).toUInt8.toUInt16 = id := by
  have bound : id.toNat < 128 := UInt16.lt_iff_toNat_lt.mp small
  have same : id &&& 0x7F = id := by
    apply UInt16.toNat_inj.mp
    rw [toNat_and_seven]
    omega
  have value : id.toUInt8.toNat = id.toNat := by rw [UInt16.toNat_toUInt8]; omega
  rw [same]
  constructor
  · have byte : ∀ b : UInt8, b.toNat < 128 → b &&& 0x80 = 0 := by decide +kernel
    exact byte _ (by omega)
  · exact UInt16.toNat_inj.mp (by rw [UInt8.toNat_toUInt16, value])

theorem fifteen_bits (id : UInt16) (small : id.toNat < 2 ^ 15) :
    ((0x80 : UInt8) ||| ((id >>> 8) &&& 0x7F).toUInt8) &&& 0x80 ≠ 0 ∧
      join16 (((0x80 : UInt8) ||| ((id >>> 8) &&& 0x7F).toUInt8) &&& 0x7F) (id &&& 0xFF).toUInt8 = id := by
  have high : ((id >>> 8) &&& 0x7F).toUInt8 = (id >>> 8).toUInt8 := by
    apply UInt8.toNat_inj.mp
    rw [UInt16.toNat_toUInt8, UInt16.toNat_toUInt8, toNat_and_seven, toNat_highByte]
    omega
  have low : (id &&& 0xFF).toUInt8 = id.toUInt8 := by
    apply UInt8.toNat_inj.mp
    have mask : UInt16.toNat 0xFF = 2 ^ 8 - 1 := rfl
    rw [UInt16.toNat_toUInt8, UInt16.toNat_toUInt8, UInt16.toNat_and, mask, Nat.and_two_pow_sub_one_eq_mod]
    omega
  have seven : (id >>> 8).toUInt8.toNat < 128 := by
    rw [UInt16.toNat_toUInt8, toNat_highByte]
    omega
  have byte : ∀ b : UInt8, b.toNat < 128 → (0x80 ||| b) &&& 0x80 ≠ 0 ∧ (0x80 ||| b) &&& 0x7F = b := by
    decide +kernel
  obtain ⟨marked, restored⟩ := byte _ seven
  rw [high, low, restored, join16_split]
  exact ⟨marked, rfl⟩

/-- What `VP8Packet` reads from a header, whatever it held before. -/
structure Reads (q : VP8Packet) (first : Bool) : Prop where
  s : q.s = if first then 1 else 0
  pid : q.pid = 0
  pictureId : q.pictureId = p.sentPictureId

theorem basic_plain (first : Bool) : (basic first &&& 0x80) >>> 7 = 0 ∧
    (basic first &&& 0x10) >>> 4 = (if first then 1 else 0) ∧ basic first &&& 0x07 = 0 := by
  cases first <;> decide

theorem basic_extended (first : Bool) : ((basic first ||| 0x80) &&& 0x80) >>> 7 = 1 ∧
    ((basic first ||| 0x80) &&& 0x10) >>> 4 = (if first then 1 else 0) ∧
    (basic first ||| 0x80) &&& 0x07 = 0 := by
  cases first <;> decide

variable {p} {q : VP8Packet} {first : Bool} {body : List UInt8}

theorem reads_bare (format : p.header first = [basic first]) (zero : p.sentPictureId = 0) :
    ∃ r, q.parseDescriptor (p.header first ++ body) = .ok (r, (p.header first).length) ∧ p.Reads r first := by
  obtain ⟨bare, start, partition⟩ := basic_plain first
  rw [format]
  exact ⟨_, VP8Packet.parseDescriptor_bare _ body bare, start, partition, zero.symm⟩

theorem reads_short (small : p.pictureId < 128) (sent : p.sentPictureId = p.pictureId)
    (format : p.header first = [basic first ||| 0x80, 0x80, (p.pictureId &&& 0x7F).toUInt8]) :
    ∃ r, q.parseDescriptor (p.header first ++ body) = .ok (r, (p.header first).length) ∧ p.Reads r first := by
  obtain ⟨extended, start, partition⟩ := basic_extended first
  obtain ⟨unmarked, value⟩ := low_seven p.pictureId small
  rw [format]
  exact ⟨_, VP8Packet.parseDescriptor_short _ _ body extended unmarked, start, partition, value.trans sent.symm⟩

theorem reads_long (small : p.pictureId.toNat < 2 ^ 15) (sent : p.sentPictureId = p.pictureId)
    (format : p.header first = [basic first ||| 0x80, 0x80,
      (0x80 : UInt8) ||| ((p.pictureId >>> 8) &&& 0x7F).toUInt8, (p.pictureId &&& 0xFF).toUInt8]) :
    ∃ r, q.parseDescriptor (p.header first ++ body) = .ok (r, (p.header first).length) ∧ p.Reads r first := by
  obtain ⟨extended, start, partition⟩ := basic_extended first
  obtain ⟨marked, value⟩ := fifteen_bits p.pictureId small
  rw [format]
  exact ⟨_, VP8Packet.parseDescriptor_long _ _ _ body extended marked, start, partition, value.trans sent.symm⟩

/-- The walk ends at the body and finds the flags and the id that were written. -/
theorem parseDescriptor_header (small : p.pictureId.toNat < 2 ^ 15) :
    ∃ r, q.parseDescriptor (p.header first ++ body) = .ok (r, (p.header first).length) ∧ p.Reads r first := by
  by_cases enabled : p.enablePictureId = true
  · by_cases zero : p.pictureId = 0
    · exact reads_bare (by simp [header, usingHeaderSize, enabled, zero]) (by simp [sentPictureId, zero])
    have sent : p.sentPictureId = p.pictureId := by simp [sentPictureId, enabled]
    by_cases short : p.pictureId < 128
    · exact reads_short short sent (by simp [header, usingHeaderSize, enabled, zero, short])
    · exact reads_long small sent (by
        simp [header, usingHeaderSize, enabled, zero, short, kVP8HeaderSize])
  · exact reads_bare (by simp [header, enabled]) (by simp [sentPictureId, enabled])

/-- A packet with a nonempty fragment is accepted and gives the fragment. -/
theorem unmarshal_packet (small : p.pictureId.toNat < 2 ^ 15) (last : Bool) (some : body ≠ [])
    (output : List UInt8) :
    ∃ r, q.unmarshal (p.packet first last body) output = .ok (.ok, r, body) ∧ p.Reads r first := by
  have walk : ∃ r, q.parseDescriptor (p.header first ++ body) = .ok (r, (p.header first).length) ∧
      p.Reads r first := parseDescriptor_header small
  obtain ⟨r, parsed, reads⟩ := walk
  exact ⟨r, VP8Packet.unmarshal_of_parse (by simp [some]) parsed output, reads⟩

end VP8Payloader

end WebTransport.VP8

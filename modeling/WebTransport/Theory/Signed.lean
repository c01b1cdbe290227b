import WebTransport.Theory.Bytes
import Mathlib.Data.FinEnum

/-! Bitwise operators on integers through 32-bit signed words, as scripting languages have
them: the operands are reduced to words and the result is read as a signed number. -/
namespace Signed

open BigEndian

def shiftLeft (x y : Int) : Int := (Int32.ofInt x <<< Int32.ofInt y).toInt
def shiftRight (x y : Int) : Int := (Int32.ofInt x >>> Int32.ofInt y).toInt
def bitAnd (x y : Int) : Int := (Int32.ofInt x &&& Int32.ofInt y).toInt
def bitOr (x y : Int) : Int := (Int32.ofInt x ||| Int32.ofInt y).toInt

theorem ofInt_byte (b : UInt8) : Int32.ofInt b.toNat = b.toUInt32.toInt32 := by
  revert b; decide +kernel

/-- Above the sign bit the signed reading of a word is its value less 2^32. -/
theorem toInt_toInt32 (w : UInt32) :
    w.toInt32.toInt = if w.toNat < 2 ^ 31 then (w.toNat : Int) else w.toNat - 2 ^ 32 := by
  have bits : w.toInt32.toInt = w.toBitVec.toInt := rfl
  rw [bits, BitVec.toInt_eq_toNat_cond]
  simp only [UInt32.toNat_toBitVec]
  split <;> split <;> omega

theorem toInt_toInt32_eq_iff (w : UInt32) : w.toInt32.toInt = w.toNat ↔ w.toNat < 2 ^ 31 := by
  rw [toInt_toInt32]
  by_cases small : w.toNat < 2 ^ 31
  · rw [if_pos small]
    exact iff_of_true rfl small
  · rw [if_neg small]
    omega

/-- Four bytes shifted and joined give the signed reading of the word that they are. -/
theorem word_eq (b0 b1 b2 b3 : UInt8) :
    bitOr (bitOr (bitOr (shiftLeft b0.toNat 24) (shiftLeft b1.toNat 16)) (shiftLeft b2.toNat 8)) b3.toNat =
      (join32 b0 b1 b2 b3).toInt32.toInt := by
  unfold bitOr shiftLeft
  simp only [Int32.ofInt_toInt, ofInt_byte]
  rfl

/-- Two bytes stay below the sign bit. -/
theorem half_eq (hi lo : UInt8) : bitOr (shiftLeft hi.toNat 8) lo.toNat = (join16 hi lo).toNat := by
  have word : (hi.toUInt32 <<< 8 ||| lo.toUInt32) = join32 0 0 hi lo := by simp [join32]
  have value : (join32 0 0 hi lo).toNat = (join16 hi lo).toNat := by
    rw [join32_toNat, join16_toNat]
    simp [ofBytes]
  have small := (join16 hi lo).toNat_lt
  have signed : bitOr (shiftLeft hi.toNat 8) lo.toNat = (hi.toUInt32 <<< 8 ||| lo.toUInt32).toInt32.toInt := by
    unfold bitOr shiftLeft
    simp only [Int32.ofInt_toInt, ofInt_byte]
    rfl
  rw [signed, word, toInt_toInt32, value, if_pos (by omega)]

/-- The fields of one byte, at the shifts and masks of a packed header. -/
theorem bits_eq (b : UInt8) :
    bitAnd (shiftRight b.toNat 7) 0x01 = ((b >>> 7) &&& 0x01).toNat ∧
    bitAnd (shiftRight b.toNat 6) 0x03 = ((b >>> 6) &&& 0x03).toNat ∧
    bitAnd (shiftRight b.toNat 5) 0x01 = ((b >>> 5) &&& 0x01).toNat ∧
    bitAnd (shiftRight b.toNat 4) 0x01 = ((b >>> 4) &&& 0x01).toNat ∧
    bitAnd b.toNat 0x0F = (b &&& 0x0F).toNat ∧ bitAnd b.toNat 0x7F = (b &&& 0x7F).toNat := by
  revert b; decide +kernel

end Signed

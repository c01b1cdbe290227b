import Mathlib.Tactic.Common
import Mathlib.Tactic.Linarith
import Mathlib.Tactic.Ring

/-! Big-endian integers. `ofBytes` and `toBytes` are the mathematical reading and
writing at any width; `join16` and `join32` are the shift-and-or expressions that
programs use for them. -/
namespace BigEndian

def ofBytes : List UInt8 → Nat
  | [] => 0
  | b :: rest => b.toNat * 256 ^ rest.length + ofBytes rest

/-- The `width` low-order bytes of a number, most significant first. -/
def toBytes : Nat → Nat → List UInt8
  | 0, _ => []
  | width + 1, n => UInt8.ofNat (n / 256 ^ width) :: toBytes width n

@[simp] theorem length_toBytes (width n : Nat) : (toBytes width n).length = width := by
  induction width with
  | zero => rfl
  | succ width ih => simp [toBytes, ih]

theorem take_toBytes (width n : Nat) (rest : List UInt8) :
    (toBytes width n ++ rest).take width = toBytes width n := List.take_left' (length_toBytes width n)

theorem drop_toBytes (width n : Nat) (rest : List UInt8) :
    (toBytes width n ++ rest).drop width = rest := List.drop_left' (length_toBytes width n)

theorem ofBytes_lt (bytes : List UInt8) : ofBytes bytes < 256 ^ bytes.length := by
  induction bytes with
  | nil => simp [ofBytes]
  | cons b rest ih =>
    have byte := b.toNat_lt
    calc ofBytes (b :: rest) < b.toNat * 256 ^ rest.length + 256 ^ rest.length := by
          simp only [ofBytes]; omega
      _ = (b.toNat + 1) * 256 ^ rest.length := by ring
      _ ≤ 256 * 256 ^ rest.length := Nat.mul_le_mul_right _ (by omega)
      _ = 256 ^ (b :: rest).length := by rw [List.length_cons, pow_succ]; ring

theorem ofBytes_append (front back : List UInt8) :
    ofBytes (front ++ back) = ofBytes front * 256 ^ back.length + ofBytes back := by
  induction front with
  | nil => simp [ofBytes]
  | cons b rest ih =>
    simp only [List.cons_append, ofBytes, ih, List.length_append, pow_add]
    ring

theorem shifted_byte (n k : Nat) : UInt8.ofNat ((n >>> (8 * k)) &&& 0xFF) = UInt8.ofNat (n / 256 ^ k) := by
  apply UInt8.toNat_inj.mp
  rw [UInt8.toNat_ofNat', UInt8.toNat_ofNat', show 0xFF = 2 ^ 8 - 1 from rfl,
    Nat.and_two_pow_sub_one_eq_mod, Nat.shiftRight_eq_div_pow, pow_mul, Nat.mod_mod,
    show 2 ^ 8 = 256 from rfl]

theorem toBytes_concat (width n : Nat) : toBytes (width + 1) n = toBytes width (n / 256) ++ [UInt8.ofNat n] := by
  induction width with
  | zero => simp [toBytes]
  | succ width ih =>
    rw [toBytes, ih, toBytes, Nat.div_div_eq_div_mul, ← pow_succ', List.cons_append]

/-- Writing then reading keeps the low-order bytes. -/
theorem ofBytes_toBytes (width n : Nat) : ofBytes (toBytes width n) = n % 256 ^ width := by
  induction width with
  | zero => simp [toBytes, ofBytes, Nat.mod_one]
  | succ width ih =>
    simp only [toBytes, ofBytes, length_toBytes, ih, UInt8.toNat_ofNat']
    have digits := Nat.mod_mul (x := n) (a := 256 ^ width) (b := 256)
    rw [pow_succ 256 width, digits, Nat.mul_comm (256 ^ width), Nat.add_comm]

theorem ofBytes_toBytes_of_lt (small : n < 256 ^ width) : ofBytes (toBytes width n) = n := by
  rw [ofBytes_toBytes, Nat.mod_eq_of_lt small]

theorem toBytes_add (width n high : Nat) : toBytes width (n + high * 256 ^ width) = toBytes width n := by
  induction width generalizing high with
  | zero => rfl
  | succ width ih =>
    have digit : (n + high * 256 ^ (width + 1)) / 256 ^ width = n / 256 ^ width + high * 256 := by
      rw [pow_succ, Nat.mul_comm (256 ^ width), ← Nat.mul_assoc, Nat.add_mul_div_right _ _ (by positivity)]
    have tail : toBytes width (n + high * 256 ^ (width + 1)) = toBytes width n := by
      rw [pow_succ, Nat.mul_comm (256 ^ width), ← Nat.mul_assoc, ih]
    rw [toBytes, toBytes, tail, digit]
    congr 1
    apply UInt8.toNat_inj.mp
    rw [UInt8.toNat_ofNat', UInt8.toNat_ofNat']
    omega

/-- Reading then writing gives the bytes back. -/
theorem toBytes_ofBytes (bytes : List UInt8) : toBytes bytes.length (ofBytes bytes) = bytes := by
  induction bytes with
  | nil => rfl
  | cons b rest ih =>
    have low := ofBytes_lt rest
    have digit : (ofBytes rest + b.toNat * 256 ^ rest.length) / 256 ^ rest.length = b.toNat := by
      rw [Nat.add_mul_div_right _ _ (by positivity), Nat.div_eq_of_lt low, Nat.zero_add]
    rw [List.length_cons, ofBytes, Nat.add_comm (b.toNat * _), toBytes, toBytes_add, ih, digit,
      UInt8.ofNat_toNat]

/-- `a << i | b` adds when `b` fits below the shift. -/
theorem mul_or (a : Nat) (small : b < 2 ^ i) : a * 2 ^ i ||| b = a * 2 ^ i + b := by
  rw [← Nat.shiftLeft_eq, ← Nat.shiftLeft_add_eq_or_of_lt small]

def join16 (hi lo : UInt8) : UInt16 := hi.toUInt16 <<< 8 ||| lo.toUInt16

def join32 (b0 b1 b2 b3 : UInt8) : UInt32 :=
  b0.toUInt32 <<< 24 ||| b1.toUInt32 <<< 16 ||| b2.toUInt32 <<< 8 ||| b3.toUInt32

theorem join16_toNat (hi lo : UInt8) : (join16 hi lo).toNat = ofBytes [hi, lo] := by
  have high := hi.toNat_lt
  have low := lo.toNat_lt
  have exact : hi.toNat * 2 ^ 8 % 2 ^ 16 = hi.toNat * 2 ^ 8 := by omega
  simp only [join16, UInt16.toNat_or, UInt16.toNat_shiftLeft, UInt8.toNat_toUInt16,
    show UInt16.toNat 8 % 16 = 8 from rfl, Nat.shiftLeft_eq, exact, mul_or _ low]
  simp [ofBytes]

theorem join32_toNat (b0 b1 b2 b3 : UInt8) :
    (join32 b0 b1 b2 b3).toNat = ofBytes [b0, b1, b2, b3] := by
  have h0 := b0.toNat_lt
  have h1 := b1.toNat_lt
  have h2 := b2.toNat_lt
  have h3 := b3.toNat_lt
  have exact0 : b0.toNat * 2 ^ 24 % 2 ^ 32 = b0.toNat * 2 ^ 24 := Nat.mod_eq_of_lt (by linarith)
  have exact1 : b1.toNat * 2 ^ 16 % 2 ^ 32 = b1.toNat * 2 ^ 16 := Nat.mod_eq_of_lt (by linarith)
  have exact2 : b2.toNat * 2 ^ 8 % 2 ^ 32 = b2.toNat * 2 ^ 8 := Nat.mod_eq_of_lt (by linarith)
  simp only [join32, UInt32.toNat_or, UInt32.toNat_shiftLeft, UInt8.toNat_toUInt32,
    show UInt32.toNat 24 % 32 = 24 from rfl, show UInt32.toNat 16 % 32 = 16 from rfl,
    show UInt32.toNat 8 % 32 = 8 from rfl, Nat.shiftLeft_eq, exact0, exact1, exact2]
  -- every `or` adds, once its left operand is a multiple of the next power
  have next (x i : Nat) (b : UInt8) : x * 2 ^ (i + 8) ||| b.toNat * 2 ^ i =
      (x * 2 ^ 8 + b.toNat) * 2 ^ i := by
    rw [mul_or, pow_add]
    · ring
    · rw [Nat.add_comm, pow_add]
      exact Nat.mul_lt_mul_of_pos_right b.toNat_lt (Nat.two_pow_pos i)
  rw [next b0.toNat 16 b1, next _ 8 b2, mul_or _ h3]
  simp only [ofBytes, List.length_cons, List.length_nil]
  ring

/-- The bytes of a number join to it again, written by division or by shift. -/
theorem join16_toBytes (x : UInt16) (bytes : toBytes 2 x.toNat = [hi, lo]) : join16 hi lo = x := by
  apply UInt16.toNat_inj.mp
  rw [join16_toNat, ← bytes, ofBytes_toBytes_of_lt x.toNat_lt]

theorem join32_toBytes (x : UInt32) (bytes : toBytes 4 x.toNat = [b0, b1, b2, b3]) :
    join32 b0 b1 b2 b3 = x := by
  apply UInt32.toNat_inj.mp
  rw [join32_toNat, ← bytes, ofBytes_toBytes_of_lt x.toNat_lt]

theorem lowByte32 (x : UInt32) : (x &&& 0xFF).toUInt8 = x.toUInt8 := by
  apply UInt8.toNat_inj.mp
  have mask := Nat.and_two_pow_sub_one_eq_mod x.toNat 8
  rw [UInt32.toNat_toUInt8, UInt32.toNat_toUInt8, UInt32.toNat_and]
  change (x.toNat &&& (2 ^ 8 - 1)) % 2 ^ 8 = _
  rw [mask, Nat.mod_mod]

/-- The bytes of a 32-bit number by shift and mask. -/
theorem toBytes_split (x : UInt32) : toBytes 4 x.toNat =
    [((x >>> 24) &&& 0xFF).toUInt8, ((x >>> 16) &&& 0xFF).toUInt8, ((x >>> 8) &&& 0xFF).toUInt8,
      (x &&& 0xFF).toUInt8] := by
  simp only [toBytes, lowByte32, List.cons.injEq, and_true]
  refine ⟨?_, ?_, ?_, ?_⟩ <;> apply UInt8.toNat_inj.mp <;>
    simp [UInt32.toNat_shiftRight, Nat.shiftRight_eq_div_pow]

theorem join16_split (x : UInt16) : join16 (x >>> 8).toUInt8 x.toUInt8 = x := by
  apply join16_toBytes
  simp only [toBytes, List.cons.injEq, and_true]
  constructor <;> apply UInt8.toNat_inj.mp <;>
    simp [UInt16.toNat_shiftRight, Nat.shiftRight_eq_div_pow]

/-- `width` bits of a byte from bit `start` on, counted from the most significant one. -/
def field (b : UInt8) (start width : Nat) : Nat := b.toNat / 2 ^ (8 - start - width) % 2 ^ width

theorem field_lt (b : UInt8) (start width : Nat) : field b start width < 2 ^ width :=
  Nat.mod_lt _ (Nat.two_pow_pos width)

@[simp] theorem field_zero (start width : Nat) : field 0 start width = 0 := by simp [field]

theorem ofNat_bit_eq_one_iff (b : UInt8) (k : Nat) : UInt8.ofNat (field b k 1) = 1 ↔ field b k 1 = 1 := by
  have two : field b k 1 < 2 := field_lt b k 1
  rw [← UInt8.toNat_inj, UInt8.toNat_ofNat', Nat.mod_eq_of_lt (by omega)]
  rfl

variable (b mask shift : UInt8) {start width : Nat}

/-- A field by shift and mask. -/
theorem shift_mask (low : shift.toNat = 8 - start - width) (some : 0 < start + width)
    (ones : mask.toNat = 2 ^ width - 1) : (b >>> shift) &&& mask = UInt8.ofNat (field b start width) := by
  have shrinks : field b start width ≤ b.toNat := Nat.le_trans (Nat.mod_le _ _) (Nat.div_le_self _ _)
  have fits : field b start width % 2 ^ 8 = field b start width :=
    Nat.mod_eq_of_lt (Nat.lt_of_le_of_lt shrinks b.toNat_lt)
  have small : 8 - start - width < 8 := by omega
  apply UInt8.toNat_inj.mp
  rw [UInt8.toNat_and, UInt8.toNat_shiftRight, low, Nat.mod_eq_of_lt small, ones,
    Nat.and_two_pow_sub_one_eq_mod, Nat.shiftRight_eq_div_pow, UInt8.toNat_ofNat', fits]
  rfl

theorem mask_shift (low : shift.toNat = 8 - start - width) (some : 0 < start + width)
    (ones : (mask >>> shift).toNat = 2 ^ width - 1) :
    (b &&& mask) >>> shift = UInt8.ofNat (field b start width) := by
  rw [← shift_mask b (mask >>> shift) shift low some ones]
  apply UInt8.toNat_inj.mp
  simp only [UInt8.toNat_shiftRight, UInt8.toNat_and, Nat.shiftRight_and_distrib]

theorem mask_low (last : start + width = 8) (ones : mask.toNat = 2 ^ width - 1) :
    b &&& mask = UInt8.ofNat (field b start width) := by
  have low : (0 : UInt8).toNat = 8 - start - width := by
    rw [UInt8.toNat_zero]
    omega
  rw [← shift_mask b mask 0 low (by omega) ones, UInt8.shiftRight_zero]

end BigEndian

import WebTransport.Theory.Bytes
import WebTransport.Theory.Framing
import WebTransport.Theory.Loop

/-! The stream frame: one type byte, a 64-bit timestamp, a 32-bit size and the data.
The C++ server serializes it, the JavaScript client deserializes it. -/
namespace WebTransport.BidirectionalStream

open Loop BigEndian

structure Frame where
  type : UInt8
  timestamp : UInt64
  data : List UInt8
  deriving DecidableEq, Repr

namespace Frame

/-- The bytes that the two push loops append, `i` counting down from `width - 1`. -/
def pushed (width n : Nat) : List UInt8 :=
  (List.range width).reverse.map fun i => UInt8.ofNat ((n >>> (8 * i)) &&& 0xFF)

def serialize (f : Frame) : List UInt8 :=
  let size := UInt32.ofNat f.data.length
  f.type :: (pushed 8 f.timestamp.toNat ++ (pushed 4 size.toNat ++ f.data))

theorem pushed_eq (width n : Nat) : pushed width n = toBytes width n := by
  induction width with
  | zero => rfl
  | succ width ih =>
    rw [pushed, List.range_succ, List.reverse_append, List.reverse_singleton, List.singleton_append,
      List.map_cons, shifted_byte, toBytes, ← ih, pushed]

def Sendable (f : Frame) : Prop := f.data.length < 2 ^ 32

theorem serialize_eq (f : Frame) (sendable : f.Sendable) :
    f.serialize = f.type :: (toBytes 8 f.timestamp.toNat ++ (toBytes 4 f.data.length ++ f.data)) := by
  have size : (UInt32.ofNat f.data.length).toNat = f.data.length := by
    rw [UInt32.toNat_ofNat', Nat.mod_eq_of_lt sendable]
  simp only [serialize, pushed_eq, size]

theorem length_serialize (f : Frame) (sendable : f.Sendable) : f.serialize.length = 13 + f.data.length := by
  rw [serialize_eq f sendable]
  simp
  omega

end Frame

/-- The JavaScript object; the timestamp is a BigInt. -/
structure JsFrame where
  type : UInt8
  timestamp : Nat
  data : List UInt8
  deriving DecidableEq, Repr

inductive Thrown where
  | bufferTooSmall
  | incompletePayload
  | range
  deriving DecidableEq, Repr

/-- An unsigned big-endian read of `width` bytes through a `DataView`. -/
def getUint (view : List UInt8) (width offset : Nat) : Except Thrown Nat :=
  match slice view offset width with
  | .ok bytes => .ok (ofBytes bytes)
  | .error _ => .error .range

/-- `getBigUint64` where the browser has it, else eight single reads. -/
def getTimestamp (native : Bool) (view : List UInt8) (offset : Nat) : Except Thrown Nat :=
  if native then getUint view 8 offset
  else (List.range 8).foldlM (fun timestamp i => do
    .ok (timestamp <<< 8 ||| (← getUint view 1 (offset + i)))) 0

def deserialize (native : Bool) (buffer : List UInt8) : Except Thrown JsFrame :=
  if buffer.length < 13 then .error .bufferTooSmall
  else do
    let type ← getUint buffer 1 0
    let timestamp ← getTimestamp native buffer 1
    let size ← getUint buffer 4 9
    if buffer.length < 13 + size then .error .incompletePayload
    else .ok ⟨UInt8.ofNat type, timestamp, (buffer.drop 13).take size⟩

def Frame.toJs (f : Frame) : JsFrame := ⟨f.type, f.timestamp.toNat, f.data⟩

theorem getUint_of_le (view : List UInt8) (fits : offset + width ≤ view.length) :
    getUint view width offset = .ok (ofBytes ((view.drop offset).take width)) := by
  simp only [getUint, slice_of_le fits]

/-- Both ways of reading the timestamp give the same number. -/
theorem getTimestamp_of_le (native : Bool) (view : List UInt8) (fits : offset + 8 ≤ view.length) :
    getTimestamp native view offset = .ok (ofBytes ((view.drop offset).take 8)) := by
  cases native with
  | true => exact getUint_of_le view fits
  | false =>
    have step (n : Nat) (enough : n ≤ 8) : (List.range n).foldlM (fun timestamp i => do
        Except.ok (timestamp <<< 8 ||| (← getUint view 1 (offset + i)))) 0 =
        (.ok (ofBytes ((view.drop offset).take n)) : Except Thrown Nat) := by
      induction n with
      | zero => rfl
      | succ n ih =>
        have inside : offset + n < view.length := by omega
        have one : (view.drop (offset + n)).take 1 = [view[offset + n]] := by
          rw [List.drop_eq_getElem_cons inside]
          rfl
        have byte : getUint view 1 (offset + n) = .ok view[offset + n].toNat := by
          rw [getUint_of_le view (by omega), one]
          simp [ofBytes]
        have more : (view.drop offset).take (n + 1) = (view.drop offset).take n ++ [view[offset + n]] := by
          rw [List.take_succ_eq_append_getElem (by simp; omega)]
          simp
        rw [List.range_succ, List.foldlM_append, ih (by omega), ok_bind, List.foldlM_cons, byte, ok_bind,
          ok_bind, List.foldlM_nil, more, ofBytes_append,
          ← Nat.shiftLeft_add_eq_or_of_lt view[offset + n].toNat_lt, Nat.shiftLeft_eq]
        simp [ofBytes]
    exact step 8 (Nat.le_refl 8)

/-- A frame as the constructor takes it: any whole number for the type, any BigInt for the
time. Each store reduces its operand to the width of the field. -/
structure AnyFrame where
  type : Int
  timestamp : Int
  data : List UInt8
  deriving DecidableEq, Repr

namespace AnyFrame

def setUint8 (value : Int) : UInt8 := UInt8.ofNat (value % 256).toNat

/-- The loop without `setBigUint64`: from the last byte on, `ts & 0xFFn` and `ts >> 8n`. -/
def lowBytes : Nat → Int → List UInt8
  | 0, _ => []
  | width + 1, ts => lowBytes width (ts >>> (8 : Nat)) ++ [setUint8 (ts % 256)]

def setTimestamp (native : Bool) (timestamp : Int) : List UInt8 :=
  if native then toBytes 8 (timestamp % 2 ^ 64).toNat else lowBytes 8 timestamp

def serialize (native : Bool) (f : AnyFrame) : List UInt8 :=
  setUint8 f.type :: (setTimestamp native f.timestamp ++ (toBytes 4 (f.data.length % 2 ^ 32) ++ f.data))

def reduce (f : AnyFrame) : Frame := ⟨setUint8 f.type, UInt64.ofNat (f.timestamp % 2 ^ 64).toNat, f.data⟩

/-- The loop writes the low-order bytes in two's complement. -/
theorem lowBytes_eq (width n : Nat) (high : Int) : lowBytes width (n + high * 256 ^ width) = toBytes width n := by
  induction width generalizing n high with
  | zero => rfl
  | succ width ih =>
    have shifted : ((n : Int) + high * 256 ^ (width + 1)) >>> (8 : Nat) = (n / 256 : Nat) + high * 256 ^ width := by
      rw [Int.shiftRight_eq_div_pow, pow_succ, ← mul_assoc, show ((2 ^ 8 : Nat) : Int) = 256 from rfl,
        Int.add_mul_ediv_right _ _ (by decide), Int.natCast_ediv]
      rfl
    have low : ((n : Int) + high * 256 ^ (width + 1)) % 256 = (n % 256 : Nat) := by
      rw [pow_succ, ← mul_assoc, Int.add_mul_emod_self_right, Int.natCast_emod]
      rfl
    have byte : setUint8 ((n % 256 : Nat) : Int) = UInt8.ofNat n := by
      rw [setUint8, ← UInt8.toNat_inj, UInt8.toNat_ofNat', UInt8.toNat_ofNat']
      omega
    rw [lowBytes, shifted, ih, low, byte, toBytes_concat]

theorem setTimestamp_eq (native : Bool) (timestamp : Int) :
    setTimestamp native timestamp = toBytes 8 (timestamp % 2 ^ 64).toNat := by
  cases native with
  | true => rfl
  | false =>
    have split : timestamp = ((timestamp % 2 ^ 64).toNat : Int) + timestamp / 2 ^ 64 * 256 ^ 8 := by omega
    change lowBytes 8 timestamp = _
    conv_lhs => rw [split]
    exact lowBytes_eq 8 _ _

/-- Either way of storing the time gives the bytes of the C++ serializer. -/
theorem serialize_eq (native : Bool) (f : AnyFrame) : f.serialize native = f.reduce.serialize := by
  have time : (UInt64.ofNat (f.timestamp % 2 ^ 64).toNat).toNat = (f.timestamp % 2 ^ 64).toNat := by
    rw [UInt64.toNat_ofNat', Nat.mod_eq_of_lt (by omega)]
  have size : (UInt32.ofNat f.data.length).toNat = f.data.length % 2 ^ 32 := UInt32.toNat_ofNat'
  simp only [serialize, setTimestamp_eq, Frame.serialize, reduce, Frame.pushed_eq, time, size]

end AnyFrame

end WebTransport.BidirectionalStream

import WebTransport.Theory.Bytes
import WebTransport.Theory.Framing

/-! Records behind a big-endian length of fixed width. A reader takes the records that are
whole; what it leaves is too short for a length, or shorter than its length says. -/
namespace Records

open BigEndian Framing

structure Record (width : Nat) where
  bytes : List UInt8
  short : bytes.length < 256 ^ width
  deriving DecidableEq, Repr

variable {width : Nat} {bytes rest : List UInt8} {records : List (Record width)}

/-- The length in front of the bytes; of a field that is cut off, what is there. -/
def announced (width : Nat) (bytes : List UInt8) : Nat := ofBytes (bytes.take width)

theorem announced_lt (width : Nat) (bytes : List UInt8) : announced width bytes < 256 ^ width := by
  have within : (bytes.take width).length ≤ width := List.length_take_le width bytes
  calc announced width bytes < 256 ^ (bytes.take width).length := ofBytes_lt _
    _ ≤ 256 ^ width := Nat.pow_le_pow_right (by decide) within

namespace Record

def encode (r : Record width) : List UInt8 := toBytes width r.bytes.length ++ r.bytes

@[simp] theorem length_encode (r : Record width) : r.encode.length = width + r.bytes.length := by
  simp [encode]

theorem announced_encode (r : Record width) (rest : List UInt8) :
    announced width (r.encode ++ rest) = r.bytes.length := by
  rw [announced, encode, List.append_assoc, take_toBytes]
  exact ofBytes_toBytes_of_lt r.short

def widen (wider : width ≤ width') (r : Record width) : Record width' :=
  ⟨r.bytes, Nat.lt_of_lt_of_le r.short (Nat.pow_le_pow_right (by decide) wider)⟩

end Record

def join (records : List (Record width)) : List UInt8 := (records.map Record.encode).flatten

@[simp] theorem join_nil : join ([] : List (Record width)) = [] := rfl

@[simp] theorem join_cons (r : Record width) (records : List (Record width)) :
    join (r :: records) = r.encode ++ join records := rfl

section Buffer

variable {buffer more : List UInt8} {offset : Nat} {r : Record width}

theorem length_of_record (here : buffer.drop offset = r.encode ++ more) :
    buffer.length - offset = width + r.bytes.length + more.length := by
  rw [← List.length_drop, here, List.length_append, r.length_encode]

theorem drop_field (here : buffer.drop offset = r.encode ++ more) : buffer.drop (offset + width) = r.bytes ++ more := by
  rw [← List.drop_drop, here, Record.encode, List.append_assoc, drop_toBytes]

theorem drop_record (here : buffer.drop offset = r.encode ++ more) :
    buffer.drop (offset + (width + r.bytes.length)) = more := by
  rw [← List.drop_drop, here, ← r.length_encode, List.drop_left]

end Buffer

theorem short_front (width : Nat) (bytes : List UInt8) :
    ((bytes.drop width).take (announced width bytes)).length < 256 ^ width :=
  Nat.lt_of_le_of_lt (List.length_take_le _ _) (announced_lt width bytes)

def next (width : Nat) (bytes : List UInt8) : Option (Record width × List UInt8) :=
  if width + announced width bytes ≤ bytes.length then
    some (⟨(bytes.drop width).take (announced width bytes), short_front width bytes⟩,
      bytes.drop (width + announced width bytes))
  else none

theorem next_none_iff : next width bytes = none ↔ bytes.length < width + announced width bytes := by
  simp [next]

@[simp] theorem next_encode (r : Record width) (rest : List UInt8) : next width (r.encode ++ rest) = some (r, rest) := by
  have whole : width + r.bytes.length ≤ (r.encode ++ rest).length := by simp
  have body : ((r.encode ++ rest).drop width).take r.bytes.length = r.bytes := by
    rw [Record.encode, List.append_assoc, drop_toBytes, List.take_left]
  have tail : (r.encode ++ rest).drop (width + r.bytes.length) = rest := by
    rw [← r.length_encode, List.drop_left]
  unfold next
  simp only [r.announced_encode, if_pos whole, body, tail]

/-- The reader takes nothing but encoded records. -/
theorem next_exact (found : next width bytes = some (r, rest)) : bytes = r.encode ++ rest := by
  unfold next at found
  split at found
  · rename_i whole
    obtain ⟨rfl, rfl⟩ := Prod.mk.inj (Option.some.inj found)
    have size : ((bytes.drop width).take (announced width bytes)).length = announced width bytes := by
      rw [List.length_take, List.length_drop]
      omega
    have field : toBytes width (announced width bytes) = bytes.take width := by
      have written := toBytes_ofBytes (bytes.take width)
      rwa [List.length_take_of_le (by omega)] at written
    simp only [Record.encode, size, field, List.append_assoc]
    rw [← List.drop_drop, List.take_append_drop, List.take_append_drop]
  · cases found

theorem next_shrinks (positive : 0 < width) (found : next width bytes = some (r, rest)) : rest.length < bytes.length := by
  rw [next_exact found, List.length_append, r.length_encode]
  omega

theorem next_stable (more : List UInt8) (found : next width bytes = some (r, rest)) :
    next width (bytes ++ more) = some (r, rest ++ more) := by
  rw [next_exact found, List.append_assoc, next_encode]

def codec (width : Nat) (positive : 0 < width) : Codec UInt8 (Record width) where
  next := next width
  shrinks := next_shrinks positive
  stable := next_stable
  encode := Record.encode
  decodes := next_encode

/-- Any bytes are records and a rest that no record can be read from. -/
theorem exists_join (positive : 0 < width) (bytes : List UInt8) :
    ∃ (records : List (Record width)) (rest : List UInt8), bytes = join records ++ rest ∧ next width rest = none :=
  ⟨_, _, split_drain (c := codec width positive) next_exact bytes,
    next_drain (d := (codec width positive).toDecoder) bytes⟩

/-- What is read of joined records is the records. -/
theorem drain_join (positive : 0 < width) (records : List (Record width)) (stuck : next width rest = none) :
    drain (codec width positive).toDecoder (join records ++ rest) = (records, rest) := by
  have all := drain_encode (c := codec width positive) records rest
  rw [drain_none (d := (codec width positive).toDecoder) stuck, List.append_nil] at all
  exact all

theorem next_nil (positive : 0 < width) : next width [] = none := by
  rw [next_none_iff, List.length_nil]
  omega

end Records

import WebTransport.RTP.Format
import WebTransport.RTP.JavaScript

/-! The C++ and the JavaScript parser on one buffer. Both stop at the same line of the same
checks; the 32-bit fields are unsigned in C++ and signed in JavaScript, so an accepted
buffer is read alike exactly when none of them has its top bit set. -/
namespace WebTransport.RTP

open Loop BigEndian

namespace JavaScript.RTPPacket

def integers (p : RTP.RTPPacket UInt32) : RTPPacket := numbers (fun w => (w.toNat : Int)) p

theorem numbers_new : numbers (fun w => w.toInt32.toInt) RTP.RTPPacket.new = {} := rfl

/-- Two readings of the 32-bit fields give the same numbers when they agree on each. -/
theorem numbers_eq_iff (value value' : Word → Int) (p : RTP.RTPPacket Word) :
    numbers value p = numbers value' p ↔ ∀ w ∈ p.words, value w = value' w := by
  simp only [numbers, mk.injEq, true_and, and_true, RTP.RTPPacket.words, List.forall_mem_cons, List.map_inj_left]

end JavaScript.RTPPacket

theorem wordOf_small (buffer : List UInt8) (index : Nat) :
    (wordOf buffer index).toNat < 2 ^ 31 ↔ byteAt buffer index < 0x80 := by
  have bound (i : Nat) : (byteAt buffer i).toNat < 256 := (byteAt buffer i).toNat_lt
  have b1 := bound (index + 1)
  have b2 := bound (index + 2)
  have b3 := bound (index + 3)
  rw [wordOf, join32_toNat, UInt8.lt_iff_toNat_lt]
  simp only [ofBytes, List.length_cons, List.length_nil, show UInt8.toNat 0x80 = 128 from rfl]
  omega

/-- Both accept or both reject, and an accepted buffer is read as the same numbers. -/
def Agree (buffer : List UInt8) : Prop :=
  ∃ accepted p q, RTPPacket.new.unmarshal buffer = .ok (accepted, p) ∧
    ({} : JavaScript.RTPPacket).unmarshal buffer = .ok (accepted, q) ∧
    (accepted = true → q = JavaScript.RTPPacket.integers p)

theorem unmarshal_js (buffer : List UInt8) : ({} : JavaScript.RTPPacket).unmarshal buffer =
    (RTPPacket.new.unmarshal buffer).map fun r => (r.1, JavaScript.RTPPacket.numbers (·.toInt32.toInt) r.2) := by
  rw [← JavaScript.RTPPacket.numbers_new]
  exact JavaScript.RTPPacket.unmarshal_eq id (fun w => w.toInt32.toInt) (fun _ => rfl) RTPPacket.new buffer

/-- The parsers agree exactly on the buffers that are not well formed or have the top bit of
the timestamp, the SSRC and every source clear. -/
theorem parsers_agree_iff (buffer : List UInt8) :
    Agree buffer ↔ (WellFormed buffer → ∀ index ∈ wordStarts buffer, byteAt buffer index < 0x80) := by
  have js := unmarshal_js buffer
  unfold Agree
  rcases (RTPPacket.new.parse_ends buffer id).outcome with ⟨p, run, form, words⟩ | ⟨p, run, broken⟩
  · have accepted : RTPPacket.new.unmarshal buffer = .ok (true, p) := by
      rw [RTPPacket.unmarshal, RTPPacket.unmarshalWith, run]
    rw [accepted] at js ⊢
    have same : JavaScript.RTPPacket.numbers (·.toInt32.toInt) p = JavaScript.RTPPacket.integers p ↔
        ∀ index ∈ wordStarts buffer, byteAt buffer index < 0x80 := by
      rw [JavaScript.RTPPacket.integers, JavaScript.RTPPacket.numbers_eq_iff, words, List.forall_mem_map]
      refine forall₂_congr fun index _ => ?_
      exact (Signed.toInt_toInt32_eq_iff _).trans (wordOf_small buffer index)
    constructor
    · rintro ⟨_, _, q, cpp, other, equal⟩ -
      obtain ⟨rfl, rfl⟩ := Prod.mk.inj (Except.ok.inj cpp)
      obtain ⟨-, rfl⟩ := Prod.mk.inj (Except.ok.inj (js.symm.trans other))
      exact same.mp (equal rfl)
    · intro small
      exact ⟨true, p, _, rfl, js, fun _ => same.mpr (small form)⟩
  · have rejected : RTPPacket.new.unmarshal buffer = .ok (false, p) := by
      rw [RTPPacket.unmarshal, RTPPacket.unmarshalWith, run]
    rw [rejected] at js ⊢
    refine iff_of_true ⟨false, p, _, rfl, js, fun never => by cases never⟩ ?_
    exact fun form => absurd form broken

def stampedBuffer : List UInt8 := [0x80, 96, 0, 1, 0x80, 0, 0, 0, 0, 0, 0, 1, 0xAA]

/-- The timestamp is a negative number in JavaScript. -/
theorem timestamp_sign :
    (RTPPacket.new.unmarshal stampedBuffer).map (fun r => (r.1, r.2.timestamp)) = .ok (true, 2147483648) ∧
    (({} : JavaScript.RTPPacket).unmarshal stampedBuffer).map (fun r => (r.1, r.2.timestamp)) =
      .ok (true, -2147483648) ∧ ¬ Agree stampedBuffer := by
  have cpp : (RTPPacket.new.unmarshal stampedBuffer).map (fun r => (r.1, r.2.timestamp)) =
      .ok (true, 2147483648) := by decide +kernel
  have js : (({} : JavaScript.RTPPacket).unmarshal stampedBuffer).map (fun r => (r.1, r.2.timestamp)) =
      .ok (true, -2147483648) := by decide +kernel
  refine ⟨cpp, js, ?_⟩
  rintro ⟨accepted, p, q, one, other, equal⟩
  rw [one] at cpp
  rw [other] at js
  obtain ⟨rfl, unsigned⟩ := Prod.mk.inj (Except.ok.inj cpp)
  obtain ⟨-, signed⟩ := Prod.mk.inj (Except.ok.inj js)
  have same : q.timestamp = (p.timestamp.toNat : Int) := congrArg JavaScript.RTPPacket.timestamp (equal rfl)
  rw [show q.timestamp = -2147483648 from signed, show p.timestamp = 2147483648 from unsigned] at same
  cases same

end WebTransport.RTP

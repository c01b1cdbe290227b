import WebTransport.VP8.Packet

/-! The grammar of the payload descriptor, as the payloader's comment draws it: bits are
counted from the most significant, and an octet that is not there has no bit set. A walk over
a payload accepts it exactly when it holds the descriptor that its own bits announce. -/
namespace WebTransport.VP8

open Loop BigEndian

variable (payload : List UInt8)

def octet (index : Nat) : UInt8 := payload.getD index 0

/-- The octet `I L T K RSV`. -/
def extension : UInt8 := if field (octet payload 0) 0 1 = 1 then octet payload 1 else 0

def pictureIDStart : Nat := if field (octet payload 0) 0 1 = 1 then 2 else 1

/-- The octet `M PictureID`. -/
def pictureIDOctet : UInt8 := octet payload (pictureIDStart payload)

def pictureIDSize : Nat :=
  if field (extension payload) 0 1 = 1 then if field (pictureIDOctet payload) 0 1 = 1 then 2 else 1 else 0

def tl0picIdxStart : Nat := pictureIDStart payload + pictureIDSize payload

def tidStart : Nat := tl0picIdxStart payload + if field (extension payload) 1 1 = 1 then 1 else 0

/-- The octet `TID Y KEYIDX`. -/
def tidOctet : UInt8 := octet payload (tidStart payload)

def descriptorSize : Nat :=
  tidStart payload + if field (extension payload) 2 1 = 1 ∨ field (extension payload) 3 1 = 1 then 1 else 0

/-- Seven bits, or fifteen when M is set. -/
def pictureID : Nat :=
  if field (extension payload) 0 1 = 1 then
    if field (pictureIDOctet payload) 0 1 = 1 then
      field (pictureIDOctet payload) 1 7 * 256 + (octet payload (pictureIDStart payload + 1)).toNat
    else field (pictureIDOctet payload) 1 7
  else 0

def descriptor : VP8Packet where
  x := .ofNat (field (octet payload 0) 0 1)
  n := .ofNat (field (octet payload 0) 2 1)
  s := .ofNat (field (octet payload 0) 3 1)
  pid := .ofNat (field (octet payload 0) 5 3)
  i := .ofNat (field (extension payload) 0 1)
  l := .ofNat (field (extension payload) 1 1)
  t := .ofNat (field (extension payload) 2 1)
  k := .ofNat (field (extension payload) 3 1)
  pictureId := .ofNat (pictureID payload)
  tl0picIdx := if field (extension payload) 1 1 = 1 then octet payload (tl0picIdxStart payload) else 0
  tid := if field (extension payload) 2 1 = 1 then .ofNat (field (tidOctet payload) 0 2) else 0
  y := if field (extension payload) 2 1 = 1 then .ofNat (field (tidOctet payload) 2 1) else 0
  keyIdx := if field (extension payload) 3 1 = 1 then .ofNat (field (tidOctet payload) 3 5) else 0

variable {payload}

theorem readAt_octet (inside : index < payload.length) : readAt payload index = .ok (octet payload index) := by
  simp [octet, inside]

theorem bit_x (b : UInt8) : (b &&& 0x80) >>> 7 = .ofNat (field b 0 1) := mask_shift b 0x80 7 rfl (Nat.succ_pos _) rfl
theorem bit_l (b : UInt8) : (b &&& 0x40) >>> 6 = .ofNat (field b 1 1) := mask_shift b 0x40 6 rfl (Nat.succ_pos _) rfl
theorem bit_n (b : UInt8) : (b &&& 0x20) >>> 5 = .ofNat (field b 2 1) := mask_shift b 0x20 5 rfl (Nat.succ_pos _) rfl
theorem bit_s (b : UInt8) : (b &&& 0x10) >>> 4 = .ofNat (field b 3 1) := mask_shift b 0x10 4 rfl (Nat.succ_pos _) rfl

theorem low_pid (b : UInt8) : b &&& 0x07 = .ofNat (field b 5 3) := mask_low b 0x07 rfl rfl
theorem low_keyIdx (b : UInt8) : b &&& 0x1F = .ofNat (field b 3 5) := mask_low b 0x1F rfl rfl

theorem bit_y (b : UInt8) : (b >>> 5) &&& 0x1 = .ofNat (field b 2 1) := shift_mask b 0x1 5 rfl (Nat.succ_pos _) rfl

theorem high_tid (b : UInt8) : b >>> 6 = .ofNat (field b 0 2) := by
  rw [← shift_mask b 0x3 6 rfl (Nat.succ_pos _) rfl]
  revert b
  decide +kernel

theorem marked_iff (b : UInt8) : b &&& 0x80 ≠ 0 ↔ field b 0 1 = 1 := by
  rw [← ofNat_bit_eq_one_iff, ← bit_x, ne_eq]
  revert b
  decide +kernel

theorem long_pictureID (high second : UInt8) :
    join16 (high &&& 0x7F) second = UInt16.ofNat (field high 1 7 * 256 + second.toNat) := by
  have seven : field high 1 7 < 2 ^ 7 := field_lt high 1 7
  have eight := second.toNat_lt
  have low : high &&& 0x7F = UInt8.ofNat (field high 1 7) := mask_low high 0x7F rfl rfl
  apply UInt16.toNat_inj.mp
  rw [join16_toNat, low, UInt16.toNat_ofNat']
  simp only [ofBytes, List.length_cons, List.length_nil, UInt8.toNat_ofNat']
  omega

theorem short_pictureID (unmarked : ¬ field b 0 1 = 1) : b.toUInt16 = UInt16.ofNat (field b 1 7) := by
  have byte := b.toNat_lt
  apply UInt16.toNat_inj.mp
  rw [UInt8.toNat_toUInt16, UInt16.toNat_ofNat']
  unfold field at *
  omega

namespace VP8Packet

variable (p : VP8Packet) (payload)

def withFirst : VP8Packet := { p with
  x := (descriptor payload).x, n := (descriptor payload).n, s := (descriptor payload).s
  pid := (descriptor payload).pid }

def withX : VP8Packet := { p with
  i := (descriptor payload).i, l := (descriptor payload).l, t := (descriptor payload).t
  k := (descriptor payload).k }

def withPictureID : VP8Packet := { p with pictureId := (descriptor payload).pictureId }

def withTL0PICIDX : VP8Packet := { p with tl0picIdx := (descriptor payload).tl0picIdx }

def withTID : VP8Packet := { p with
  tid := (descriptor payload).tid, y := (descriptor payload).y, keyIdx := (descriptor payload).keyIdx }

theorem with_descriptor :
    ((((p.withFirst payload).withX payload).withPictureID payload).withTL0PICIDX payload).withTID payload =
      descriptor payload := rfl

/-- A checked octet: the walk goes on when the payload reaches past it. -/
theorem octet_ends {rest : UInt8 → Except (Stop VP8Packet) ρ} {Post : ρ → Prop}
    (later : Ends Later Post (rest (octet payload index))) :
    Ends (index < payload.length ∧ Later) Post
      (if payload.length ≤ index then .error (.early p) else do
        let b ← checked (readAt payload index)
        rest b) := by
  have inside (more : ¬ payload.length ≤ index) : readAt payload index = .ok (octet payload index) :=
    readAt_octet (Nat.not_le.mp more)
  apply Ends.congr (Ends.check fun more => Ends.read (inside more) later)
  rw [Nat.not_le]

/-- An octet that a flag announces. Where it is not announced the walk stays where it is. -/
theorem optional_ends {c d : Prop} [Decidable c] [Decidable d] {q : VP8Packet} {f : UInt8 → VP8Packet}
    {Post : VP8Packet × Nat → Prop} (announced : c ↔ d) (inside : start ≤ payload.length)
    (there : d → Post (f (octet payload start), start + 1)) (absent : ¬ d → Post (q, start)) :
    Ends (start + (if d then 1 else 0) ≤ payload.length) Post
      (if c then
        if payload.length ≤ start then .error (.early p) else do
          let b ← checked (readAt payload start)
          .ok (f b, start + 1)
      else .ok (q, start)) := by
  by_cases present : d
  · rw [if_pos (announced.mpr present), if_pos present]
    apply Ends.congr (octet_ends payload p ?_) (and_iff_left trivial)
    exact Ends.ok trivial (there present)
  · rw [if_neg (present ∘ announced.mp), if_neg present]
    exact Ends.ok inside (absent present)

theorem parseFirst_ends : Ends (1 ≤ payload.length) (fun r => r = (p.withFirst payload, 1))
    (p.parseFirst payload 0) := by
  apply Ends.congr (octet_ends payload p ?_) (and_iff_left trivial)
  apply Ends.ok trivial
  simp [withFirst, descriptor, bit_x, bit_n, bit_s, low_pid]

theorem parseX_ends (x : p.x = (descriptor payload).x) (inside : 1 ≤ payload.length) :
    Ends (pictureIDStart payload ≤ payload.length) (fun r => r = (p.withX payload, pictureIDStart payload))
      (p.parseX payload 1) := by
  have announced : p.x = 1 ↔ field (octet payload 0) 0 1 = 1 := by rw [x, descriptor, ofNat_bit_eq_one_iff]
  have start : pictureIDStart payload = 1 + if field (octet payload 0) 0 1 = 1 then 1 else 0 := by
    unfold pictureIDStart
    split <;> rfl
  rw [start]
  apply optional_ends payload p announced inside
  · intro extended
    have there : extension payload = octet payload 1 := if_pos extended
    simp [withX, descriptor, there, extended, bit_x, bit_l, bit_n, bit_s]
  · intro bare
    have absent : extension payload = 0 := if_neg bare
    simp [withX, descriptor, absent, bare]

theorem parsePictureID_ends (i : p.i = (descriptor payload).i) (inside : pictureIDStart payload ≤ payload.length) :
    Ends (tl0picIdxStart payload ≤ payload.length) (fun r => r = (p.withPictureID payload, tl0picIdxStart payload))
      (p.parsePictureID payload (pictureIDStart payload)) := by
  have announced : p.i = 1 ↔ field (extension payload) 0 1 = 1 := by rw [i, descriptor, ofNat_bit_eq_one_iff]
  unfold parsePictureID tl0picIdxStart pictureIDSize
  by_cases present : field (extension payload) 0 1 = 1
  · rw [if_pos (announced.mpr present), if_pos present]
    by_cases marked : field (pictureIDOctet payload) 0 1 = 1
    · rw [if_pos marked]
      have order : pictureIDStart payload < payload.length ∧ pictureIDStart payload + 2 ≤ payload.length ↔
          pictureIDStart payload + 2 ≤ payload.length := by omega
      apply Ends.congr (octet_ends payload p ?_) order
      rw [← pictureIDOctet, if_pos ((marked_iff _).mpr marked)]
      apply Ends.congr (octet_ends payload p ?_) (and_iff_left trivial)
      apply Ends.ok trivial
      simp [withPictureID, descriptor, pictureID, present, marked, long_pictureID]
    · rw [if_neg marked]
      apply Ends.congr (octet_ends payload p ?_) (and_iff_left trivial)
      rw [← pictureIDOctet, if_neg (marked ∘ (marked_iff _).mp)]
      apply Ends.ok trivial
      simp [withPictureID, descriptor, pictureID, present, marked, short_pictureID marked]
  · rw [if_neg (present ∘ announced.mp), if_neg present]
    apply Ends.ok inside
    simp [withPictureID, descriptor, pictureID, present]

theorem parseTL0PICIDX_ends (l : p.l = (descriptor payload).l) (inside : tl0picIdxStart payload ≤ payload.length) :
    Ends (tidStart payload ≤ payload.length) (fun r => r = (p.withTL0PICIDX payload, tidStart payload))
      (p.parseTL0PICIDX payload (tl0picIdxStart payload)) := by
  have announced : p.l = 1 ↔ field (extension payload) 1 1 = 1 := by rw [l, descriptor, ofNat_bit_eq_one_iff]
  apply optional_ends payload p announced inside
  · intro present
    simp [withTL0PICIDX, descriptor, tidStart, present]
  · intro absent
    simp [withTL0PICIDX, descriptor, tidStart, absent]

theorem parseTID_ends (t : p.t = (descriptor payload).t) (k : p.k = (descriptor payload).k)
    (inside : tidStart payload ≤ payload.length) :
    Ends (descriptorSize payload ≤ payload.length) (fun r => r = (p.withTID payload, descriptorSize payload))
      (p.parseTID payload (tidStart payload)) := by
  have layered : p.t = 1 ↔ field (extension payload) 2 1 = 1 := by rw [t, descriptor, ofNat_bit_eq_one_iff]
  have keyed : p.k = 1 ↔ field (extension payload) 3 1 = 1 := by rw [k, descriptor, ofNat_bit_eq_one_iff]
  apply optional_ends payload p (or_congr layered keyed) inside
  · intro present
    have size : descriptorSize payload = tidStart payload + 1 := by rw [descriptorSize, if_pos present]
    rw [← tidOctet, size]
    by_cases t : field (extension payload) 2 1 = 1 <;> by_cases k : field (extension payload) 3 1 = 1 <;>
      simp [withTID, descriptor, t, k, layered, keyed, high_tid, bit_y, low_keyIdx]
  · intro absent
    simp [withTID, descriptor, descriptorSize, not_or.mp absent]

theorem le_descriptorSize : 1 ≤ pictureIDStart payload ∧ pictureIDStart payload ≤ tl0picIdxStart payload ∧
    tl0picIdxStart payload ≤ tidStart payload ∧ tidStart payload ≤ descriptorSize payload := by
  refine ⟨?_, Nat.le_add_right _ _, Nat.le_add_right _ _, Nat.le_add_right _ _⟩
  unfold pictureIDStart
  split
  · omega
  · exact Nat.le_refl _

/-- The payloads that hold their descriptor and no others are walked to the end. -/
theorem parseDescriptor_ends : Ends (descriptorSize payload ≤ payload.length)
    (fun r => r = (descriptor payload, descriptorSize payload)) (p.parseDescriptor payload) := by
  have order : 1 ≤ payload.length ∧ pictureIDStart payload ≤ payload.length ∧
      tl0picIdxStart payload ≤ payload.length ∧ tidStart payload ≤ payload.length ∧
      descriptorSize payload ≤ payload.length ↔ descriptorSize payload ≤ payload.length := by
    have sizes := le_descriptorSize payload
    omega
  apply Ends.congr _ order
  apply Ends.bind (parseFirst_ends payload p)
  rintro inside _ rfl
  apply Ends.bind (parseX_ends payload (p.withFirst payload) rfl inside)
  rintro inside _ rfl
  apply Ends.bind (parsePictureID_ends payload ((p.withFirst payload).withX payload) rfl inside)
  rintro inside _ rfl
  apply Ends.bind (parseTL0PICIDX_ends payload (((p.withFirst payload).withX payload).withPictureID payload) rfl inside)
  rintro inside _ rfl
  have last := parseTID_ends payload
    ((((p.withFirst payload).withX payload).withPictureID payload).withTL0PICIDX payload) rfl rfl inside
  rwa [with_descriptor] at last

theorem parseDescriptor_safe : Safe (fun r => r.2 ≤ payload.length) (p.parseDescriptor payload) := by
  apply (p.parseDescriptor_ends payload).safe
  rintro _ fits rfl
  exact fits

/-- By the end every field has been stored, so what the object held does not show. -/
theorem parseDescriptor_alike (q : VP8Packet) : Alike Eq (p.parseDescriptor payload) (q.parseDescriptor payload) := by
  apply (Alike.of_ends (p.parseDescriptor_ends payload) (q.parseDescriptor_ends payload)).imp
  rintro _ _ ⟨rfl, rfl⟩
  rfl

theorem parseDescriptor_first {q : VP8Packet} {index : Nat} (parsed : p.parseDescriptor payload = .ok (q, index)) :
    ∃ b rest, payload = b :: rest ∧ q.s = (b &&& 0x10) >>> 4 ∧ q.pid = b &&& 0x07 := by
  have ends := p.parseDescriptor_ends payload
  rw [parsed] at ends
  obtain ⟨fits, same⟩ := ends
  obtain ⟨rfl, -⟩ := Prod.mk.inj same
  have sizes := le_descriptorSize payload
  obtain ⟨b, rest, rfl⟩ := List.exists_cons_of_length_pos (by omega : 0 < payload.length)
  exact ⟨b, rest, rfl, (bit_s b).symm, (low_pid b).symm⟩

theorem unmarshal_of_le (some : payload ≠ []) (fits : descriptorSize payload ≤ payload.length)
    (output : List UInt8) :
    p.unmarshal payload output = .ok (.ok, descriptor payload, payload.drop (descriptorSize payload)) := by
  have nonempty : payload.length ≠ 0 := fun none => some (List.length_eq_zero_iff.mp none)
  rcases (p.parseDescriptor_ends payload).outcome with ⟨_, run, -, rfl⟩ | ⟨-, -, short⟩
  · have inside : descriptorSize payload + (payload.length - descriptorSize payload) ≤ payload.length := by omega
    unfold unmarshal
    simp only [nonempty, if_false, run, slice_of_le inside, ok_bind]
    rw [List.take_of_length_le (List.length_drop ▸ Nat.le_refl _)]
  · exact absurd fits short

end VP8Packet

/-- A payload that holds the descriptor its own bits announce is accepted: whatever the object
held, its fields become those of the descriptor, and the output is the rest of the payload. Any
other payload is short. No call reads outside its payload. -/
theorem unmarshal_grammar (p : VP8Packet) (payload output : List UInt8) (some : payload ≠ []) :
    (descriptorSize payload ≤ payload.length ∧
      p.unmarshal payload output = .ok (.ok, descriptor payload, payload.drop (descriptorSize payload))) ∨
    (payload.length < descriptorSize payload ∧
      ∃ q, p.unmarshal payload output = .ok (.shortPacket, q, output)) := by
  rcases (p.parseDescriptor_ends payload).outcome with ⟨_, -, fits, -⟩ | ⟨q, run, short⟩
  · exact .inl ⟨fits, p.unmarshal_of_le payload some fits output⟩
  · have nonempty : payload.length ≠ 0 := fun none => some (List.length_eq_zero_iff.mp none)
    refine .inr ⟨Nat.not_le.mp short, q, ?_⟩
    rw [VP8Packet.unmarshal, if_neg nonempty, run]

/-- All the optional fields, with a long picture id: 0xF0 announces I, L, T and K. -/
def fullPayload : List UInt8 := [0x90, 0xF0, 0x81, 0x02, 0x33, 0x65, 0xAA]

theorem unmarshal_grammar_full : descriptor fullPayload =
      { x := 1, s := 1, i := 1, l := 1, t := 1, k := 1,
        pictureId := 258, tl0picIdx := 0x33, tid := 1, y := 1, keyIdx := 5 } ∧
    ∀ p output, VP8Packet.unmarshal p fullPayload output = .ok (.ok, descriptor fullPayload, [0xAA]) := by
  refine ⟨by decide, fun p output => ?_⟩
  rcases unmarshal_grammar p fullPayload output (by decide) with ⟨-, run⟩ | ⟨short, -⟩
  · exact run
  · exact absurd short (by decide)

end WebTransport.VP8

import WebTransport.H264.Alike
import WebTransport.H264.Scan

/-! Length prefixes read as start codes. Units joined with length prefixes are scanned like
any other stream; from a place where the scan starts afresh they come out as they went in
only if they are the runs of `Coincides`, in which the prefixes act as start codes at the
right places. -/
namespace WebTransport.H264

open Loop BigEndian

def avcStream (units : List FreeUnit) : List UInt8 :=
  units.foldl (fun buffer u => H264Packet.doPackaging { isAvc := true } buffer u.bytes) []

def annexBStream (units : List FreeUnit) : List UInt8 := units.flatMap fun u => naluStartCode ++ u.bytes

theorem foldl_doPackaging (units : List FreeUnit) (buffer : List UInt8) :
    units.foldl (fun buffer u => H264Packet.doPackaging { isAvc := true } buffer u.bytes) buffer =
      buffer ++ units.flatMap fun u => toBytes 4 u.bytes.length ++ u.bytes := by
  induction units generalizing buffer with
  | nil => simp
  | cons u rest ih =>
    rw [List.foldl_cons, H264Packet.doPackaging_avc _ buffer u.bytes rfl u.short, ih, List.flatMap_cons,
      List.append_assoc]

theorem avcStream_eq (units : List FreeUnit) :
    avcStream units = units.flatMap fun u => toBytes 4 u.bytes.length ++ u.bytes := foldl_doPackaging units []

@[simp] theorem avcStream_nil : avcStream [] = [] := rfl

theorem avcStream_cons (u : FreeUnit) (rest : List FreeUnit) :
    avcStream (u :: rest) = toBytes 4 u.bytes.length ++ (u.bytes ++ avcStream rest) := by
  rw [avcStream_eq, avcStream_eq, List.flatMap_cons, List.append_assoc]

theorem avcStream_prefix (u : FreeUnit) (rest : List FreeUnit) :
    ∃ b0 b1 b2 b3, avcStream (u :: rest) = b0 :: b1 :: b2 :: b3 :: (u.bytes ++ avcStream rest) ∧
      u.bytes.length = b0.toNat * 2 ^ 24 + b1.toNat * 2 ^ 16 + b2.toNat * 2 ^ 8 + b3.toNat := by
  have value : ofBytes (toBytes 4 u.bytes.length) = u.bytes.length := ofBytes_toBytes_of_lt u.short
  refine ⟨_, _, _, _, avcStream_cons u rest, ?_⟩
  simp only [toBytes, ofBytes, List.length_cons, List.length_nil] at value ⊢
  omega

theorem avcStream_split (units : List FreeUnit) (front back : List UInt8) (same : avcStream units = front ++ back)
    (some : front ≠ []) : ∃ u rest, units = u :: rest := by
  cases units with
  | nil => exact absurd (List.append_eq_nil_iff.mp same.symm).1 some
  | cons u rest => exact ⟨u, rest, rfl⟩

def alternating : List UInt8 := (List.replicate 128 [0, 1]).flatten

def constant (byte : UInt8) : List UInt8 := List.replicate 65535 byte

/-- A list that is shifted by two bytes onto itself alternates. -/
theorem alternates (w : List UInt8) (even : w.length = 2 * n) (same : w ++ [a, b] = x :: y :: w) :
    w ++ [a, b] = (List.replicate (n + 1) [x, y]).flatten ∧ a = x ∧ b = y := by
  induction n generalizing w with
  | zero =>
    obtain rfl := List.length_eq_zero_iff.mp even
    simp only [List.nil_append, List.cons.injEq, and_true] at same
    simp [same]
  | succ n ih =>
    rcases w with _ | ⟨c, _ | ⟨d, w⟩⟩
    · simp at even
    · simp at even
      omega
    · simp only [List.cons_append, List.cons.injEq] at same
      obtain ⟨rfl, rfl, same⟩ := same
      obtain ⟨pattern, last⟩ := ih w (by simpa [Nat.mul_succ] using even) same
      refine ⟨?_, last⟩
      rw [List.replicate_succ, List.flatten_cons, ← pattern]
      rfl

/-- A list that is shifted by one byte onto itself is constant. -/
theorem repeats (w : List UInt8) (same : (w ++ [c]).tail = w) : w = List.replicate w.length c := by
  induction w with
  | nil => rfl
  | cons b w ih =>
    cases w with
    | nil =>
      simp only [List.cons_append, List.nil_append, List.tail_cons, List.cons.injEq, and_true] at same
      rw [same]
      rfl
    | cons d w =>
      simp only [List.cons_append, List.tail_cons, List.cons.injEq] at same ih
      obtain ⟨rfl, same⟩ := same
      have later := ih same
      have head : d = c := (List.cons.inj later).1
      rw [List.length_cons, List.replicate_succ, ← later, head]

/-- Units whose length prefixes the scan takes for start codes, always at the end of the
unit before: a prefix 00 00 01 00, one whose last zeros join with a 01, and one that ends
in a start code. -/
inductive Coincides : List (List UInt8) → Prop where
  | nil : Coincides []
  | triple : c = 1 ∨ c = 0x81 → unit.length = c.toNat * 2 ^ 24 + 1 → Coincides rest →
      Coincides (alternating :: (1 :: constant c) :: unit :: rest)

def pieces (stream : List UInt8) : List (List UInt8) := nonempty (slices stream)

variable {us : List (List UInt8)}

theorem prefix_of_coded (coded : Coded (front ++ back)) (long : 3 ≤ front.length) : naluStartCode <+: front := by
  rcases coded with none | code
  · obtain rfl := (List.append_eq_nil_iff.mp none).1
    simp at long
  · exact List.prefix_of_prefix_length_le code (List.prefix_append _ _) long

/-- Behind a start code and inside a unit: the next piece is the counterpart of the unit,
and the stream goes on behind it. -/
theorem piece_inside (u : FreeUnit) (w rest : List UInt8) (inside : w <:+: u.bytes) (long : 3 ≤ w.length)
    (alike : List.Forall₂ Alike (pieces (naluStartCode ++ (w ++ rest))) (v :: us)) :
    ∃ piece more, w ++ rest = piece ++ more ∧ Alike piece v ∧ Coded more ∧
      List.Forall₂ Alike (pieces more) us := by
  obtain ⟨piece, more, same, coded, first⟩ := slices_behind_code (w ++ rest)
  have some : piece ≠ [] := by
    rintro rfl
    rw [List.nil_append] at same
    rw [← same] at coded
    exact u.noCode ((prefix_of_coded coded long).isInfix.trans inside)
  rw [pieces, first, nonempty_cons some] at alike
  cases alike with
  | cons now later => exact ⟨piece, more, same, now, coded, later⟩

/-- The unit behind the scan's position is shorter than its counterpart by a few bytes:
they are the first bytes of the next length prefix. -/
theorem piece_borrows (u : FreeUnit) (w : List UInt8) (rest : List FreeUnit) (inside : w <:+: u.bytes)
    (long : 3 ≤ w.length) (shorter : v.length = w.length + k) (some : 0 < k)
    (alike : List.Forall₂ Alike (pieces (naluStartCode ++ (w ++ avcStream rest))) (v :: us)) :
    ∃ next rest' front back, rest = next :: rest' ∧ avcStream rest = front ++ back ∧ front.length = k ∧
      Alike (w ++ front) v ∧ Coded back ∧ List.Forall₂ Alike (pieces back) us := by
  obtain ⟨piece, more, same, now, coded, later⟩ := piece_inside u w _ inside long alike
  have length := now.length
  obtain ⟨front, rfl, tail⟩ : ∃ front, piece = w ++ front ∧ avcStream rest = front ++ more := by
    rcases List.append_eq_append_iff.mp same with ⟨front, whole, tail⟩ | ⟨lost, whole, -⟩
    · exact ⟨front, whole, tail⟩
    · have := congrArg List.length whole
      rw [List.length_append] at this
      omega
  rw [List.length_append] at length
  have nonempty : front ≠ [] := by
    rintro rfl
    simp at length
    omega
  obtain ⟨next, rest', rfl⟩ := avcStream_split rest front more tail nonempty
  exact ⟨next, rest', front, more, rfl, tail, by omega, now, coded, later⟩

/-- A prefix 00 00 01 xx: the slice behind it is not the unit unless it is empty, and then
another start code follows at once. -/
theorem piece_first (u : FreeUnit) (rest : List FreeUnit) (code : naluStartCode <+: avcStream (u :: rest))
    (alike : List.Forall₂ Alike (pieces (avcStream (u :: rest))) (u.bytes :: us)) :
    ∃ w, u.bytes = 0 :: 1 :: w ∧ w.length = 254 ∧
      List.Forall₂ Alike (pieces (naluStartCode ++ (w ++ avcStream rest))) (u.bytes :: us) := by
  obtain ⟨b0, b1, b2, b3, stream, length⟩ := avcStream_prefix u rest
  rw [stream] at code alike
  simp only [naluStartCode, List.cons_prefix_cons, List.nil_prefix, and_true] at code
  obtain ⟨rfl, rfl, rfl⟩ := code
  have size : u.bytes.length = 256 + b3.toNat := by simpa using length
  obtain ⟨piece, more, same, coded, first⟩ := slices_behind_code (b3 :: (u.bytes ++ avcStream rest))
  have slices : pieces (0 :: 0 :: 1 :: b3 :: (u.bytes ++ avcStream rest)) = nonempty (piece :: slices more) :=
    congrArg nonempty first
  rw [slices] at alike
  by_cases empty : piece = []
  · subst empty
    rw [List.nil_append] at same
    subst same
    have start := prefix_of_coded (show Coded ((b3 :: u.bytes) ++ avcStream rest) from coded)
      (by simp only [List.length_cons]; omega)
    obtain ⟨x, tail, bytes⟩ := List.exists_cons_of_ne_nil u.nonempty
    have more : tail ≠ [] := by
      rintro rfl
      rw [bytes, List.length_singleton] at size
      omega
    obtain ⟨y, w, rfl⟩ := List.exists_cons_of_ne_nil more
    rw [bytes] at start size
    simp only [naluStartCode, List.cons_prefix_cons, List.nil_prefix, and_true] at start
    obtain ⟨rfl, rfl, rfl⟩ := start
    refine ⟨w, bytes, by simpa using size, ?_⟩
    rw [nonempty_empty, bytes] at alike
    rw [bytes]
    exact alike
  · rw [nonempty_cons empty] at alike
    cases alike with
    | cons now later =>
      exfalso
      have count := now.length
      obtain ⟨b, front, rfl⟩ := List.exists_cons_of_ne_nil empty
      -- the slice would end one byte before the unit does
      have behind : u.bytes ++ avcStream rest = front ++ more := (List.cons.inj same).2
      rw [← List.dropLast_append_getLast u.nonempty, List.append_assoc] at behind
      have lengths : u.bytes.dropLast.length = front.length := by
        rw [List.length_dropLast, ← count]
        rfl
      rw [← (List.append_inj behind lengths).2] at coded
      rcases coded with none | start
      · cases none
      · rw [naluStartCode, List.singleton_append, List.cons_prefix_cons] at start
        exact u.ending (by rw [List.getLast?_eq_some_getLast u.nonempty, ← start.1])

/-- The counterpart of an alternating unit ends with the first half of the next prefix. -/
theorem piece_second (u : FreeUnit) (rest : List FreeUnit) (bytes : u.bytes = 0 :: 1 :: w) (length : w.length = 254)
    (alike : List.Forall₂ Alike (pieces (naluStartCode ++ (w ++ avcStream rest))) (u.bytes :: us)) :
    ∃ next rest' w', rest = next :: rest' ∧ u.bytes = alternating ∧ next.bytes = 1 :: w' ∧ w'.length = 65535 ∧
      List.Forall₂ Alike (pieces (naluStartCode ++ (w' ++ avcStream rest'))) us := by
  have inside : w <:+: u.bytes := ⟨[0, 1], [], by simp [bytes]⟩
  have longer : u.bytes.length = w.length + 2 := by rw [bytes]; rfl
  obtain ⟨next, rest', front, back, rfl, split, two, now, coded, later⟩ :=
    piece_borrows u w rest inside (by omega) longer (by omega) alike
  obtain ⟨b0, b1, b2, b3, stream, size⟩ := avcStream_prefix next rest'
  obtain ⟨rfl, rfl⟩ := List.append_inj (split.symm.trans stream : front ++ back = [b0, b1] ++ _) two
  have same := now.eq_of_short (by rw [now.length, longer]; omega)
  rw [bytes] at same
  obtain ⟨pattern, rfl, rfl⟩ := alternates w (show w.length = 2 * 127 by omega) same
  have code := prefix_of_coded (show Coded ((b2 :: b3 :: next.bytes) ++ avcStream rest') from coded) (by
    have := List.length_pos_iff.mpr next.nonempty
    simp only [List.length_cons]
    omega)
  obtain ⟨x, w', some⟩ := List.exists_cons_of_ne_nil next.nonempty
  rw [some] at code size coded later
  simp only [naluStartCode, List.cons_prefix_cons, List.nil_prefix, and_true] at code
  obtain ⟨rfl, rfl, rfl⟩ := code
  refine ⟨next, rest', w', rfl, by rw [bytes, ← same, pattern]; rfl, some, by simpa using size, ?_⟩
  exact later

theorem header_one (byte : UInt8) : byte &&& 0x7F = 1 &&& 0x7F → byte = 1 ∨ byte = 0x81 := by
  revert byte; decide +kernel

/-- The counterpart of a constant unit ends with the first byte of the next prefix, and the
rest of that prefix is a start code. -/
theorem piece_third (u : FreeUnit) (rest : List FreeUnit) (bytes : u.bytes = 1 :: w) (length : w.length = 65535)
    (alike : List.Forall₂ Alike (pieces (naluStartCode ++ (w ++ avcStream rest))) (u.bytes :: us)) :
    ∃ next rest' c, rest = next :: rest' ∧ u.bytes = 1 :: constant c ∧ (c = 1 ∨ c = 0x81) ∧
      next.bytes.length = c.toNat * 2 ^ 24 + 1 ∧
      List.Forall₂ Alike (pieces (naluStartCode ++ (next.bytes ++ avcStream rest'))) us := by
  have inside : w <:+: u.bytes := ⟨[1], [], by simp [bytes]⟩
  have longer : u.bytes.length = w.length + 1 := by rw [bytes]; rfl
  obtain ⟨next, rest', front, back, rfl, split, one, now, coded, later⟩ :=
    piece_borrows u w rest inside (by omega) longer (by omega) alike
  obtain ⟨c, b1, b2, b3, stream, size⟩ := avcStream_prefix next rest'
  obtain ⟨rfl, rfl⟩ := List.append_inj (split.symm.trans stream : front ++ back = [c] ++ _) one
  have code := prefix_of_coded (show Coded ([b1, b2, b3] ++ (next.bytes ++ avcStream rest')) from coded)
    (Nat.le_refl 3)
  simp only [naluStartCode, List.cons_prefix_cons, List.nil_prefix, and_true] at code
  obtain ⟨rfl, rfl, rfl⟩ := code
  rw [bytes] at now
  have pattern : w = constant c := by
    have shifted := repeats w (now.tail.trans rfl)
    rwa [length] at shifted
  obtain ⟨x, w', some⟩ := List.exists_cons_of_ne_nil (List.length_pos_iff.mp (by omega : 0 < w.length))
  have head : x = c := by
    rw [some, constant, List.replicate_succ] at pattern
    exact (List.cons.inj pattern).1
  subst head
  rw [some, List.cons_append] at now
  exact ⟨next, rest', x, rfl, by rw [bytes, pattern], header_one x now.header, by simpa using size, later⟩

/-- A unit that follows its start code in full is its own counterpart. -/
theorem piece_whole (u : FreeUnit) (rest : List UInt8) (long : 3 ≤ u.bytes.length)
    (alike : List.Forall₂ Alike (pieces (naluStartCode ++ (u.bytes ++ rest))) (u.bytes :: us)) :
    Coded rest ∧ List.Forall₂ Alike (pieces rest) us := by
  obtain ⟨piece, more, same, now, coded, later⟩ := piece_inside u u.bytes rest (List.infix_refl _) long alike
  obtain ⟨-, rfl⟩ := List.append_inj same now.length.symm
  exact ⟨coded, later⟩

/-- From a place where the scan starts afresh, units that come out as they went in. -/
theorem coincides_of_alike (units : List FreeUnit) (coded : Coded (avcStream units))
    (alike : List.Forall₂ Alike (pieces (avcStream units)) (units.map FreeUnit.bytes)) :
    Coincides (units.map FreeUnit.bytes) := by
  induction count : units.length using Nat.strongRecOn generalizing units with
  | _ n ih =>
    cases units with
    | nil => exact .nil
    | cons first rest =>
      have code : naluStartCode <+: avcStream (first :: rest) := by
        rcases coded with none | code
        · rw [avcStream_cons] at none
          cases none
        · exact code
      obtain ⟨w, bytes, length, alike⟩ := piece_first first rest code alike
      obtain ⟨second, rest, w', rfl, alternates, bytes', length', alike⟩ :=
        piece_second first rest bytes length alike
      obtain ⟨third, rest, c, rfl, constant, value, size, alike⟩ := piece_third second rest bytes' length' alike
      have long : 3 ≤ third.bytes.length := by
        rw [size]
        rcases value with rfl | rfl <;> decide
      obtain ⟨coded, alike⟩ := piece_whole third (avcStream rest) long alike
      have others := ih rest.length (by simp only [List.length_cons] at count; omega) rest coded alike rfl
      rw [List.map_cons, List.map_cons, List.map_cons, alternates, constant]
      exact .triple value size others

end WebTransport.H264

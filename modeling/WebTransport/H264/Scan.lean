import WebTransport.H264.AnnexB
import WebTransport.H264.Emission

/-! The slices of a joined stream. Where a start code begins the scan starts afresh, so the
slices of a stream are its first one and the slices of what follows. -/
namespace WebTransport.H264

/-- Bytes in front of which a slice can end. -/
def Coded (stream : List UInt8) : Prop := stream = [] ∨ naluStartCode <+: stream

/-- A unit that no scan cuts, of a size that a length prefix can hold. -/
structure FreeUnit where
  bytes : List UInt8
  nonempty : bytes ≠ []
  short : bytes.length < 2 ^ 32
  noZeros : ¬ [0, 0, 0] <:+: bytes
  noCode : ¬ naluStartCode <:+: bytes
  ending : bytes.getLast? ≠ some 0

theorem FreeUnit.startsAt (u : FreeUnit) (more : List UInt8) (inside : i < u.bytes.length) :
    startsAt (u.bytes ++ more) i = false := by
  by_cases within : i + 3 ≤ u.bytes.length
  · exact startsAt_within u.noCode more within
  · exact startsAt_across u.ending more inside (by omega)

section Shift

variable {front back : List UInt8} {start next : Nat}

theorem codeLength_coded (coded : naluStartCode <+: stream) : codeLength stream 0 = 3 := by
  obtain ⟨rest, rfl⟩ := coded
  simp [codeLength, naluStartCode, annexbNaluStartCode]

theorem codeLength_annexb (more : List UInt8) : codeLength (annexbNaluStartCode ++ more) 0 = 4 :=
  if_pos (List.prefix_append _ _)

theorem codeLength_none (short : ¬ naluStartCode <+: stream) (long : ¬ annexbNaluStartCode <+: stream) :
    codeLength stream 0 = 0 := by
  unfold codeLength
  rw [List.drop_zero, if_neg long, if_neg short, if_pos rfl]

theorem codeLength_shift (some : front ≠ []) (coded : Coded back) (more : start < back.length) :
    codeLength (front ++ back) (front.length + start) = codeLength back start := by
  have apart : front.length + start ≠ 0 := by
    have := List.length_pos_iff.mpr some
    omega
  unfold codeLength
  rw [List.drop_length_add_append, if_neg apart]
  by_cases first : start = 0
  · subst first
    rcases coded with rfl | code
    · simp at more
    · rw [List.drop_zero, if_pos code, if_pos code]
  · rw [if_neg first]

theorem NextStart.coded (found : NextStart stream start next) : Coded (stream.drop next) := by
  rcases found.reached with rfl | ⟨-, code⟩
  · exact .inl List.drop_length
  · exact .inr (List.isPrefixOf_iff_prefix.mp code)

theorem NextStart.shift (front : List UInt8) (found : NextStart back start next) :
    NextStart (front ++ back) (front.length + start) (front.length + next) := by
  have position (i : Nat) : startsAt (front ++ back) (front.length + i) = startsAt back i := by
    rw [startsAt_drop, List.drop_left]
  constructor
  · rcases found.reached with rfl | ⟨low, code⟩
    · exact .inl List.length_append.symm
    · exact .inr ⟨by omega, by rw [position, code]⟩
  · intro i low high
    obtain ⟨j, rfl⟩ := Nat.exists_eq_add_of_le (show front.length ≤ i by omega)
    rw [position]
    exact found.first j (by omega) (by omega)

def Cut.shift (offset : Nat) (c : Cut) : Cut := ⟨offset + c.start, c.code, offset + c.next⟩

theorem Cut.unit_shift (front back : List UInt8) (c : Cut) :
    (c.shift front.length).unit (front ++ back) = c.unit back := by
  unfold Cut.unit Cut.shift
  rw [Nat.add_assoc, List.drop_length_add_append, Nat.add_sub_add_left]

theorem Cuts.shift (some : front ≠ []) (coded : Coded back) (cuts : Cuts back start cs) :
    Cuts (front ++ back) (front.length + start) (cs.map (Cut.shift front.length)) := by
  induction cuts with
  | finish past => exact .finish (by simpa using past)
  | cut more found _ ih =>
    rw [List.map_cons, Cut.shift, ← codeLength_shift some coded more]
    exact .cut (by simpa using more) (found.shift front) ih

end Shift

/-- One slice, then the slices of what follows the place where the scan stopped. -/
theorem slices_next (some : stream ≠ []) (found : NextStart stream 0 next) :
    slices stream = (stream.take next).drop (codeLength stream 0) :: slices (stream.drop next) := by
  have more : 0 < stream.length := List.length_pos_iff.mpr some
  have inside := found.le_length
  have length : (stream.take next).length = next := List.length_take_of_le inside
  have front : stream.take next ≠ [] := by
    rw [← List.length_pos_iff, length]
    exact found.lt more
  have later := (cuts_slices (stream.drop next)).shift front found.coded
  rw [List.take_append_drop, length, Nat.add_zero] at later
  rw [slices_eq (.cut more found later), List.map_cons, List.map_map, Cut.unit, Nat.zero_add, List.drop_take]
  congr 1
  apply List.map_congr_left
  intro c _
  have same := Cut.unit_shift (stream.take next) (stream.drop next) c
  rwa [List.take_append_drop, length] at same

/-- Every stream has a first slice; it ends in front of a start code, at least three bytes
into the stream, or takes everything. -/
theorem slices_first (some : stream ≠ []) :
    ∃ slice rest, stream.drop (codeLength stream 0) = slice ++ rest ∧ Coded rest ∧
      (3 ≤ codeLength stream 0 + slice.length ∨ rest = []) ∧ slices stream = slice :: slices rest := by
  obtain ⟨next, -, found⟩ := findNextStart_ok stream 0
  have code := codeLength_le (.inl rfl) (List.length_pos_iff.mpr some) found
  rw [Nat.zero_add] at code
  refine ⟨(stream.take next).drop (codeLength stream 0), stream.drop next, ?_, found.coded, ?_,
    slices_next some found⟩
  · rw [← List.drop_append_of_le_length, List.take_append_drop]
    rw [List.length_take_of_le found.le_length]
    exact code
  · rcases found.reached with rfl | ⟨low, -⟩
    · exact .inr List.drop_length
    · rw [List.length_drop, List.length_take_of_le found.le_length]
      exact .inl (by omega)

/-- Where the scan finds nothing on the way, the first slice is known. -/
theorem slices_free (some : front ≠ []) (coded : Coded rest) (long : rest = [] ∨ 3 ≤ front.length)
    (free : ∀ i, 3 ≤ i → i < front.length → startsAt (front ++ rest) i = false) :
    slices (front ++ rest) = front.drop (codeLength (front ++ rest) 0) :: slices rest := by
  have found : NextStart (front ++ rest) 0 front.length := by
    refine ⟨?_, fun i low high => free i (by omega) high⟩
    rcases coded with rfl | code
    · exact .inl (by simp)
    · rcases long with rfl | low
      · exact .inl (by simp)
      · refine .inr ⟨by omega, ?_⟩
        rw [startsAt, List.drop_left]
        exact List.isPrefixOf_iff_prefix.mpr code
  have nonempty : front ++ rest ≠ [] := by simp [some]
  rw [slices_next nonempty found, List.take_left, List.drop_left]

theorem slices_behind_code (body : List UInt8) :
    ∃ slice rest, body = slice ++ rest ∧ Coded rest ∧
      slices (naluStartCode ++ body) = slice :: slices rest := by
  have some : naluStartCode ++ body ≠ [] := by simp [naluStartCode]
  obtain ⟨slice, rest, same, coded, -, first⟩ := slices_first some
  rw [codeLength_coded (List.prefix_append _ _)] at same
  exact ⟨slice, rest, same, coded, first⟩

theorem slices_coded_free (coded : Coded rest) (free : ∀ i < unit.length, startsAt (unit ++ rest) i = false) :
    slices (naluStartCode ++ (unit ++ rest)) = unit :: slices rest := by
  have first := @slices_free (naluStartCode ++ unit) rest (by simp [naluStartCode]) coded
    (.inr (by simp [naluStartCode])) ?_
  · rw [List.append_assoc, codeLength_coded (List.prefix_append _ _)] at first
    exact first
  · intro i low high
    obtain ⟨j, rfl⟩ := Nat.exists_eq_add_of_le low
    rw [List.append_assoc, startsAt_drop]
    simp only [naluStartCode, List.length_append, List.length_cons, List.length_nil] at high
    exact free j (by omega)

/-- Units behind three-byte start codes come out as they went in. -/
theorem slices_flatMap (units : List FreeUnit) :
    slices (units.flatMap fun u => naluStartCode ++ u.bytes) = units.map FreeUnit.bytes := by
  induction units with
  | nil => rfl
  | cons u rest ih =>
    have coded : Coded (rest.flatMap fun u => naluStartCode ++ u.bytes) := by
      cases rest with
      | nil => exact .inl rfl
      | cons next rest => exact .inr ⟨_, by rw [List.flatMap_cons, List.append_assoc]⟩
    rw [List.flatMap_cons, List.append_assoc, slices_coded_free coded fun i inside => u.startsAt _ inside, ih]
    rfl

/-- The code 00 00 01 does not overlap with itself. -/
theorem startsAt_apart (one : startsAt stream i = true) (other : startsAt stream j = true) (before : i < j) :
    i + 3 ≤ j := by
  obtain ⟨-, -, last⟩ := startsAt_iff.mp one
  obtain ⟨zero, zero', -⟩ := startsAt_iff.mp other
  by_contra overlap
  rcases (show j = i + 2 ∨ j + 1 = i + 2 by omega) with same | same
  · rw [same, last] at zero
    cases zero
  · rw [same, last] at zero'
    cases zero'

/-- A range holds the start codes of the stream that lie in it as a whole. -/
theorem code_infix_iff (stream : List UInt8) (first next : Nat) :
    naluStartCode <:+: (stream.take next).drop first ↔
      ∃ i, first ≤ i ∧ i + 3 ≤ next ∧ startsAt stream i = true := by
  constructor
  · rintro ⟨front, back, whole⟩
    have here : (stream.take next).drop (first + front.length) = naluStartCode ++ back := by
      rw [← List.drop_drop, ← whole, List.append_assoc, List.drop_left]
    have length := congrArg List.length here
    rw [List.length_drop, List.length_take, List.length_append] at length
    simp only [naluStartCode, List.length_cons, List.length_nil] at length
    refine ⟨first + front.length, by omega, by omega, ?_⟩
    apply List.isPrefixOf_iff_prefix.mpr
    rw [List.drop_take] at here
    exact (List.prefix_append naluStartCode back).trans (here ▸ List.take_prefix _ _)
  · rintro ⟨i, low, high, found⟩
    obtain ⟨k, rfl⟩ := Nat.exists_eq_add_of_le low
    have code : naluStartCode <+: (stream.take next).drop (first + k) := by
      rw [List.drop_take]
      refine List.prefix_take_iff.mpr ⟨List.isPrefixOf_iff_prefix.mp found, ?_⟩
      simp only [naluStartCode, List.length_cons, List.length_nil]
      omega
    rw [← List.drop_drop] at code
    exact code.isInfix.trans (List.drop_suffix k _).isInfix

/-- The first slice holds a start code exactly when the stream begins with none and one is
less than three bytes away: the scan starts behind it. -/
theorem first_slice_code_iff (found : NextStart stream 0 next) :
    naluStartCode <:+: (stream.take next).drop (codeLength stream 0) ↔
      codeLength stream 0 = 0 ∧ (startsAt stream 1 = true ∨ startsAt stream 2 = true) := by
  rw [code_infix_iff]
  constructor
  · rintro ⟨i, low, high, code⟩
    have near : i < 3 := by
      by_contra far
      have none := found.first i (by omega) (by omega)
      rw [none] at code
      cases code
    unfold codeLength at low ⊢
    split at low
    · omega
    split at low
    · omega
    · rename_i long short
      rw [if_neg long, if_neg short, if_pos rfl]
      refine ⟨rfl, ?_⟩
      rcases (show i = 0 ∨ i = 1 ∨ i = 2 by omega) with rfl | rfl | rfl
      · exact absurd (List.isPrefixOf_iff_prefix.mp code) short
      · exact .inl code
      · exact .inr code
  · rintro ⟨none, near⟩
    have within (i : Nat) (close : i < 3) (code : startsAt stream i = true) : i + 3 ≤ next := by
      rcases found.reached with rfl | ⟨far, other⟩
      · have last := (startsAt_iff.mp code).2.2
        have := (List.getElem?_eq_some_iff.mp last).1
        omega
      · exact startsAt_apart code other (by omega)
    rcases near with code | code
    · exact ⟨1, by omega, within 1 (by decide) code, code⟩
    · exact ⟨2, by omega, within 2 (by decide) code, code⟩

/-- Behind a start code no slice holds another. -/
theorem slices_coded (stream : List UInt8) (coded : Coded stream) :
    ∀ slice ∈ slices stream, ¬ naluStartCode <:+: slice := by
  induction size : stream.length using Nat.strongRecOn generalizing stream with
  | _ n ih =>
    rcases coded with rfl | code
    · intro slice member
      cases member
    · have some : stream ≠ [] := by
        rintro rfl
        exact absurd code.length_le (by decide)
      obtain ⟨next, -, found⟩ := findNextStart_ok stream 0
      have forward := found.lt (List.length_pos_iff.mpr some)
      have three := codeLength_coded code
      rw [slices_next some found, List.forall_mem_cons]
      constructor
      · rw [first_slice_code_iff found]
        rintro ⟨none, -⟩
        omega
      · have shorter : (stream.drop next).length < n := by
          have := found.le_length
          rw [List.length_drop]
          omega
        exact ih _ shorter _ found.coded rfl

/-- No slice holds a start code unless the stream begins without one and has one at index
one or two. -/
theorem slices_whole_iff (stream : List UInt8) : (∀ slice ∈ slices stream, ¬ naluStartCode <:+: slice) ↔
    naluStartCode <+: stream ∨ annexbNaluStartCode <+: stream ∨
      (startsAt stream 1 = false ∧ startsAt stream 2 = false) := by
  by_cases empty : stream = []
  · subst empty
    refine iff_of_true ?_ (.inr (.inr ⟨rfl, rfl⟩))
    intro slice member
    cases member
  obtain ⟨next, -, found⟩ := findNextStart_ok stream 0
  rw [slices_next empty found, List.forall_mem_cons, and_iff_left (slices_coded _ found.coded), first_slice_code_iff found]
  by_cases short : naluStartCode <+: stream
  · refine iff_of_true ?_ (.inl short)
    rw [codeLength_coded short]
    simp
  by_cases long : annexbNaluStartCode <+: stream
  · obtain ⟨more, rfl⟩ := long
    refine iff_of_true ?_ (.inr (.inl (List.prefix_append _ _)))
    rw [codeLength_annexb]
    simp
  · rw [codeLength_none short long]
    simp [short, long]

/-- One byte in front of a start code: the only slice is the whole stream. -/
theorem leading_byte_hides_code : slices [0xAA, 0, 0, 1, 0x65] = [[0xAA, 0, 0, 1, 0x65]] ∧
    ¬ ∀ slice ∈ slices [0xAA, 0, 0, 1, 0x65], ¬ naluStartCode <:+: slice := by
  have one : slices [0xAA, 0, 0, 1, 0x65] = [[0xAA, 0, 0, 1, 0x65]] := by decide +kernel
  refine ⟨one, fun whole => whole [0xAA, 0, 0, 1, 0x65] (by rw [one]; exact List.mem_singleton_self _) ?_⟩
  exact ⟨[0xAA], [0x65], rfl⟩

end WebTransport.H264

import WebTransport.H264.Prefixes

/-! AVC against Annex B. The packetizer never reads its mode flag, so both modes scan for
start codes; the packets are the same exactly for the units whose length prefixes the scan
takes for start codes. -/
namespace WebTransport.H264

open Loop BigEndian

namespace H264Payloader

theorem emitNALU_setAVC (p : H264Payloader) (isAvc : Bool) (mtu : UInt16) (nalu : List UInt8) :
    (p.setAVC isAvc).emitNALU mtu nalu = (do
      let (p, packets) ← p.emitNALU mtu nalu
      .ok (p.setAVC isAvc, packets)) := by
  by_cases empty : nalu = []
  · subst empty
    rfl
  have same : (p.setAVC isAvc).Aggregates mtu nalu ↔ p.Aggregates mtu nalu := Iff.rfl
  have learned : (p.setAVC isAvc).learn nalu = (p.learn nalu).setAVC isAvc := by
    unfold learn setAVC
    split
    · rfl
    split
    · rfl
    split <;> rfl
  rw [emitNALU_eq _ mtu empty, emitNALU_eq p mtu empty, learned]
  by_cases aggregated : p.Aggregates mtu nalu
  · rw [if_pos (same.mpr aggregated), if_pos aggregated]
    rfl
  · rw [if_neg (aggregated ∘ same.mp), if_neg aggregated]
    cases sendNALU mtu nalu <;> rfl

theorem emitUnits_setAVC (p : H264Payloader) (isAvc : Bool) (mtu : UInt16) (units : List (List UInt8)) :
    (p.setAVC isAvc).emitUnits mtu units = (do
      let (p, packets) ← p.emitUnits mtu units
      .ok (p.setAVC isAvc, packets)) := by
  induction units generalizing p with
  | nil => rfl
  | cons nalu rest ih =>
    rw [emitUnits_cons, emitUnits_cons, emitNALU_setAVC]
    cases now : p.emitNALU mtu nalu with
    | error fault => rfl
    | ok result =>
      obtain ⟨q, packets⟩ := result
      simp only [ok_bind, ih q]
      cases later : q.emitUnits mtu rest <;> rfl

theorem emitUnits_empty (p : H264Payloader) (mtu : UInt16) (rest : List (List UInt8)) :
    p.emitUnits mtu ([] :: rest) = p.emitUnits mtu rest := by
  rw [emitUnits_cons, emitNALU_nil, ok_bind]
  cases later : p.emitUnits mtu rest <;> simp [later]

theorem emitUnits_congr (head : ∀ p : H264Payloader, p.emitNALU mtu a = p.emitNALU mtu b)
    (tail : ∀ p : H264Payloader, p.emitUnits mtu as = p.emitUnits mtu bs) (p : H264Payloader) :
    p.emitUnits mtu (a :: as) = p.emitUnits mtu (b :: bs) := by
  simp only [emitUnits_cons, head, tail]

end H264Payloader

def packetsOf (isAvc disable : Bool) (mtu : UInt16) (stream : List UInt8) : Except Fault (List (List UInt8)) := do
  let (_, packets) ← ((({} : H264Payloader).setAVC isAvc).disableSTAPA disable).payload mtu stream
  .ok packets

/-- Only the slices count. -/
theorem packetsOf_eq (isAvc disable : Bool) (mtu : UInt16) (stream : List UInt8) :
    packetsOf isAvc disable mtu stream = (do
      let (_, packets) ← (({} : H264Payloader).disableSTAPA disable).emitUnits mtu (slices stream)
      .ok packets) := by
  have order : (({} : H264Payloader).setAVC isAvc).disableSTAPA disable =
      (({} : H264Payloader).disableSTAPA disable).setAVC isAvc := rfl
  unfold packetsOf
  rw [order, H264Payloader.payload_eq, H264Payloader.emitUnits_setAVC]
  cases (({} : H264Payloader).disableSTAPA disable).emitUnits mtu (slices stream) <;> rfl

theorem fuaPacket_top (same : header &&& 0x7F = header' &&& 0x7F) : fuaPacket header = fuaPacket header' := by
  have refIdc (h : UInt8) : h &&& naluRefIdcBitmask = (h &&& 0x7F) &&& naluRefIdcBitmask := by
    revert h; decide +kernel
  have kind (h : UInt8) : h &&& naluTypeBitmask = (h &&& 0x7F) &&& naluTypeBitmask := by
    revert h; decide +kernel
  funext first last fragment
  unfold fuaPacket fuHeader
  rw [refIdc header, refIdc header', kind header, kind header', same]

/-- A unit that is too long for any aggregate, up to the top bit of its header. -/
theorem emitNALU_top (p : H264Payloader) (mtu : UInt16) (room : 3 ≤ mtu.toNat) (long : 65535 ≤ rest.length)
    (same : header &&& 0x7F = header' &&& 0x7F) (plain : header &&& 0x1F ∉ [spsNaluType, ppsNaluType])
    (plain' : header' &&& 0x1F ∉ [spsNaluType, ppsNaluType]) :
    p.emitNALU mtu (header :: rest) = p.emitNALU mtu (header' :: rest) := by
  have most : mtu.toNat < 65536 := mtu.toNat_lt
  have apart (h : UInt8) : ¬ p.Aggregates mtu (h :: rest) := by
    rintro ⟨-, -, -, -, size⟩
    unfold stapaSize at size
    simp only [List.length_cons] at size
    omega
  have kept (h : UInt8) (other : h &&& 0x1F ∉ [spsNaluType, ppsNaluType]) : p.learn (h :: rest) = p := by
    have kind : naluType (h :: rest) = h &&& 0x1F := rfl
    simp only [List.mem_cons, List.not_mem_nil, or_false, not_or] at other
    simp [H264Payloader.learn, kind, other]
  have fragments (h : UInt8) : sendNALU mtu (h :: rest) = Fragment.cut (mtu.toNat - 2) (fuaPacket h) rest :=
    sendNALU_cut room (by simp only [List.length_cons]; omega)
  rw [p.emitNALU_eq mtu (List.cons_ne_nil _ _), p.emitNALU_eq mtu (List.cons_ne_nil _ _), if_neg (apart header),
    if_neg (apart header'), kept header plain, kept header' plain', fragments, fragments, fuaPacket_top same]

theorem alternating_shift : alternating ++ [0, 1] = 0 :: 1 :: alternating := by
  unfold alternating
  generalize 128 = n
  induction n with
  | zero => rfl
  | succ n ih => rw [List.replicate_succ, List.flatten_cons, List.append_assoc, ih]; rfl

theorem length_alternating : alternating.length = 256 := by decide +kernel

theorem constant_shift (c : UInt8) : constant c ++ [c] = c :: constant c := by
  unfold constant
  generalize 65535 = n
  rw [← List.replicate_succ', List.replicate_succ]

theorem length_constant (c : UInt8) : (constant c).length = 65535 := List.length_replicate

-- About any lists with these properties, so that the long ones are never written out.
section Triple

variable {first second third : FreeUnit} {rest : List FreeUnit} {c : UInt8} {w : List UInt8}

/-- The four start codes that the scan finds in a run of three prefixes. -/
theorem avcStream_triple (value : c = 1 ∨ c = 0x81)
    (size256 : first.bytes.length = 256) (alternates : first.bytes ++ [0, 1] = 0 :: 1 :: first.bytes)
    (second_bytes : second.bytes = 1 :: w) (size65535 : w.length = 65535) (repeated : w ++ [c] = c :: w)
    (size : third.bytes.length = c.toNat * 2 ^ 24 + 1) :
    avcStream (first :: second :: third :: rest) =
      naluStartCode ++ ([] ++ (naluStartCode ++ (first.bytes ++ (naluStartCode ++
        (c :: w ++ (naluStartCode ++ (third.bytes ++ avcStream rest))))))) := by
  have prefix256 : toBytes 4 first.bytes.length = [0, 0, 1, 0] := by
    rw [size256]
    decide
  have prefix65536 : toBytes 4 second.bytes.length = [0, 1, 0, 0] := by
    rw [second_bytes, List.length_cons, size65535]
    decide
  have prefixC : toBytes 4 third.bytes.length = [c, 0, 0, 1] := by
    rw [size]
    rcases value with rfl | rfl <;> decide
  have shift2 (more : List UInt8) : first.bytes ++ 0 :: 1 :: more = 0 :: 1 :: (first.bytes ++ more) := by
    have joined := congrArg (· ++ more) alternates
    simpa using joined
  have shift1 (more : List UInt8) : w ++ c :: more = c :: (w ++ more) := by
    have joined := congrArg (· ++ more) repeated
    simpa using joined
  rw [avcStream_cons, avcStream_cons, avcStream_cons, prefix256, prefix65536, prefixC, second_bytes]
  simp only [naluStartCode, List.cons_append, List.nil_append, shift2, shift1]

theorem startsAt_constant (nonzero : c ≠ 0) (same : ∀ b ∈ w, b = c) (more : List UInt8)
    (inside : i < (c :: w).length) : startsAt (c :: w ++ more) i = false := by
  rw [Bool.eq_false_iff]
  intro found
  have zero := (startsAt_iff.mp found).1
  rw [List.getElem?_append_left inside] at zero
  rcases List.mem_cons.mp (List.mem_of_getElem? zero) with head | member
  · exact nonzero head.symm
  · exact nonzero (same 0 member).symm

theorem slices_triple (value : c = 1 ∨ c = 0x81)
    (size256 : first.bytes.length = 256) (alternates : first.bytes ++ [0, 1] = 0 :: 1 :: first.bytes)
    (second_bytes : second.bytes = 1 :: w) (size65535 : w.length = 65535) (repeated : w ++ [c] = c :: w)
    (same : ∀ b ∈ w, b = c) (size : third.bytes.length = c.toNat * 2 ^ 24 + 1) (coded : Coded (avcStream rest)) :
    Coded (avcStream (first :: second :: third :: rest)) ∧
      slices (avcStream (first :: second :: third :: rest)) =
        [] :: first.bytes :: (c :: w) :: third.bytes :: slices (avcStream rest) := by
  have code (more : List UInt8) : Coded (naluStartCode ++ more) := .inr (List.prefix_append _ _)
  have nonzero : c ≠ 0 := by
    rcases value with rfl | rfl <;> decide
  rw [avcStream_triple value size256 alternates second_bytes size65535 repeated size]
  refine ⟨code _, ?_⟩
  rw [slices_coded_free (code _) (by simp), slices_coded_free (code _) fun i inside => first.startsAt _ inside,
    slices_coded_free (code _) fun i inside => startsAt_constant nonzero same _ inside,
    slices_coded_free coded fun i inside => third.startsAt _ inside]

/-- The long unit in the middle may come out with another top bit, which no packet shows. -/
theorem emitUnits_triple (value : c = 1 ∨ c = 0x81) (size65535 : w.length = 65535) (room : 3 ≤ mtu.toNat)
    (later : ∀ p : H264Payloader, p.emitUnits mtu as = p.emitUnits mtu bs) (p : H264Payloader) :
    p.emitUnits mtu ([] :: a :: (c :: w) :: b :: as) = p.emitUnits mtu (a :: (1 :: w) :: b :: bs) := by
  rw [p.emitUnits_empty]
  revert p
  apply H264Payloader.emitUnits_congr
  · exact fun _ => rfl
  apply H264Payloader.emitUnits_congr
  · intro p
    rcases value with rfl | rfl
    · rfl
    · exact emitNALU_top p mtu room size65535.ge (by decide) (by decide) (by decide)
  apply H264Payloader.emitUnits_congr
  · exact fun _ => rfl
  exact later

end Triple

/-- Such units are dispatched from the stream with length prefixes as from the list. -/
theorem emitUnits_coincides (coincides : Coincides list) (units : List FreeUnit)
    (same : units.map FreeUnit.bytes = list) :
    Coded (avcStream units) ∧ ∀ (mtu : UInt16), 3 ≤ mtu.toNat → ∀ p : H264Payloader,
      p.emitUnits mtu (slices (avcStream units)) = p.emitUnits mtu list := by
  induction coincides generalizing units with
  | nil =>
    obtain rfl := List.map_eq_nil_iff.mp same
    exact ⟨.inl rfl, fun _ _ _ => rfl⟩
  | triple value size _ ih =>
    obtain ⟨first, units, rfl, alternates, same⟩ := List.map_eq_cons_iff.mp same
    obtain ⟨second, units, rfl, repeated, same⟩ := List.map_eq_cons_iff.mp same
    obtain ⟨third, units, rfl, rfl, rfl⟩ := List.map_eq_cons_iff.mp same
    obtain ⟨coded, later⟩ := ih units rfl
    obtain ⟨code, cut⟩ := slices_triple value
      (show first.bytes.length = 256 by rw [alternates, length_alternating])
      (by rw [alternates, alternating_shift]) repeated (length_constant _) (constant_shift _)
      (fun b member => List.eq_of_mem_replicate member) size coded
    refine ⟨code, fun mtu room p => ?_⟩
    rw [cut, alternates]
    exact emitUnits_triple value (length_constant _) room (later mtu room) p

theorem slices_single (u : FreeUnit) (rest : List FreeUnit) (one : u.bytes.length = 1)
    (coded : Coded (avcStream rest)) :
    slices (avcStream (u :: rest)) = u.bytes :: slices (avcStream rest) := by
  have stream : avcStream (u :: rest) = annexbNaluStartCode ++ u.bytes ++ avcStream rest := by
    rw [avcStream_cons, one, List.append_assoc]
    rfl
  rw [stream, slices_free (by simp [annexbNaluStartCode]) coded (.inr (by simp [annexbNaluStartCode])),
    List.append_assoc, codeLength_annexb]
  · rfl
  · intro i low high
    rw [List.append_assoc]
    by_cases last : i = 3
    · subst last
      rfl
    · obtain ⟨j, rfl⟩ := Nat.exists_eq_add_of_le (show 4 ≤ i by omega)
      rw [startsAt_drop]
      simp only [annexbNaluStartCode, List.length_append, List.length_cons, List.length_nil] at high
      exact u.startsAt _ (show j < u.bytes.length by omega)

/-- Behind a prefix of one byte the scan stands at the next unit again. -/
theorem alike_single (u : FreeUnit) (rest : List FreeUnit) (one : u.bytes.length = 1)
    (alike : List.Forall₂ Alike (pieces (avcStream (u :: rest))) (u.bytes :: us)) :
    Coded (avcStream rest) ∧ List.Forall₂ Alike (pieces (avcStream rest)) us := by
  have stream : avcStream (u :: rest) = annexbNaluStartCode ++ (u.bytes ++ avcStream rest) := by
    rw [avcStream_cons, one]
    rfl
  have some : avcStream (u :: rest) ≠ [] := by
    rw [stream]
    exact List.cons_ne_nil _ _
  obtain ⟨piece, more, same, coded, -, first⟩ := slices_first some
  rw [stream, codeLength_annexb] at same
  have behind : u.bytes ++ avcStream rest = piece ++ more := same
  obtain ⟨b, bytes⟩ := List.length_eq_one_iff.mp one
  by_cases empty : piece = []
  · rw [empty, List.nil_append] at behind
    rw [← behind, bytes] at coded
    rcases coded with none | code
    · cases none
    · rw [naluStartCode, List.singleton_append, List.cons_prefix_cons] at code
      exact absurd (by rw [bytes, ← code.1]; rfl) u.ending
  · rw [pieces, first, nonempty_cons empty] at alike
    cases alike with
    | cons now later =>
      obtain ⟨-, rfl⟩ := List.append_inj behind now.length.symm
      exact ⟨coded, later⟩

/-- Where the stream does not begin with a start code, its first slice begins with the
length prefix and cannot have the length of the unit. -/
theorem not_alike_first (u : FreeUnit) (rest : List FreeUnit) (short : ¬ naluStartCode <+: avcStream (u :: rest))
    (long : ¬ annexbNaluStartCode <+: avcStream (u :: rest)) :
    ¬ List.Forall₂ Alike (pieces (avcStream (u :: rest))) (u.bytes :: us) := by
  obtain ⟨b0, b1, b2, b3, stream, length⟩ := avcStream_prefix u rest
  have some : avcStream (u :: rest) ≠ [] := by
    rw [stream]
    exact List.cons_ne_nil _ _
  obtain ⟨piece, more, same, coded, bound, first⟩ := slices_first some
  rw [codeLength_none short long, List.drop_zero, stream] at same
  rw [codeLength_none short long, Nat.zero_add] at bound
  have total := congrArg List.length same
  simp only [List.length_cons, List.length_append] at total
  intro alike
  have nonempty : piece ≠ [] := by
    rintro rfl
    rcases bound with low | rfl
    · simp at low
    · cases same
  rw [pieces, first, nonempty_cons nonempty] at alike
  cases alike with
  | cons now _ =>
    have count := now.length
    have code : naluStartCode <+: more := by
      rcases coded with rfl | code
      · simp only [List.length_nil] at total
        omega
      · exact code
    have low : 3 ≤ piece.length := by
      rcases bound with low | rfl
      · exact low
      · simp only [List.length_nil] at total
        omega
    by_cases three : piece.length = 3
    · have parts : [b0, b1, b2] ++ b3 :: (u.bytes ++ avcStream rest) = piece ++ more := same
      obtain ⟨-, rfl⟩ := List.append_inj parts three.symm
      rw [naluStartCode, List.cons_prefix_cons] at code
      rw [← code.1] at length
      simp only [UInt8.toNat_zero] at length
      omega
    · have split := List.take_append_drop (u.bytes.length - 4) u.bytes
      have front : ([b0, b1, b2, b3] ++ u.bytes.take (u.bytes.length - 4)).length = piece.length := by
        rw [List.length_append, List.length_take]
        simp only [List.length_cons, List.length_nil]
        omega
      have parts : ([b0, b1, b2, b3] ++ u.bytes.take (u.bytes.length - 4)) ++
          (u.bytes.drop (u.bytes.length - 4) ++ avcStream rest) = piece ++ more := by
        rw [← same, List.append_assoc, ← List.append_assoc (u.bytes.take _), split]
        rfl
      obtain ⟨-, rfl⟩ := List.append_inj parts front
      have inside := prefix_of_coded (.inr code) (by rw [List.length_drop]; omega)
      exact u.noCode (inside.isInfix.trans (List.drop_suffix _ _).isInfix)

/-- The first unit of a stream with length prefixes begins the scan anew, is a single byte,
or does not come out. -/
theorem coincides_first (units : List FreeUnit)
    (alike : List.Forall₂ Alike (pieces (avcStream units)) (units.map FreeUnit.bytes)) :
    Coincides (units.map FreeUnit.bytes) ∨
      ∃ b rest, units.map FreeUnit.bytes = [b] :: rest ∧ Coincides rest := by
  cases units with
  | nil => exact .inl .nil
  | cons u rest =>
    by_cases short : naluStartCode <+: avcStream (u :: rest)
    · exact .inl (coincides_of_alike (u :: rest) (.inr short) alike)
    by_cases long : annexbNaluStartCode <+: avcStream (u :: rest)
    · obtain ⟨b0, b1, b2, b3, stream, length⟩ := avcStream_prefix u rest
      rw [stream] at long
      simp only [annexbNaluStartCode, List.cons_prefix_cons, List.nil_prefix, and_true] at long
      obtain ⟨rfl, rfl, rfl, rfl⟩ := long
      have one : u.bytes.length = 1 := by simpa using length
      obtain ⟨coded, later⟩ := alike_single u rest one alike
      obtain ⟨b, bytes⟩ := List.length_eq_one_iff.mp one
      exact .inr ⟨b, _, by rw [List.map_cons, bytes], coincides_of_alike rest coded later⟩
    · exact absurd alike (not_alike_first u rest short long)

theorem annexBStream_slices (units : List FreeUnit) : slices (annexBStream units) = units.map FreeUnit.bytes :=
  slices_flatMap units

theorem packetsOf_disabled (isAvc : Bool) (mtu : UInt16) (room : 3 ≤ mtu.toNat) (stream : List UInt8) :
    ∃ packets, packetsOf isAvc true mtu stream = .ok packets ∧ Sent mtu (pieces stream) packets := by
  obtain ⟨packets, run, sent⟩ :=
    emitUnits_disabled (({} : H264Payloader).disableSTAPA true) rfl room (slices stream)
  refine ⟨packets, ?_, sent⟩
  rw [packetsOf_eq, run]
  rfl

theorem pieces_nonempty (stream : List UInt8) : ∀ piece ∈ pieces stream, piece ≠ [] := by
  intro piece member
  exact of_decide_eq_true (List.mem_filter.mp member).2

/-- Both modes give the same packets at every mtu, with STAP-A or without, exactly for the
units whose length prefixes the scan takes for start codes: an optional first unit of one
byte, and then the runs of `Coincides`. -/
theorem modes_agree_iff (units : List FreeUnit) :
    (∀ mtu : UInt16, 3 ≤ mtu.toNat → ∀ disable : Bool,
        packetsOf true disable mtu (avcStream units) = packetsOf false disable mtu (annexBStream units)) ↔
      Coincides (units.map FreeUnit.bytes) ∨
        ∃ b rest, units.map FreeUnit.bytes = [b] :: rest ∧ Coincides rest := by
  constructor
  · intro agree
    have list : pieces (annexBStream units) = units.map FreeUnit.bytes := by
      unfold pieces nonempty
      rw [annexBStream_slices, List.filter_eq_self]
      intro bytes member
      obtain ⟨u, -, rfl⟩ := List.mem_map.mp member
      exact decide_eq_true u.nonempty
    have both (mtu : UInt16) (room : 3 ≤ mtu.toNat) :
        ∃ packets, Sent mtu (pieces (avcStream units)) packets ∧ Sent mtu (units.map FreeUnit.bytes) packets := by
      obtain ⟨packets, run, sent⟩ := packetsOf_disabled true mtu room (avcStream units)
      obtain ⟨packets', run', sent'⟩ := packetsOf_disabled false mtu room (annexBStream units)
      have same := agree mtu room true
      rw [run, run'] at same
      obtain rfl := Except.ok.inj same
      exact ⟨packets, sent, list ▸ sent'⟩
    obtain ⟨as, narrow, narrow'⟩ := both 3 (by decide)
    obtain ⟨bs, wide, wide'⟩ := both 65535 (by decide)
    apply coincides_first
    refine alike_of_sent _ _ (pieces_nonempty _) ?_ narrow narrow' rfl wide wide' rfl
    rw [← list]
    exact pieces_nonempty _
  · intro coincides mtu room disable
    rw [packetsOf_eq, packetsOf_eq, annexBStream_slices]
    rcases coincides with run | ⟨b, rest, bytes, run⟩
    · rw [(emitUnits_coincides run units rfl).2 mtu room]
    · obtain ⟨u, rest', rfl, first, others⟩ := List.map_eq_cons_iff.mp bytes
      obtain ⟨coded, later⟩ := emitUnits_coincides run rest' others
      rw [slices_single u rest' (by rw [first]; rfl) coded, List.map_cons, others,
        H264Payloader.emitUnits_congr (fun _ => rfl) (later mtu room)]

/-- An AVC stream of one unit of two bytes goes out whole, with its length prefix. -/
theorem avc_prefix_sent :
    ∃ u : FreeUnit, u.bytes = [0x65, 0xAA] ∧
      packetsOf true false 1200 (avcStream [u]) = .ok [[0, 0, 0, 2, 0x65, 0xAA]] ∧
      packetsOf false false 1200 (annexBStream [u]) = .ok [[0x65, 0xAA]] ∧
      packetsOf true false 1200 (avcStream [u]) ≠ packetsOf false false 1200 (annexBStream [u]) := by
  refine ⟨⟨[0x65, 0xAA], by decide, by decide, by decide, by decide, by decide⟩, rfl, ?_⟩
  decide +kernel

end WebTransport.H264

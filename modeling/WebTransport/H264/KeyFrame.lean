import WebTransport.H264.Aggregation
import WebTransport.H264.Emission

/-! Key-frame detection. `IsKeyFrame` walks an aggregation packet by itself and looks at the
byte behind each length, whether or not the unit there has one: behind an empty unit it
takes the next length, or the byte that is left over, for a unit's header. -/
namespace WebTransport.H264

open Loop BigEndian Records

namespace H264Depacketizer

/-- One pass over an aggregation packet; the state is the offset. -/
def keyFramePass (payload : List UInt8) (currentOffset : Nat) : Except Fault (Pass Nat Bool) :=
  if currentOffset + stapaNaluLengthSize < payload.length then do
    let hi ← readAt payload currentOffset
    let lo ← readAt payload (currentOffset + 1)
    let naluSize := (join16 hi lo).toNat
    let currentOffset := currentOffset + stapaNaluLengthSize
    if ← (if currentOffset < payload.length then do
        .ok (((← readAt payload currentOffset) &&& naluTypeBitmask) == 5) else .ok false) then
      .ok (.leave true)
    else .ok (.again (currentOffset + naluSize))
  else .ok (.leave false)

def isKeyFrame (payload : List UInt8) : Except Fault Bool :=
  if payload.length < 1 then .ok false
  else do
    let naluType := (← readAt payload 0) &&& naluTypeBitmask
    if naluType = 5 then .ok true
    else if ← (if naluType = stapaNaluType ∧ 3 ≤ payload.length then
        loop (keyFramePass payload) (payload.length + 1) stapaHeaderSize else .ok false) then
      .ok true
    else if naluType = fuaNaluType ∧ 2 ≤ payload.length then do
      let isStart := ((← readAt payload 1) &&& fuStartBitmask) != 0
      let originalNaluType := (← readAt payload 1) &&& naluTypeBitmask
      if isStart ∧ originalNaluType = 5 then .ok true else .ok false
    else .ok false

end H264Depacketizer

/-- A unit of its own, an aggregation with such a unit, or the start of a fragmented one. -/
inductive KeyFrame : List UInt8 → Prop where
  | single : header &&& naluTypeBitmask = 5 → KeyFrame (header :: body)
  | aggregate : header &&& naluTypeBitmask = stapaNaluType → IsAggregation units body →
      u ∈ units → u.bytes ≠ [] → naluType u.bytes = 5 → KeyFrame (header :: body)
  | fragment : indicator &&& naluTypeBitmask = fuaNaluType → header &&& fuStartBitmask ≠ 0 →
      header &&& naluTypeBitmask = 5 → KeyFrame (indicator :: header :: data)

/-- An aggregation without such a unit, in which a byte that looks like the header of one
follows an empty unit. -/
def Misread (payload : List UInt8) : Prop :=
  ∃ header, ∃ (units : List AggregationUnit) (leftover : List UInt8),
    payload = header :: (join units ++ leftover) ∧ header &&& naluTypeBitmask = stapaNaluType ∧
    leftover.length ≤ 1 ∧ (∀ u ∈ units, u.bytes ≠ [] → naluType u.bytes ≠ 5) ∧
    ∃ before u after, units = before ++ u :: after ∧ u.bytes = [] ∧ naluType (join after ++ leftover) = 5

/-- The units of an aggregation are determined. -/
theorem IsAggregation.unique {units units' : List AggregationUnit} (one : IsAggregation units body)
    (other : IsAggregation units' body) : units = units' := by
  obtain ⟨leftover, rfl, short⟩ := one
  obtain ⟨leftover', same, short'⟩ := other
  have first := drain_join (by decide) units (next_leftover short)
  have second := drain_join (by decide) units' (next_leftover short')
  rw [same, second] at first
  exact (Prod.mk.inj first).1.symm

namespace H264Depacketizer

/-- The walk looks at the first byte behind every length field, if there is one. -/
def seesIdr (leftover : List UInt8) : List AggregationUnit → Bool
  | [] => false
  | u :: units => naluType (u.bytes ++ (join units ++ leftover)) == 5 || seesIdr leftover units

theorem seesIdr_iff (leftover : List UInt8) (units : List AggregationUnit) : seesIdr leftover units = true ↔
    ∃ before u after, units = before ++ u :: after ∧ naluType (u.bytes ++ (join after ++ leftover)) = 5 := by
  induction units with
  | nil => simp [seesIdr]
  | cons first units ih =>
    rw [seesIdr, Bool.or_eq_true, beq_iff_eq, ih]
    constructor
    · rintro (now | ⟨before, u, after, rfl, found⟩)
      · exact ⟨[], first, units, rfl, now⟩
      · exact ⟨first :: before, u, after, rfl, found⟩
    · rintro ⟨before, u, after, same, found⟩
      cases before with
      | nil =>
        obtain ⟨rfl, rfl⟩ := List.cons.inj same
        exact .inl found
      | cons _ before => exact .inr ⟨before, u, after, (List.cons.inj same).2, found⟩

theorem naluType_append (some : bytes ≠ []) (more : List UInt8) : naluType (bytes ++ more) = naluType bytes := by
  obtain ⟨header, rest, rfl⟩ := List.exists_cons_of_ne_nil some
  rfl

/-- It finds the units of type 5, and whatever follows an empty unit. -/
theorem seesIdr_origin (leftover : List UInt8) (units : List AggregationUnit) : seesIdr leftover units = true ↔
    (∃ u ∈ units, u.bytes ≠ [] ∧ naluType u.bytes = 5) ∨
    ∃ before u after, units = before ++ u :: after ∧ u.bytes = [] ∧ naluType (join after ++ leftover) = 5 := by
  rw [seesIdr_iff]
  constructor
  · rintro ⟨before, u, after, rfl, found⟩
    by_cases empty : u.bytes = []
    · rw [empty, List.nil_append] at found
      exact .inr ⟨before, u, after, rfl, empty, found⟩
    · rw [naluType_append empty] at found
      exact .inl ⟨u, by simp, empty, found⟩
  · rintro (⟨u, member, some, found⟩ | ⟨before, u, after, rfl, empty, found⟩)
    · obtain ⟨before, after, rfl⟩ := List.append_of_mem member
      exact ⟨before, u, after, rfl, by rw [naluType_append some, found]⟩
    · exact ⟨before, u, after, rfl, by rw [empty, List.nil_append, found]⟩

theorem keyFramePass_stop (short : payload.length ≤ offset + 2) : keyFramePass payload offset = .ok (.leave false) := by
  unfold keyFramePass
  rw [if_neg]
  simp only [stapaNaluLengthSize]
  omega

theorem keyFramePass_record {u : AggregationUnit} (here : payload.drop offset = u.encode ++ more)
    (some : u.bytes ++ more ≠ []) :
    keyFramePass payload offset = .ok (if naluType (u.bytes ++ more) = 5 then .leave true
      else .again (offset + (2 + u.bytes.length))) := by
  have size := length_of_record here
  have behind := drop_field here
  have filled := List.length_pos_iff.mpr some
  rw [List.length_append] at filled
  have inside : offset + 2 < payload.length := by omega
  have first : offset < payload.length := by omega
  have second : offset + 1 < payload.length := by omega
  have length : (join16 payload[offset] payload[offset + 1]).toNat = u.bytes.length := by
    rw [← u.announced_encode more, ← here, join16_toNat, List.drop_eq_getElem_cons first,
      List.drop_eq_getElem_cons second]
    rfl
  have type : payload[offset + 2] &&& naluTypeBitmask = naluType (u.bytes ++ more) := by
    rw [← behind, List.drop_eq_getElem_cons inside]
    rfl
  simp only [keyFramePass, stapaNaluLengthSize, if_pos inside, readAt_of_lt first, readAt_of_lt second,
    readAt_of_lt inside, ok_bind, length, type]
  by_cases idr : naluType (u.bytes ++ more) = 5
  · simp [idr]
  · simp [idr, Nat.add_assoc]

theorem keyFrameLoop_units (units : List AggregationUnit) (short : leftover.length ≤ 1) (offset : Nat)
    (here : payload.drop offset = join units ++ leftover) (enough : payload.length - offset < fuel) :
    loop (keyFramePass payload) fuel offset = .ok (seesIdr leftover units) := by
  induction units generalizing offset fuel with
  | nil =>
    obtain ⟨fuel, rfl⟩ : ∃ n, fuel = n + 1 := ⟨fuel - 1, by omega⟩
    have size : payload.length - offset = leftover.length := by
      rw [← List.length_drop, here, join_nil, List.nil_append]
    exact loop_leave (keyFramePass_stop (by omega))
  | cons u units ih =>
    obtain ⟨fuel, rfl⟩ : ∃ n, fuel = n + 1 := ⟨fuel - 1, by omega⟩
    rw [join_cons, List.append_assoc] at here
    have size := length_of_record here
    rw [seesIdr]
    by_cases some : u.bytes ++ (join units ++ leftover) = []
    · -- an empty unit at the very end: the loop stops in front of it
      have empty := congrArg List.length some
      rw [List.length_append, List.length_nil] at empty
      rw [loop_leave (keyFramePass_stop (by omega)), some]
      cases units with
      | nil => rfl
      | cons v units =>
        rw [join_cons, List.append_assoc, List.length_append, v.length_encode] at empty
        omega
    · have pass := keyFramePass_record here some
      by_cases idr : naluType (u.bytes ++ (join units ++ leftover)) = 5
      · rw [if_pos idr] at pass
        rw [loop_leave pass, idr]
        rfl
      · rw [if_neg idr] at pass
        rw [loop_again pass, ih _ (drop_record here) (by omega)]
        simp [idr]

theorem isKeyFrame_units (stapa : header &&& naluTypeBitmask = stapaNaluType) (units : List AggregationUnit)
    (short : leftover.length ≤ 1) : isKeyFrame (header :: (join units ++ leftover)) = .ok (seesIdr leftover units) := by
  have here : (header :: (join units ++ leftover)).drop 1 = join units ++ leftover := rfl
  have walk := keyFrameLoop_units units short 1 here (Nat.lt_succ_of_le (Nat.sub_le _ 1))
  unfold isKeyFrame
  rw [if_neg (by simp), readAt_zero, ok_bind, stapa, if_neg (by decide)]
  by_cases long : 3 ≤ (header :: (join units ++ leftover)).length
  · rw [if_pos ⟨rfl, long⟩]
    simp only [stapaHeaderSize, walk, ok_bind]
    cases seesIdr leftover units <;> rfl
  · have none : units = [] := by
      cases units with
      | nil => rfl
      | cons u units =>
        simp only [List.length_cons, join_cons, List.length_append, u.length_encode] at long
        omega
    rw [if_neg fun both => long both.2, none]
    rfl

theorem isKeyFrame_fragment (fua : indicator &&& naluTypeBitmask = fuaNaluType) (header : UInt8) (data : List UInt8) :
    isKeyFrame (indicator :: header :: data) =
      .ok (decide (header &&& fuStartBitmask ≠ 0 ∧ header &&& naluTypeBitmask = 5)) := by
  have apart : ¬ fuaNaluType = 5 := by decide
  have apart' : ¬ fuaNaluType = stapaNaluType := by decide
  unfold isKeyFrame
  rw [if_neg (by simp), readAt_zero, ok_bind, fua, if_neg apart, if_neg fun both => apart' both.1]
  by_cases key : header &&& fuStartBitmask ≠ 0 ∧ header &&& naluTypeBitmask = 5
  · simp [readAt, key]
  · simp [readAt, key]

theorem isKeyFrame_single (single : header &&& naluTypeBitmask ∈ singleNaluTypes) (body : List UInt8) :
    isKeyFrame (header :: body) = .ok (decide (header &&& naluTypeBitmask = 5)) := by
  have stapa : header &&& naluTypeBitmask ≠ stapaNaluType := fun same => H264Packet.stapaNaluType_not_single (same ▸ single)
  have fua : header &&& naluTypeBitmask ≠ fuaNaluType := fun same => H264Packet.fuaNaluType_not_single (same ▸ single)
  unfold isKeyFrame
  by_cases idr : header &&& naluTypeBitmask = 5
  · simp [idr]
  · simp [idr, stapa, fua]

end H264Depacketizer

namespace H264Packet

/-- Some call accepts the payload; which output vector it gets does not matter. -/
def Accepts (p : H264Packet) (payload : List UInt8) : Prop :=
  ∃ output q packaged, p.unmarshal payload output = .ok (.ok, q, packaged)

theorem Accepts.kind {p : H264Packet} (accepts : p.Accepts payload) : ∃ header body, payload = header :: body ∧
    (header &&& naluTypeBitmask ∈ singleNaluTypes ∨
      (header &&& naluTypeBitmask = stapaNaluType ∧ ∃ units, IsAggregation units body) ∨
      (header &&& naluTypeBitmask = fuaNaluType ∧ body ≠ [])) := by
  obtain ⟨output, q, packaged, run⟩ := accepts
  cases payload with
  | nil => simp [unmarshal] at run
  | cons header body =>
    refine ⟨header, body, rfl, ?_⟩
    by_cases single : header &&& naluTypeBitmask ∈ singleNaluTypes
    · exact .inl single
    by_cases stapa : header &&& naluTypeBitmask = stapaNaluType
    · exact .inr (.inl ⟨stapa, aggregation_of_ok stapa run⟩)
    by_cases fua : header &&& naluTypeBitmask = fuaNaluType
    · refine .inr (.inr ⟨fua, ?_⟩)
      rintro rfl
      simp [unmarshal, parseBody, parseFUA, fua, fuaNaluType_not_single, fuaNaluType_ne_stapa, fuaHeaderSize] at run
    · simp [unmarshal, parseBody, single, stapa, fua] at run

end H264Packet

open H264Depacketizer

theorem keyFrame_single_iff (single : header &&& naluTypeBitmask ∈ singleNaluTypes) (body : List UInt8) :
    KeyFrame (header :: body) ↔ header &&& naluTypeBitmask = 5 := by
  constructor
  · intro key
    cases key with
    | single idr => exact idr
    | aggregate stapa => exact absurd (stapa ▸ single) H264Packet.stapaNaluType_not_single
    | fragment fua => exact absurd (fua ▸ single) H264Packet.fuaNaluType_not_single
  · exact .single

theorem keyFrame_aggregate_iff (stapa : header &&& naluTypeBitmask = stapaNaluType) (whole : IsAggregation units body) :
    KeyFrame (header :: body) ↔ ∃ u ∈ units, u.bytes ≠ [] ∧ naluType u.bytes = 5 := by
  constructor
  · intro key
    cases key with
    | single idr => exact absurd (stapa.symm.trans idr) (by decide)
    | aggregate _ whole' member some idr => exact ⟨_, whole.unique whole' ▸ member, some, idr⟩
    | fragment fua => exact absurd (stapa.symm.trans fua) (by decide)
  · rintro ⟨u, member, some, idr⟩
    exact .aggregate stapa whole member some idr

theorem keyFrame_fragment_iff (fua : indicator &&& naluTypeBitmask = fuaNaluType) (header : UInt8) (data : List UInt8) :
    KeyFrame (indicator :: header :: data) ↔ header &&& fuStartBitmask ≠ 0 ∧ header &&& naluTypeBitmask = 5 := by
  constructor
  · intro key
    cases key with
    | single idr => exact absurd (fua.symm.trans idr) (by decide)
    | aggregate stapa => exact absurd (fua.symm.trans stapa) (by decide)
    | fragment _ start idr => exact ⟨start, idr⟩
  · rintro ⟨start, idr⟩
    exact .fragment fua start idr

/-- On accepted payloads the detection is right unless it takes a byte behind an empty unit
for the header of an IDR unit. -/
theorem key_frame_agrees_iff (p : H264Packet) (payload : List UInt8) :
    (p.Accepts payload → ∃ key, isKeyFrame payload = .ok key ∧ (key = true ↔ KeyFrame payload)) ↔
      ¬ Misread payload := by
  constructor
  · rintro agrees ⟨header, units, leftover, rfl, stapa, short, others, misread⟩
    have whole : IsAggregation units (join units ++ leftover) := ⟨leftover, rfl, short⟩
    obtain ⟨key, detected, right⟩ := agrees ⟨[], _, _, p.unmarshal_aggregation stapa whole []⟩
    obtain rfl := Except.ok.inj ((isKeyFrame_units stapa units short).symm.trans detected)
    rw [keyFrame_aggregate_iff stapa whole] at right
    obtain ⟨u, member, some, idr⟩ := right.mp ((seesIdr_origin leftover units).mpr (.inr misread))
    exact others u member some idr
  · intro whole accepts
    obtain ⟨header, body, rfl, single | ⟨stapa, units, leftover, rfl, short⟩ | ⟨fua, some⟩⟩ := accepts.kind
    · refine ⟨_, isKeyFrame_single single body, ?_⟩
      rw [keyFrame_single_iff single, decide_eq_true_iff]
    · refine ⟨_, isKeyFrame_units stapa units short, ?_⟩
      rw [keyFrame_aggregate_iff stapa ⟨leftover, rfl, short⟩, seesIdr_origin]
      constructor
      · rintro (idr | misread)
        · exact idr
        · by_contra none
          refine whole ⟨header, units, leftover, rfl, stapa, short, ?_, misread⟩
          exact fun u member some idr => none ⟨u, member, some, idr⟩
      · exact .inl
    · obtain ⟨second, data, rfl⟩ := List.exists_cons_of_ne_nil some
      refine ⟨_, isKeyFrame_fragment fua second data, ?_⟩
      rw [keyFrame_fragment_iff fua, decide_eq_true_iff]

/-- One empty unit and a leftover byte 65: accepted, and taken for a key frame. -/
theorem empty_unit_misread : H264Packet.unmarshal {} [0x78, 0, 0, 0x65] [] = .ok (.ok, {}, [0, 0, 0, 1]) ∧
    isKeyFrame [0x78, 0, 0, 0x65] = .ok true ∧ ¬ KeyFrame [0x78, 0, 0, 0x65] := by
  refine ⟨by decide +kernel, by decide +kernel, ?_⟩
  have whole : IsAggregation [⟨[], by decide⟩] [0, 0, 0x65] := ⟨[0x65], rfl, by decide⟩
  have stapa : (0x78 : UInt8) &&& naluTypeBitmask = stapaNaluType := by decide
  rw [keyFrame_aggregate_iff stapa whole]
  simp

end WebTransport.H264

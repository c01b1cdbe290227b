import WebTransport.Theory.Records
import WebTransport.H264.Packet

/-! Aggregation packets as the depacketizer reads them. The STAP-A loop takes units as long
as they are whole. What is then left is accepted up to one byte; a length that runs past
the end is an error, and the units in front of it are in the output already. -/
namespace WebTransport.H264

open Loop BigEndian Records

abbrev AggregationUnit := Record 2

/-- The bytes behind the first one: whole units, and at most one byte that is left over. -/
def IsAggregation (units : List AggregationUnit) (body : List UInt8) : Prop :=
  ∃ leftover, body = join units ++ leftover ∧ leftover.length ≤ 1

def Overshoots (rest : List UInt8) : Prop := 2 ≤ rest.length ∧ rest.length < 2 + announced 2 rest

def BreaksOff (payload : List UInt8) : Prop :=
  ∃ header first, ∃ (others : List AggregationUnit) (rest : List UInt8),
    payload = header :: (join (first :: others) ++ rest) ∧ header &&& naluTypeBitmask = stapaNaluType ∧ Overshoots rest

theorem next_leftover (short : leftover.length ≤ 1) : next 2 leftover = none := by
  rw [next_none_iff]
  omega

namespace H264Packet

def packagings (p : H264Packet) (units : List AggregationUnit) : List UInt8 :=
  units.flatMap fun u => p.doPackaging [] u.bytes

@[simp] theorem packagings_nil (p : H264Packet) : p.packagings [] = [] := rfl

@[simp] theorem packagings_cons (p : H264Packet) (u : AggregationUnit) (units : List AggregationUnit) :
    p.packagings (u :: units) = p.doPackaging [] u.bytes ++ p.packagings units := List.flatMap_cons

theorem packagings_avc (p : H264Packet) (avc : p.isAvc = true) (units : List AggregationUnit) :
    p.packagings units = join (units.map (Record.widen (by decide : 2 ≤ 4))) := by
  induction units with
  | nil => rfl
  | cons u units ih =>
    have short : u.bytes.length < 2 ^ 32 := Nat.lt_trans u.short (by decide)
    rw [packagings_cons, ih, p.doPackaging_avc [] u.bytes avc short]
    rfl

variable {payload rest : List UInt8} {u : AggregationUnit}

theorem stapaPass_record (p : H264Packet) (output : List UInt8) (here : payload.drop offset = u.encode ++ more) :
    p.stapaPass payload (offset, output) =
      .ok (.again (offset + (2 + u.bytes.length), p.doPackaging output u.bytes)) := by
  have size := length_of_record here
  have length : ofBytes ((payload.drop offset).take 2) = u.bytes.length := by
    rw [here]
    exact u.announced_encode more
  have bytes : (payload.drop (offset + 2)).take u.bytes.length = u.bytes := by
    rw [drop_field here, List.take_left]
  have pass := p.stapaPass_announced output (show offset + stapaNaluLengthSize ≤ payload.length by
    simp only [stapaNaluLengthSize]
    omega)
  simp only [stapaNaluLengthSize, length, bytes] at pass
  rw [pass, if_neg (by omega), Nat.add_assoc]

theorem stapaPass_overshoots (p : H264Packet) (output : List UInt8) (past : Overshoots (payload.drop offset)) :
    p.stapaPass payload (offset, output) = .ok (.leave (.shortPacket, output)) := by
  obtain ⟨field, short⟩ := past
  rw [List.length_drop] at field short
  have pass := p.stapaPass_announced output (show offset + stapaNaluLengthSize ≤ payload.length by
    simp only [stapaNaluLengthSize]
    omega)
  rw [pass, if_pos]
  simp only [stapaNaluLengthSize, announced] at short ⊢
  omega

/-- From any offset the loop takes the units that are there and ends at the rest. -/
theorem stapaLoop_units (p : H264Packet) (units : List AggregationUnit) (stuck : next 2 rest = none)
    (offset : Nat) (output : List UInt8) (here : payload.drop offset = join units ++ rest)
    (enough : payload.length - offset < fuel) :
    loop (p.stapaPass payload) fuel (offset, output) =
      .ok (if rest.length ≤ 1 then .ok else .shortPacket, output ++ p.packagings units) := by
  induction units generalizing offset output fuel with
  | nil =>
    obtain ⟨fuel, rfl⟩ : ∃ n, fuel = n + 1 := ⟨fuel - 1, by omega⟩
    rw [join_nil, List.nil_append] at here
    subst here
    rw [next_none_iff] at stuck
    rw [packagings_nil, List.append_nil]
    by_cases short : (payload.drop offset).length ≤ 1
    · rw [if_pos short]
      apply loop_leave
      apply p.stapaPass_stop output
      rw [List.length_drop] at short
      simp only [stapaNaluLengthSize]
      omega
    · rw [if_neg short]
      exact loop_leave (p.stapaPass_overshoots output ⟨by omega, stuck⟩)
  | cons u units ih =>
    obtain ⟨fuel, rfl⟩ : ∃ n, fuel = n + 1 := ⟨fuel - 1, by omega⟩
    rw [join_cons, List.append_assoc] at here
    have size := length_of_record here
    rw [loop_again (p.stapaPass_record output here), ih _ _ (drop_record here) (by omega), doPackaging_append p output,
      packagings_cons, List.append_assoc]

/-- The whole call, for any output vector of the caller. -/
theorem unmarshal_units (p : H264Packet) (stapa : header &&& naluTypeBitmask = stapaNaluType)
    (units : List AggregationUnit) (stuck : next 2 rest = none) (output : List UInt8) :
    p.unmarshal (header :: (join units ++ rest)) output =
      .ok (if rest.length ≤ 1 then .ok else .shortPacket, p, p.packagings units) := by
  have here : (header :: (join units ++ rest)).drop 1 = join units ++ rest := rfl
  have run := p.stapaLoop_units units stuck 1 [] here (Nat.lt_succ_of_le (Nat.sub_le _ 1))
  rw [List.nil_append] at run
  unfold unmarshal parseBody
  simp only [List.length_cons, Nat.add_one_ne_zero, if_false, readAt_zero, ok_bind, stapa, stapaNaluType_not_single,
    if_true, stapaHeaderSize] at run ⊢
  rw [if_neg (by omega), run]
  rfl

theorem unmarshal_aggregation (p : H264Packet) (stapa : header &&& naluTypeBitmask = stapaNaluType)
    (whole : IsAggregation units body) (output : List UInt8) :
    p.unmarshal (header :: body) output = .ok (.ok, p, p.packagings units) := by
  obtain ⟨leftover, rfl, short⟩ := whole
  rw [p.unmarshal_units stapa units (next_leftover short), if_pos short]

theorem aggregation_of_ok {p q : H264Packet} {output packaged : List UInt8}
    (stapa : header &&& naluTypeBitmask = stapaNaluType)
    (run : p.unmarshal (header :: body) output = .ok (.ok, q, packaged)) : ∃ units, IsAggregation units body := by
  obtain ⟨units, rest, rfl, stuck⟩ := exists_join (by decide : 0 < 2) body
  rw [p.unmarshal_units stapa units stuck output] at run
  by_cases short : rest.length ≤ 1
  · exact ⟨units, rest, rfl, short⟩
  · rw [if_neg short] at run
    cases run

/-- A payload of another type is rejected before anything is stored or packaged. -/
theorem unmarshal_rejects (p : H264Packet) (payload output : List UInt8)
    (other : ∀ header body, payload = header :: body → header &&& naluTypeBitmask ≠ stapaNaluType)
    (run : p.unmarshal payload output = .ok (error, q, packaged)) (rejected : error ≠ .ok) :
    q = p ∧ (packaged = [] ∨ packaged = output) := by
  cases payload with
  | nil =>
    obtain ⟨-, rfl, rfl⟩ : _ ∧ p = q ∧ output = packaged := by simpa [unmarshal] using run
    exact ⟨rfl, .inr rfl⟩
  | cons header body =>
    have apart := other header body rfl
    by_cases single : header &&& naluTypeBitmask ∈ singleNaluTypes
    · obtain ⟨rfl, -⟩ : .ok = error ∧ _ := by simpa [unmarshal, parseBody, single] using run
      exact absurd rfl rejected
    by_cases fua : header &&& naluTypeBitmask = fuaNaluType
    · cases body with
      | nil =>
        obtain ⟨-, rfl, rfl⟩ : _ ∧ p = q ∧ [] = packaged := by
          simpa [unmarshal, parseBody, parseFUA, fua, fuaNaluType_not_single, fuaNaluType_ne_stapa, fuaHeaderSize] using run
        exact ⟨rfl, .inl rfl⟩
      | cons second data =>
        have body : p.parseFUA (header :: second :: data) [] = .ok (error, q, packaged) := by
          simpa [unmarshal, parseBody, fua, fuaNaluType_not_single, fuaNaluType_ne_stapa] using run
        rw [parseFUA_cons] at body
        split at body
        · exact absurd (Prod.mk.inj (Except.ok.inj body)).1.symm rejected
        · exact absurd (Prod.mk.inj (Except.ok.inj body)).1.symm rejected
    · obtain ⟨-, rfl, rfl⟩ : _ ∧ p = q ∧ [] = packaged := by
        simpa [unmarshal, parseBody, single, apart, fua] using run
      exact ⟨rfl, .inl rfl⟩

/-- For every output vector that the caller passes, a rejected payload leaves the buffer as
it is and nothing of itself in the vector. -/
def RejectsCleanly (p : H264Packet) (payload : List UInt8) : Prop :=
  ∀ output error q packaged, p.unmarshal payload output = .ok (error, q, packaged) → error ≠ .ok →
    q.fuaBuffer = p.fuaBuffer ∧ (packaged = [] ∨ packaged = output)

end H264Packet

/-- An aggregation packet is accepted exactly when it is units and at most one byte more, and
then the output is their packagings; in AVC mode the units can be read from it again. -/
theorem stapa_grammar (p : H264Packet) (header : UInt8) (stapa : header &&& naluTypeBitmask = stapaNaluType)
    (body output : List UInt8) :
    ∃ error packaged, p.unmarshal (header :: body) output = .ok (error, p, packaged) ∧
      (error = .ok ↔ ∃ units, IsAggregation units body) ∧
      ∀ units, IsAggregation units body → packaged = p.packagings units ∧
        (p.isAvc = true → Framing.drain (codec 4 (by decide)).toDecoder packaged =
          (units.map (Record.widen (by decide)), [])) := by
  obtain ⟨units, rest, rfl, stuck⟩ := exists_join (by decide : 0 < 2) body
  have run := p.unmarshal_units stapa units stuck output
  refine ⟨_, _, run, ?_, ?_⟩
  · constructor
    · intro accepted
      rw [accepted] at run
      exact H264Packet.aggregation_of_ok stapa run
    · rintro ⟨units', whole⟩
      have both := run.symm.trans (p.unmarshal_aggregation stapa whole output)
      exact (Prod.mk.inj (Except.ok.inj both)).1
  · intro units' whole
    have both := run.symm.trans (p.unmarshal_aggregation stapa whole output)
    have same : p.packagings units = p.packagings units' := (Prod.mk.inj (Prod.mk.inj (Except.ok.inj both)).2).2
    refine ⟨same, fun avc => ?_⟩
    have read := drain_join (by decide) (units'.map (Record.widen (by decide : 2 ≤ 4))) (next_nil (by decide))
    rw [List.append_nil] at read
    rw [same, p.packagings_avc avc, read]

/-- One unit and a byte that is left over. -/
theorem stapa_grammar_leftover :
    ∃ error packaged, H264Packet.unmarshal { isAvc := true } [0x78, 0, 1, 0x65, 0xAA] [] =
        .ok (error, { isAvc := true }, packaged) ∧
      (error = .ok ↔ ∃ units, IsAggregation units [0, 1, 0x65, 0xAA]) ∧
      ∀ units, IsAggregation units [0, 1, 0x65, 0xAA] →
        packaged = H264Packet.packagings { isAvc := true } units ∧
        (true = true → Framing.drain (codec 4 (by decide)).toDecoder packaged =
          (units.map (Record.widen (by decide)), [])) :=
  stapa_grammar { isAvc := true } 0x78 (by decide) [0, 1, 0x65, 0xAA] []

/-- A rejected payload leaves no trace unless it is an aggregation packet that breaks off
behind a whole unit: the units in front of the bad length stay in the output. -/
theorem rejects_cleanly_iff (p : H264Packet) (payload : List UInt8) : p.RejectsCleanly payload ↔ ¬ BreaksOff payload := by
  constructor
  · rintro clean ⟨header, first, others, rest, rfl, stapa, field, short⟩
    have run := p.unmarshal_units stapa (first :: others) (next_none_iff.mpr short) []
    rw [if_neg (by omega)] at run
    have some : p.packagings (first :: others) ≠ [] := by simp [p.doPackaging_ne_nil]
    rcases (clean [] _ _ _ run (by decide)).2 with none | none
    · exact some none
    · exact some none
  · intro whole output error q packaged run rejected
    by_cases stapa : ∃ header body, payload = header :: body ∧ header &&& naluTypeBitmask = stapaNaluType
    · obtain ⟨header, body, rfl, stapa⟩ := stapa
      obtain ⟨units, rest, rfl, stuck⟩ := exists_join (by decide : 0 < 2) body
      rw [p.unmarshal_units stapa units stuck output] at run
      obtain ⟨rfl, rest'⟩ := Prod.mk.inj (Except.ok.inj run)
      obtain ⟨rfl, rfl⟩ := Prod.mk.inj rest'
      have long : ¬ rest.length ≤ 1 := fun short => rejected (if_pos short)
      cases units with
      | nil => exact ⟨rfl, .inl rfl⟩
      | cons first others =>
        rw [next_none_iff] at stuck
        exact absurd ⟨header, first, others, rest, rfl, stapa, by omega, stuck⟩ whole
    · have other (header : UInt8) (body : List UInt8) (same : payload = header :: body) :
          header &&& naluTypeBitmask ≠ stapaNaluType := fun kind => stapa ⟨header, body, same, kind⟩
      obtain ⟨rfl, output⟩ := H264Packet.unmarshal_rejects p payload output other run rejected
      exact ⟨rfl, output⟩

/-- A unit of one byte, then a length of five with one byte behind it. -/
theorem rejected_unit_kept : H264Packet.unmarshal {} [0x78, 0, 1, 0x65, 0, 5, 0xAA] [] =
      .ok (.shortPacket, {}, [0, 0, 0, 1, 0x65]) ∧
    ¬ H264Packet.RejectsCleanly {} [0x78, 0, 1, 0x65, 0, 5, 0xAA] := by
  have run : H264Packet.unmarshal {} [0x78, 0, 1, 0x65, 0, 5, 0xAA] [] =
      .ok (.shortPacket, {}, [0, 0, 0, 1, 0x65]) := by decide +kernel
  refine ⟨run, fun clean => ?_⟩
  have trace := (clean [] _ _ _ run (by decide)).2
  simp at trace

end WebTransport.H264

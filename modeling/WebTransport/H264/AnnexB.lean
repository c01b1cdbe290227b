import WebTransport.H264.Cuts

/-! Annex B streams: NAL units behind start codes of three or four bytes, and the
ranges that the scan makes of such a stream. A long start code is found one byte
late, so its first zero ends the range before it. -/
namespace WebTransport.H264

section Inside

variable {unit : List UInt8} {i : Nat}

theorem startsAt_drop (payload : List UInt8) (start i : Nat) :
    startsAt payload (start + i) = startsAt (payload.drop start) i := by
  simp [startsAt]

/-- A start code that fits into a unit would be one of its own. -/
theorem startsAt_within (noCode : ¬ naluStartCode <:+: unit) (more : List UInt8)
    (within : i + 3 ≤ unit.length) : startsAt (unit ++ more) i = false := by
  rw [Bool.eq_false_iff]
  intro found
  have code : naluStartCode <+: unit.drop i := by
    have whole := List.isPrefixOf_iff_prefix.mp found
    rw [List.drop_append_of_le_length (by omega)] at whole
    refine List.prefix_of_prefix_length_le whole (List.prefix_append _ _) ?_
    simp only [naluStartCode, List.length_cons, List.length_nil, List.length_drop]
    omega
  exact noCode (code.isInfix.trans (List.drop_suffix i unit).isInfix)

/-- The unit's last byte would be the first or the second zero of a later one. -/
theorem startsAt_across (ending : unit.getLast? ≠ some 0) (more : List UInt8) (before : i < unit.length)
    (across : unit.length < i + 3) : startsAt (unit ++ more) i = false := by
  rw [Bool.eq_false_iff]
  intro found
  obtain ⟨zero, zero', _⟩ := startsAt_iff.mp found
  have last : (unit ++ more)[unit.length - 1]? ≠ some 0 := by
    rw [List.getElem?_append_left (by omega), ← List.getLast?_eq_getElem?]
    exact ending
  have position : i = unit.length - 1 ∨ i + 1 = unit.length - 1 := by omega
  rcases position with same | same
  · exact last (same ▸ zero)
  · exact last (same ▸ zero')

end Inside

/-- A NAL unit as a stream may carry it: an emulation-free body that does not end in
a zero, of a type that is sent by itself. -/
structure NalUnit where
  header : UInt8
  body : List UInt8
  top : header &&& 0x80 = 0
  kind : header &&& naluTypeBitmask ∈ ([1, 2, 3, 4, 5, 6, 7, 8, 10, 11, 19, 20, 21, 22, 23] : List UInt8)
  noZeros : ¬ [0, 0, 0] <:+: header :: body
  noCode : ¬ naluStartCode <:+: header :: body
  ending : (header :: body).getLast? ≠ some 0

def NalUnit.bytes (u : NalUnit) : List UInt8 := u.header :: u.body

/-- A unit together with the length of the start code in front of it. -/
structure CodedUnit where
  long : Bool
  unit : NalUnit

namespace CodedUnit

def startCode (u : CodedUnit) : List UInt8 :=
  if u.long then annexbNaluStartCode else naluStartCode

def stream (units : List CodedUnit) : List UInt8 :=
  units.flatMap fun u => u.startCode ++ u.unit.bytes

def annexB (units : List CodedUnit) : List UInt8 :=
  units.flatMap fun u => annexbNaluStartCode ++ u.unit.bytes

/-- The byte that the scan leaves in front of the following unit's start code. -/
def stray (rest : List CodedUnit) : List UInt8 :=
  match rest with
  | ⟨true, _⟩ :: _ => [0]
  | _ => []

def scanned : List CodedUnit → List (List UInt8)
  | [] => []
  | u :: rest => (u.unit.bytes ++ stray rest) :: scanned rest

/-- The stream as it goes on after the stray byte of its first start code. -/
def streamTail : List CodedUnit → List UInt8
  | [] => []
  | u :: rest => naluStartCode ++ u.unit.bytes ++ stream rest

theorem stream_cons (u : CodedUnit) (rest : List CodedUnit) :
    stream (u :: rest) = u.startCode ++ u.unit.bytes ++ stream rest := by
  simp [stream]

theorem stream_eq (units : List CodedUnit) : stream units = stray units ++ streamTail units := by
  match units with
  | [] => rfl
  | ⟨true, u⟩ :: rest => simp [stream_cons, stray, streamTail, startCode, annexbNaluStartCode, naluStartCode]
  | ⟨false, u⟩ :: rest => simp [stream_cons, stray, streamTail, startCode]

/-- From the first byte of a unit to the byte before the next start code the scan
finds nothing. -/
theorem startsAt_unit (u : NalUnit) (rest : List CodedUnit) (i : Nat)
    (inside : i < (u.bytes ++ stray rest).length) :
    startsAt (u.bytes ++ stray rest ++ streamTail rest) i = false := by
  rw [List.append_assoc]
  by_cases within : i + 3 ≤ u.bytes.length
  · exact startsAt_within u.noCode _ within
  by_cases before : i < u.bytes.length
  · have ending : u.bytes.getLast? ≠ some 0 := u.ending
    exact startsAt_across ending _ before (by omega)
  -- only a stray zero is left, and three more bytes of its code follow
  rcases rest with _ | ⟨⟨long, next⟩, rest⟩
  · simp [stray] at inside
    omega
  cases long with
  | false =>
    simp [stray] at inside
    omega
  | true =>
    have at_end : i = u.bytes.length := by
      simp [stray] at inside
      omega
    subst at_end
    rw [Bool.eq_false_iff]
    intro found
    obtain ⟨_, _, one⟩ := startsAt_iff.mp found
    simp [stray, streamTail, naluStartCode] at one

variable {payload : List UInt8} {start : Nat} {u : CodedUnit} {rest : List CodedUnit}

theorem codeLength_unit (here : payload.drop start = u.startCode ++ more) :
    codeLength payload start = u.startCode.length := by
  unfold codeLength
  rw [here]
  cases long : u.long
  · simp [startCode, long, annexbNaluStartCode, naluStartCode]
  · simp [startCode, long]
    rfl

theorem startCode_length (u : CodedUnit) : 3 ≤ u.startCode.length ∧ u.startCode.length ≤ 4 := by
  cases long : u.long <;> simp [startCode, long, annexbNaluStartCode, naluStartCode]

theorem nextStart_unit (here : payload.drop start =
      u.startCode ++ (u.unit.bytes ++ stray rest ++ streamTail rest)) :
    NextStart payload start (start + u.startCode.length + (u.unit.bytes ++ stray rest).length) := by
  have code := startCode_length u
  have skip : payload.drop (start + u.startCode.length) =
      u.unit.bytes ++ stray rest ++ streamTail rest := by
    rw [← List.drop_drop, here, List.drop_left]
  constructor
  · match rest with
    | [] =>
      left
      have total := congrArg List.length here
      simp only [List.length_drop, List.length_append, streamTail, List.length_nil] at total ⊢
      omega
    | next :: rest =>
      right
      refine ⟨by omega, ?_⟩
      rw [startsAt, ← List.drop_drop, skip, List.drop_left]
      simp [streamTail, naluStartCode]
  · intro i low high
    obtain ⟨j, rfl⟩ : ∃ j, i = start + j := ⟨i - start, by omega⟩
    by_cases past : u.startCode.length ≤ j
    · obtain ⟨k, rfl⟩ : ∃ k, j = u.startCode.length + k := ⟨j - u.startCode.length, by omega⟩
      rw [← Nat.add_assoc, startsAt_drop, skip]
      exact startsAt_unit u.unit rest k (by omega)
    · -- the final byte of a long code is not a zero
      have long : u.long = true := by
        by_contra short
        simp [startCode, short, naluStartCode] at past
        omega
      obtain rfl : j = 3 := by omega
      rw [startsAt_drop, here, startCode, long]
      simp [startsAt, annexbNaluStartCode, naluStartCode, List.isPrefixOf]

theorem cuts_unit (here : payload.drop start =
      u.startCode ++ (u.unit.bytes ++ stray rest ++ streamTail rest))
    (later : ∀ next, payload.drop next = streamTail rest →
      ∃ cs, Cuts payload next cs ∧ cs.map (Cut.unit payload) = scanned rest) :
    ∃ cs, Cuts payload start cs ∧ cs.map (Cut.unit payload) = scanned (u :: rest) := by
  have more : start < payload.length := by
    have total := congrArg List.length here
    have code := startCode_length u
    simp only [List.length_drop, List.length_append] at total
    omega
  have skip : payload.drop (start + u.startCode.length) =
      u.unit.bytes ++ stray rest ++ streamTail rest := by
    rw [← List.drop_drop, here, List.drop_left]
  obtain ⟨cs, cuts, units⟩ := later
    (start + u.startCode.length + (u.unit.bytes ++ stray rest).length) (by
      rw [← List.drop_drop, skip, List.drop_left])
  refine ⟨_, .cut more (nextStart_unit here) cuts, ?_⟩
  rw [List.map_cons, units, scanned, Cut.unit, codeLength_unit here, skip, Nat.add_sub_cancel_left,
    List.take_left]

theorem cuts_tail (units : List CodedUnit) (start : Nat)
    (here : payload.drop start = streamTail units) :
    ∃ cs, Cuts payload start cs ∧ cs.map (Cut.unit payload) = scanned units := by
  induction units generalizing start with
  | nil => exact ⟨[], .finish (by simpa [streamTail] using here), rfl⟩
  | cons u rest ih =>
    -- behind its stray byte a long code is a short one
    have short : payload.drop start = (CodedUnit.mk false u.unit).startCode ++
        (u.unit.bytes ++ stray rest ++ streamTail rest) := by
      rw [here, streamTail, stream_eq]
      simp [startCode]
    exact cuts_unit (u := ⟨false, u.unit⟩) short fun next there => ih next there

/-- The ranges of a whole stream are its units with the stray bytes. -/
theorem cuts_stream (units : List CodedUnit) :
    ∃ cs, Cuts (stream units) 0 cs ∧ cs.map (Cut.unit (stream units)) = scanned units := by
  cases units with
  | nil => exact ⟨[], .finish (by simp [stream]), rfl⟩
  | cons u rest =>
    refine cuts_unit ?_ fun next there => cuts_tail rest next there
    rw [List.drop_zero, stream_cons, stream_eq rest]
    simp

end CodedUnit

end WebTransport.H264

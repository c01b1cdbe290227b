import WebTransport.Theory.Fragment
import WebTransport.H264.Packet

/-! The H.264 packetizer `H264Payloader`: the start-code scan, the dispatch of one NAL
unit, and the loop that joins them. `size_t` arithmetic is on naturals, except that a
subtraction below zero wraps as it does at 64 bits. -/
namespace WebTransport.H264

open Loop

/-- `a - b` in `size_t`. -/
def sizeSub (a b : Nat) : Nat := if b ≤ a then a - b else a + 2 ^ 64 - b

theorem sizeSub_of_le (le : b ≤ a) : sizeSub a b = a - b := if_pos le

structure H264Payloader where
  isAvc : Bool := false
  disableStapa : Bool := false
  spsNalu : List UInt8 := []
  ppsNalu : List UInt8 := []
  deriving DecidableEq, Repr

namespace H264Payloader

def setAVC (p : H264Payloader) (isAvc : Bool) : H264Payloader := { p with isAvc }
def disableSTAPA (p : H264Payloader) (disable : Bool) : H264Payloader := { p with disableStapa := disable }

def setSPS (p : H264Payloader) (nalu : List UInt8) : H264Payloader :=
  { p with spsNalu := if 0 < nalu.length then nalu else [] }

def setPPS (p : H264Payloader) (nalu : List UInt8) : H264Payloader :=
  { p with ppsNalu := if 0 < nalu.length then nalu else [] }

def clearSPSPPS (p : H264Payloader) : H264Payloader := { p with spsNalu := [], ppsNalu := [] }

end H264Payloader

/-- Compares bytes in order and stops at the first difference, as `&&` does. -/
def matchesAt (payload : List UInt8) : Nat → List UInt8 → Except Fault Bool
  | _, [] => .ok true
  | i, b :: rest => do
    if (← readAt payload i) = b then matchesAt payload (i + 1) rest else .ok false

/-- One pass of the search for the next start code: the three-byte test, then the
four-byte test one byte earlier. -/
def scanPass (payload : List UInt8) (i : Nat) : Except Fault (Pass Nat Nat) :=
  if i < payload.length then do
    if ← (if i + 2 < payload.length then matchesAt payload i naluStartCode else .ok false) then
      .ok (.leave i)
    else if ← (if i + 3 < payload.length then matchesAt payload (i - 1) annexbNaluStartCode
        else .ok false) then
      .ok (.leave (i - 1))
    else .ok (.again (i + 1))
  else .ok (.leave payload.length)

def findNextStart (payload : List UInt8) (start : Nat) : Except Fault Nat :=
  loop (scanPass payload) (payload.length + 1) (start + 3)

def startCodeOffset (payload : List UInt8) (start : Nat) : Except Fault Nat := do
  if ← (if start + 3 < payload.length then matchesAt payload start annexbNaluStartCode
      else .ok false) then .ok 4
  else if ← (if start + 2 < payload.length then matchesAt payload start naluStartCode
      else .ok false) then .ok 3
  else if start = 0 then .ok 0
  else .ok 3

def fuHeader (naluHeader : UInt8) (first last : Bool) : UInt8 :=
  let naluType := naluHeader &&& naluTypeBitmask
  let header := if first then naluType ||| fuStartBitmask else naluType
  if last then header ||| fuEndBitmask else header

def fuaPacket (naluHeader : UInt8) (first last : Bool) (fragment : List UInt8) : List UInt8 :=
  let naluRefIdc := naluHeader &&& naluRefIdcBitmask
  (naluRefIdc ||| fuaNaluType) :: fuHeader naluHeader first last :: fragment

def createFUAPackets (mtu : UInt16) (nalu : List UInt8) : Except Fault (List (List UInt8)) :=
  if nalu.length ≤ 1 then .ok []
  else do
    let naluHeader ← readAt nalu 0
    let maxFragmentSize := sizeSub mtu.toNat fuaHeaderSize
    Fragment.cut maxFragmentSize (fuaPacket naluHeader) (nalu.drop 1)

def stapaUnit (nalu : List UInt8) : List UInt8 :=
  UInt8.ofNat ((nalu.length >>> 8) &&& 0xFF) :: UInt8.ofNat (nalu.length &&& 0xFF) :: nalu

def stapaPacket (sps pps nalu : List UInt8) : List UInt8 :=
  0x78 :: (stapaUnit sps ++ stapaUnit pps ++ stapaUnit nalu)

def stapaSize (sps pps nalu : List UInt8) : Nat :=
  1 + (2 + sps.length) + (2 + pps.length) + (2 + nalu.length)

/-- One packet when the unit fits, FU-A fragments otherwise. -/
def sendNALU (mtu : UInt16) (nalu : List UInt8) : Except Fault (List (List UInt8)) :=
  if nalu.length ≤ mtu.toNat then .ok [nalu] else createFUAPackets mtu nalu

namespace H264Payloader

/-- The dispatch of one unit. The delimiter, filler, SPS and PPS branches do not leave
the loop body: the unit is then sent like any other. -/
def emitNALU (p : H264Payloader) (mtu : UInt16) (nalu : List UInt8) :
    Except Fault (H264Payloader × List (List UInt8)) :=
  if nalu.length = 0 then .ok (p, [])
  else do
    let naluType := (← readAt nalu 0) &&& naluTypeBitmask
    if naluType = audNaluType ∨ naluType = fillerNaluType then
      .ok (p, ← sendNALU mtu nalu)
    else if p.disableStapa = false ∧ naluType = spsNaluType then
      .ok (p.setSPS nalu, ← sendNALU mtu nalu)
    else if p.disableStapa = false ∧ naluType = ppsNaluType then
      .ok (p.setPPS nalu, ← sendNALU mtu nalu)
    else if p.disableStapa = false ∧ p.spsNalu ≠ [] ∧ p.ppsNalu ≠ [] ∧
        stapaSize p.spsNalu p.ppsNalu nalu ≤ mtu.toNat then
      .ok ({ p with spsNalu := [], ppsNalu := [] }, [stapaPacket p.spsNalu p.ppsNalu nalu])
    else .ok (p, ← sendNALU mtu nalu)

structure EmitState where
  start : Nat
  payloader : H264Payloader
  payloads : List (List UInt8)

def emitPass (mtu : UInt16) (payload : List UInt8) (s : EmitState) :
    Except Fault (Pass EmitState (H264Payloader × List (List UInt8))) :=
  if s.start < payload.length then do
    let nextStart ← findNextStart payload s.start
    let offset ← startCodeOffset payload s.start
    let naluSize := sizeSub nextStart (s.start + offset)
    let nalu ← slice payload (s.start + offset) naluSize
    let (payloader, packets) ← s.payloader.emitNALU mtu nalu
    .ok (.again ⟨nextStart, payloader, s.payloads ++ packets⟩)
  else .ok (.leave (s.payloader, s.payloads))

def emitNALUs (p : H264Payloader) (mtu : UInt16) (payload : List UInt8) :
    Except Fault (H264Payloader × List (List UInt8)) :=
  loop (emitPass mtu payload) (payload.length + 1) ⟨0, p, []⟩

def payload (p : H264Payloader) (mtu : UInt16) (payload : List UInt8) :
    Except Fault (H264Payloader × List (List UInt8)) :=
  if payload.length = 0 then .ok (p, []) else p.emitNALUs mtu payload

end H264Payloader

theorem matchesAt_eq (payload code : List UInt8) (i : Nat) (fits : i + code.length ≤ payload.length) :
    matchesAt payload i code = .ok (code.isPrefixOf (payload.drop i)) := by
  induction code generalizing i with
  | nil => rfl
  | cons b rest ih =>
    have inside : i < payload.length := by simp only [List.length_cons] at fits; omega
    rw [matchesAt, readAt_of_lt inside, ok_bind, List.drop_eq_getElem_cons inside]
    by_cases same : payload[i] = b
    · rw [if_pos same, ih (i + 1) (by simp only [List.length_cons] at fits; omega)]
      simp [List.isPrefixOf, same]
    · rw [if_neg same]
      simp [List.isPrefixOf, Ne.symm same]

/-- The bounds test in front of a comparison never changes its answer. -/
theorem matchesAt_guarded (payload code : List UInt8) (i n : Nat) (length : code.length = n + 1) :
    (if i + n < payload.length then matchesAt payload i code else .ok false) =
      .ok (code.isPrefixOf (payload.drop i)) := by
  split
  · rename_i inside
    exact matchesAt_eq payload code i (by omega)
  · rename_i outside
    congr 1
    rw [eq_comm, Bool.eq_false_iff, ne_eq, List.isPrefixOf_iff_prefix]
    intro found
    have := found.length_le
    simp only [List.length_drop] at this
    omega

/-- A start code, of three bytes or the last three of four, at this index. -/
def startsAt (payload : List UInt8) (i : Nat) : Bool := naluStartCode.isPrefixOf (payload.drop i)

theorem startsAt_iff : startsAt payload i = true ↔
    payload[i]? = some 0 ∧ payload[i + 1]? = some 0 ∧ payload[i + 2]? = some 1 := by
  rw [startsAt, List.isPrefixOf_iff_prefix, List.prefix_iff_getElem?]
  simp only [naluStartCode, List.length_cons, List.length_nil, List.getElem?_drop]
  constructor
  · intro h
    exact ⟨h 0 (by omega), h 1 (by omega), h 2 (by omega)⟩
  · rintro ⟨h0, h1, h2⟩ j bound
    rcases (show j = 0 ∨ j = 1 ∨ j = 2 by omega) with rfl | rfl | rfl
    · exact h0
    · exact h1
    · exact h2

theorem startsAt_of_annexb (payload : List UInt8) (i : Nat)
    (long : annexbNaluStartCode <+: payload.drop i) : startsAt payload (i + 1) = true := by
  obtain ⟨rest, same⟩ := long
  have tail : payload.drop (i + 1) = (payload.drop i).drop 1 := by rw [List.drop_drop]
  rw [startsAt, tail, ← same]
  simp [annexbNaluStartCode, naluStartCode]

/-- The four-byte test never decides: where it would succeed, the three-byte test one
byte later has already succeeded. -/
theorem scanPass_eq (payload : List UInt8) (i : Nat) (positive : 0 < i) :
    scanPass payload i = .ok (if i < payload.length then
      if startsAt payload i then .leave i else .again (i + 1) else .leave payload.length) := by
  unfold scanPass
  split
  · rw [matchesAt_guarded payload naluStartCode i 2 rfl, ok_bind]
    change (if startsAt payload i = true then _ else _) = _
    split
    · rfl
    · rename_i none
      have never : (if i + 3 < payload.length then matchesAt payload (i - 1) annexbNaluStartCode
          else .ok false) = .ok false := by
        split
        · rename_i inside
          rw [matchesAt_eq payload _ (i - 1) (by simp [annexbNaluStartCode]; omega)]
          congr 1
          rw [Bool.eq_false_iff, ne_eq, List.isPrefixOf_iff_prefix]
          intro long
          have found := startsAt_of_annexb payload (i - 1) long
          rw [Nat.sub_add_cancel positive] at found
          exact none found
        · rfl
      rw [never]
      rfl
  · rfl

/-- The first start code at least three bytes on, or the end of the payload. -/
structure NextStart (payload : List UInt8) (start next : Nat) : Prop where
  reached : next = payload.length ∨ (start + 3 ≤ next ∧ startsAt payload next = true)
  first : ∀ i, start + 3 ≤ i → i < next → startsAt payload i = false

theorem findNextStart_ok (payload : List UInt8) (start : Nat) :
    ∃ next, findNextStart payload start = .ok next ∧ NextStart payload start next := by
  refine loop_total
    (fun i => start + 3 ≤ i ∧ ∀ j, start + 3 ≤ j → j < i → startsAt payload j = false)
    (NextStart payload start) (fun i => payload.length - i) ?_
    ⟨Nat.le_refl _, fun j low high => by omega⟩ (by omega)
  rintro i ⟨low, before⟩
  rw [scanPass_eq payload i (by omega)]
  by_cases inside : i < payload.length
  · cases found : startsAt payload i with
    | true => exact .inr ⟨i, by simp [inside], .inr ⟨low, found⟩, before⟩
    | false =>
      refine .inl ⟨i + 1, by simp [inside], ⟨by omega, fun j lower upper => ?_⟩, by omega⟩
      rcases Nat.lt_succ_iff_lt_or_eq.mp upper with earlier | rfl
      · exact before j lower earlier
      · exact found
  · refine .inr ⟨payload.length, by simp [inside], .inl rfl, fun j lower upper => ?_⟩
    exact before j lower (by omega)

/-- The scan's answer is determined by the payload. -/
theorem NextStart.unique (one : NextStart payload start a) (other : NextStart payload start b)
    (insideA : a ≤ payload.length) (insideB : b ≤ payload.length) : a = b := by
  rcases Nat.lt_trichotomy a b with lt | eq | gt
  · rcases one.reached with rfl | ⟨low, found⟩
    · omega
    · simp [other.first a low lt] at found
  · exact eq
  · rcases other.reached with rfl | ⟨low, found⟩
    · omega
    · simp [one.first b low gt] at found

theorem NextStart.le_length (h : NextStart payload start next) : next ≤ payload.length := by
  rcases h.reached with rfl | ⟨_, found⟩
  · exact Nat.le_refl _
  · have := (startsAt_iff.mp found).1
    obtain ⟨bound, _⟩ := List.getElem?_eq_some_iff.mp this
    omega

theorem NextStart.lt (h : NextStart payload start next) (more : start < payload.length) :
    start < next := by
  rcases h.reached with rfl | ⟨low, _⟩ <;> omega

/-- With room for data a unit that does not fit is cut behind its header. -/
theorem sendNALU_cut (room : 3 ≤ mtu.toNat) (long : mtu.toNat < (header :: rest).length) :
    sendNALU mtu (header :: rest) = Fragment.cut (mtu.toNat - 2) (fuaPacket header) rest := by
  have size : sizeSub mtu.toNat fuaHeaderSize = mtu.toNat - 2 :=
    sizeSub_of_le (by simp only [fuaHeaderSize]; omega)
  rw [sendNALU, if_neg (by omega), createFUAPackets, if_neg (by omega), readAt_zero, ok_bind, size]
  rfl

/-- The FU header alone fills an mtu of two: the fragmentation never ends. -/
theorem createFUAPackets_full (nalu : List UInt8) (long : 1 < nalu.length) :
    createFUAPackets 2 nalu = .error .diverges := by
  rcases nalu with _ | ⟨header, _ | ⟨next, rest⟩⟩
  · simp at long
  · simp at long
  · have noRoom : sizeSub (UInt16.toNat 2) fuaHeaderSize = 0 := by decide
    rw [createFUAPackets, if_neg (by simp), readAt_zero, ok_bind, noRoom]
    exact Fragment.cut_diverges (List.cons_ne_nil next rest) _

end WebTransport.H264

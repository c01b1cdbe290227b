import WebTransport.H264.Cuts

/-! What the packetizer sends, unit by unit. `slices` are the units that the scan cuts out
of a stream; `emitNALU_eq` says of one unit whether it goes out in an aggregate, and what
the packetizer then keeps. The mode flag `is_avc_` plays no part. -/
namespace WebTransport.H264

open Loop

def cutsFrom (payload : List UInt8) : Nat → Nat → List Cut
  | 0, _ => []
  | fuel + 1, start =>
    if start < payload.length then
      match findNextStart payload start with
      | .ok next => ⟨start, codeLength payload start, next⟩ :: cutsFrom payload fuel next
      | .error _ => []
    else []

def slices (payload : List UInt8) : List (List UInt8) :=
  (cutsFrom payload payload.length 0).map (Cut.unit payload)

theorem cuts_cutsFrom (payload : List UInt8) (start : Nat) (enough : payload.length - start ≤ fuel) :
    Cuts payload start (cutsFrom payload fuel start) := by
  induction fuel generalizing start with
  | zero => exact .finish (by omega)
  | succ fuel ih =>
    unfold cutsFrom
    split
    next more =>
      obtain ⟨next, run, found⟩ := findNextStart_ok payload start
      have forward := found.lt more
      rw [run]
      exact .cut more found (ih next (by omega))
    next past => exact .finish (Nat.le_of_not_lt past)

theorem Cuts.unique (one : Cuts payload start cs) (other : Cuts payload start cs') : cs = cs' := by
  induction one generalizing cs' with
  | finish past =>
    cases other with
    | finish => rfl
    | cut more => omega
  | cut more found _ ih =>
    cases other with
    | finish past => omega
    | cut _ found' rest' =>
      obtain rfl := found.unique found' found.le_length found'.le_length
      rw [ih rest']

theorem cuts_slices (payload : List UInt8) : Cuts payload 0 (cutsFrom payload payload.length 0) :=
  cuts_cutsFrom payload 0 (by omega)

theorem slices_eq (cuts : Cuts payload 0 cs) : slices payload = cs.map (Cut.unit payload) :=
  congrArg (List.map (Cut.unit payload)) ((cuts_slices payload).unique cuts)

def naluType (nalu : List UInt8) : UInt8 := nalu.headD 0 &&& naluTypeBitmask

/-- A unit that the dispatch has no branch for. -/
def Ordinary (nalu : List UInt8) : Prop :=
  naluType nalu ∉ [audNaluType, fillerNaluType, spsNaluType, ppsNaluType]

instance (nalu : List UInt8) : Decidable (Ordinary nalu) := inferInstanceAs (Decidable (_ ∉ _))

namespace H264Payloader

/-- The unit goes out in one STAP-A packet with the stored SPS and PPS. -/
def Aggregates (p : H264Payloader) (mtu : UInt16) (nalu : List UInt8) : Prop :=
  Ordinary nalu ∧ p.disableStapa = false ∧ p.spsNalu ≠ [] ∧ p.ppsNalu ≠ [] ∧
    stapaSize p.spsNalu p.ppsNalu nalu ≤ mtu.toNat

instance (p : H264Payloader) (mtu : UInt16) (nalu : List UInt8) : Decidable (p.Aggregates mtu nalu) :=
  inferInstanceAs (Decidable (_ ∧ _))

def learn (p : H264Payloader) (nalu : List UInt8) : H264Payloader :=
  if p.disableStapa then p
  else if naluType nalu = spsNaluType then { p with spsNalu := nalu }
  else if naluType nalu = ppsNaluType then { p with ppsNalu := nalu }
  else p

theorem emitNALU_nil (p : H264Payloader) (mtu : UInt16) : p.emitNALU mtu [] = .ok (p, []) := rfl

/-- The whole dispatch: an aggregate, or the unit by itself and perhaps kept. -/
theorem emitNALU_eq (p : H264Payloader) (mtu : UInt16) {nalu : List UInt8} (nonempty : nalu ≠ []) :
    p.emitNALU mtu nalu =
      if p.Aggregates mtu nalu then .ok (p.clearSPSPPS, [stapaPacket p.spsNalu p.ppsNalu nalu])
      else (do .ok (p.learn nalu, ← sendNALU mtu nalu)) := by
  obtain ⟨header, rest, rfl⟩ := List.exists_cons_of_ne_nil nonempty
  have nalType : header &&& naluTypeBitmask = naluType (header :: rest) := rfl
  have sps : p.setSPS (header :: rest) = { p with spsNalu := header :: rest } := rfl
  have pps : p.setPPS (header :: rest) = { p with ppsNalu := header :: rest } := rfl
  unfold emitNALU
  rw [if_neg (by simp), readAt_zero, ok_bind, nalType, sps, pps]
  generalize header :: rest = nalu
  by_cases aud : naluType nalu = audNaluType ∨ naluType nalu = fillerNaluType
  · have plain : ¬ p.Aggregates mtu nalu := fun h => h.1 (by simp only [List.mem_cons]; tauto)
    have kept : p.learn nalu = p := by
      rcases aud with aud | filler
      · simp [learn, aud, audNaluType, spsNaluType, ppsNaluType]
      · simp [learn, filler, fillerNaluType, spsNaluType, ppsNaluType]
    rw [if_pos aud, if_neg plain, kept]
  by_cases isSps : naluType nalu = spsNaluType
  · have plain : ¬ p.Aggregates mtu nalu := fun h => h.1 (by simp [isSps])
    rw [if_neg aud, if_neg plain]
    cases disabled : p.disableStapa <;> simp [isSps, learn, disabled, spsNaluType, ppsNaluType]
  by_cases isPps : naluType nalu = ppsNaluType
  · have plain : ¬ p.Aggregates mtu nalu := fun h => h.1 (by simp [isPps])
    rw [if_neg aud, if_neg plain]
    cases disabled : p.disableStapa <;> simp [isPps, learn, disabled, spsNaluType, ppsNaluType]
  have ordinary : Ordinary nalu := by
    simp only [Ordinary, List.mem_cons, List.not_mem_nil]
    tauto
  have kept : p.learn nalu = p := by simp [learn, isSps, isPps]
  rw [if_neg aud, if_neg (by tauto), if_neg (by tauto), kept]
  have same : p.Aggregates mtu nalu ↔ p.disableStapa = false ∧ p.spsNalu ≠ [] ∧ p.ppsNalu ≠ [] ∧
      stapaSize p.spsNalu p.ppsNalu nalu ≤ mtu.toNat := and_iff_right ordinary
  by_cases aggregated : p.Aggregates mtu nalu
  · rw [if_pos aggregated, if_pos (same.mp aggregated)]
    rfl
  · rw [if_neg aggregated, if_neg (aggregated ∘ same.mpr)]

theorem payload_eq (p : H264Payloader) (mtu : UInt16) (stream : List UInt8) :
    p.payload mtu stream = p.emitUnits mtu (slices stream) := by
  unfold payload
  by_cases empty : stream.length = 0
  · obtain rfl := List.length_eq_zero_iff.mp empty
    rfl
  · rw [if_neg empty]
    exact emitNALUs_eq p mtu (cuts_slices stream)

end H264Payloader

end WebTransport.H264

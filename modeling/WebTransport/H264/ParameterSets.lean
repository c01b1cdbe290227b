import WebTransport.H264.Aggregation
import WebTransport.H264.Bounded

/-! The aggregate that carries the parameter sets. It is made exactly when it fits into the
mtu, so each of its three lengths fits into 16 bits; the depacketizer takes it apart at the
same places. -/
namespace WebTransport.H264

open Loop BigEndian Records

/-- An aggregate of three units: short enough, every length field true, and read by every
depacketizer as the three packagings. -/
structure AggregateOf (mtu : UInt16) (sps pps nalu packet : List UInt8) : Prop where
  bounded : packet.length ≤ mtu.toNat
  fields : ∃ first second third : AggregationUnit, first.bytes = sps ∧ second.bytes = pps ∧ third.bytes = nalu ∧
    packet = 0x78 :: join [first, second, third]
  decodes : ∀ (q : H264Packet) (output : List UInt8), q.unmarshal packet output =
    .ok (.ok, q, q.doPackaging [] sps ++ q.doPackaging [] pps ++ q.doPackaging [] nalu)

theorem stapaUnit_eq (u : AggregationUnit) : stapaUnit u.bytes = u.encode := by
  have high := shifted_byte u.bytes.length 1
  have low := shifted_byte u.bytes.length 0
  simp only [Nat.mul_one, Nat.mul_zero, Nat.shiftRight_zero] at high low
  rw [stapaUnit, high, low]
  rfl

theorem stapaPacket_aggregate (mtu : UInt16) (fits : stapaSize sps pps nalu ≤ mtu.toNat) :
    AggregateOf mtu sps pps nalu (stapaPacket sps pps nalu) := by
  have length := length_stapaPacket sps pps nalu
  have wide := mtu.toNat_lt
  have small : stapaSize sps pps nalu = 7 + sps.length + pps.length + nalu.length := by
    unfold stapaSize
    omega
  have first : sps.length < 256 ^ 2 := by omega
  have second : pps.length < 256 ^ 2 := by omega
  have third : nalu.length < 256 ^ 2 := by omega
  have units : stapaPacket sps pps nalu =
      0x78 :: (join ([⟨sps, first⟩, ⟨pps, second⟩, ⟨nalu, third⟩] : List AggregationUnit) ++ []) := by
    simp only [join_cons, join_nil, ← stapaUnit_eq, List.append_nil, stapaPacket, List.append_assoc]
  refine ⟨by omega, ⟨⟨sps, first⟩, ⟨pps, second⟩, ⟨nalu, third⟩, rfl, rfl, rfl, ?_⟩, ?_⟩
  · rw [units, List.append_nil]
  · intro q output
    rw [units, q.unmarshal_units (by decide) _ (next_nil (by decide)) output]
    simp

namespace H264Payloader

theorem learn_ordinary (p : H264Payloader) (ordinary : Ordinary nalu) : p.learn nalu = p := by
  simp only [Ordinary, List.mem_cons, List.not_mem_nil, or_false, not_or] at ordinary
  simp [learn, ordinary]

end H264Payloader

/-- A slice that follows an SPS and a PPS goes out with them exactly when the aggregate fits;
otherwise it goes out by itself, and the two stay stored. -/
theorem aggregate_emission (p : H264Payloader) (enabled : p.disableStapa = false) (sps : p.spsNalu ≠ [])
    (pps : p.ppsNalu ≠ []) (mtu : UInt16) (room : 3 ≤ mtu.toNat) (nalu : List UInt8) (some : nalu ≠ [])
    (ordinary : Ordinary nalu) :
    ((∃ packet, p.emitNALU mtu nalu = .ok ({ p with spsNalu := [], ppsNalu := [] }, [packet]) ∧
        AggregateOf mtu p.spsNalu p.ppsNalu nalu packet) ↔
      7 + p.spsNalu.length + p.ppsNalu.length + nalu.length ≤ mtu.toNat) ∧
    (mtu.toNat < 7 + p.spsNalu.length + p.ppsNalu.length + nalu.length →
      ∃ packets, p.emitNALU mtu nalu = .ok (p, packets) ∧
        if nalu.length ≤ mtu.toNat then packets = [nalu] else createFUAPackets mtu nalu = .ok packets) := by
  have size : stapaSize p.spsNalu p.ppsNalu nalu = 7 + p.spsNalu.length + p.ppsNalu.length + nalu.length := by
    unfold stapaSize
    omega
  have apart (long : mtu.toNat < 7 + p.spsNalu.length + p.ppsNalu.length + nalu.length) :
      ∃ packets, sendNALU mtu nalu = .ok packets ∧ p.emitNALU mtu nalu = .ok (p, packets) := by
    obtain ⟨packets, sent, -⟩ := (sendNALU_respects_iff mtu nalu).mpr (.inl room)
    have alone : ¬ p.Aggregates mtu nalu := by
      rintro ⟨-, -, -, -, fits⟩
      omega
    rw [p.emitNALU_eq mtu some, if_neg alone, sent, p.learn_ordinary ordinary]
    exact ⟨packets, rfl, rfl⟩
  constructor
  · constructor
    · rintro ⟨packet, emitted, -⟩
      by_contra long
      obtain ⟨packets, -, emitted'⟩ := apart (Nat.lt_of_not_le long)
      have kept := congrArg H264Payloader.spsNalu (Prod.mk.inj (Except.ok.inj (emitted'.symm.trans emitted))).1
      exact sps kept
    · intro fits
      rw [← size] at fits
      have joined : p.Aggregates mtu nalu := ⟨ordinary, enabled, sps, pps, fits⟩
      refine ⟨_, ?_, stapaPacket_aggregate mtu fits⟩
      rw [p.emitNALU_eq mtu some, if_pos joined]
      rfl
  · intro long
    obtain ⟨packets, sent, emitted⟩ := apart long
    refine ⟨packets, emitted, ?_⟩
    unfold sendNALU at sent
    by_cases whole : nalu.length ≤ mtu.toNat
    · rw [if_pos whole] at sent ⊢
      exact (Except.ok.inj sent).symm
    · rw [if_neg whole] at sent ⊢
      exact sent

/-- One-byte parameter sets and an IDR unit of two bytes, at the least mtu that takes them. -/
theorem aggregate_emission_eleven :
    ((∃ packet, ({ spsNalu := [0x67], ppsNalu := [0x68] } : H264Payloader).emitNALU 11 [0x65, 1] =
          .ok ({ spsNalu := [], ppsNalu := [] }, [packet]) ∧
        AggregateOf 11 [0x67] [0x68] [0x65, 1] packet) ↔
      7 + [(0x67 : UInt8)].length + [(0x68 : UInt8)].length + [(0x65 : UInt8), 1].length ≤ UInt16.toNat 11) ∧
    (UInt16.toNat 11 < 7 + [(0x67 : UInt8)].length + [(0x68 : UInt8)].length + [(0x65 : UInt8), 1].length →
      ∃ packets, ({ spsNalu := [0x67], ppsNalu := [0x68] } : H264Payloader).emitNALU 11 [0x65, 1] =
          .ok ({ spsNalu := [0x67], ppsNalu := [0x68] }, packets) ∧
        if [(0x65 : UInt8), 1].length ≤ UInt16.toNat 11 then packets = [[0x65, 1]]
        else createFUAPackets 11 [0x65, 1] = .ok packets) :=
  aggregate_emission { spsNalu := [0x67], ppsNalu := [0x68] } rfl (by decide) (by decide) 11 (by decide) [0x65, 1]
    (by decide) (by decide)

end WebTransport.H264

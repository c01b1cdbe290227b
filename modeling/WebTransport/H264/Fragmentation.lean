import WebTransport.H264.RoundTrip
import WebTransport.H264.Bounded

/-! FU-A fragmentation of one unit. With three bytes of mtu or more a unit that does not fit
is cut into two packets at least; the first and the last are marked, and a depacketizer
puts the unit together again. -/
namespace WebTransport.H264

open Loop Fragment

structure FragmentOf (mtu : UInt16) (naluHeader : UInt8) (position count : Nat) (packet : List UInt8) : Prop where
  filled : 3 ≤ packet.length
  bounded : packet.length ≤ mtu.toNat
  headers : ∃ indicator header data, packet = indicator :: header :: data ∧
    indicator &&& naluRefIdcBitmask = naluHeader &&& naluRefIdcBitmask ∧ indicator &&& naluTypeBitmask = fuaNaluType ∧
    header &&& naluTypeBitmask = naluHeader &&& naluTypeBitmask ∧
    (header &&& fuStartBitmask ≠ 0 ↔ position = 0) ∧ (header &&& fuEndBitmask ≠ 0 ↔ position + 1 = count)
  head : H264Packet.isPartitionHead packet = .ok (position == 0)

theorem fuHeader_start (naluHeader : UInt8) (first last : Bool) :
    ((fuHeader naluHeader first last &&& fuStartBitmask) != 0) = first := by
  revert naluHeader first last; decide +kernel

theorem isPartitionHead_fuaPacket (naluHeader : UInt8) (first last : Bool) (fragment : List UInt8) :
    H264Packet.isPartitionHead (fuaPacket naluHeader first last fragment) = .ok first := by
  have type := fuaPacket_type naluHeader
  have start := fuHeader_start naluHeader first last
  have long : ¬ (fuaPacket naluHeader first last fragment).length < 2 := by simp [length_fuaPacket]
  unfold H264Packet.isPartitionHead
  rw [if_neg long]
  simp [fuaPacket, readAt, type, start]

theorem fragmentOf_fuaPacket (mtu : UInt16) (naluHeader : UInt8) (position count : Nat) (fragment : List UInt8)
    (some : fragment ≠ []) (room : fragment.length + 2 ≤ mtu.toNat) :
    FragmentOf mtu naluHeader position count (fuaPacket naluHeader (position == 0) (position + 1 == count) fragment) := by
  have filled := List.length_pos_iff.mpr some
  constructor
  · rw [length_fuaPacket]
    omega
  · rwa [length_fuaPacket]
  · refine ⟨_, _, fragment, rfl, fuIndicator_refIdc naluHeader, fuaPacket_type naluHeader, fuHeader_type _ _ _, ?_, ?_⟩
    · have start := fuHeader_start naluHeader (position == 0) (position + 1 == count)
      rw [← bne_iff_ne, start, beq_iff_eq]
    · rw [fuHeader_end, beq_iff_eq]
  · exact isPartitionHead_fuaPacket naluHeader _ _ fragment

/-- What is longer than one fragment takes two. -/
theorem two_fragments (splits : Splits room data fragments) (long : room < data.length) : 2 ≤ fragments.length := by
  rcases fragments with _ | ⟨fragment, _ | ⟨next, rest⟩⟩
  · rw [← splits.joined] at long
    simp at long
  · have whole := (splits.bounded fragment List.mem_cons_self).2
    rw [← splits.joined] at long
    simp only [List.flatten_cons, List.flatten_nil, List.append_nil] at long
    omega
  · simp

theorem flatMap_drop_decorate (naluHeader : UInt8) (first : Bool) (fragments : List (List UInt8)) :
    (decorate (fuaPacket naluHeader) first fragments).flatMap (List.drop 2) = fragments.flatten := by
  induction fragments generalizing first with
  | nil => rfl
  | cons fragment rest ih =>
    rw [decorate_cons, List.flatMap_cons, ih, List.flatten_cons]
    rfl

/-- A unit that does not fit goes out in well-formed fragments, and they give it back. -/
theorem fragmentation_reversible (mtu : UInt16) (room : 3 ≤ mtu.toNat) (naluHeader : UInt8) (rest : List UInt8)
    (long : mtu.toNat < (naluHeader :: rest).length) (top : naluHeader &&& 0x80 = 0) :
    ∃ packets, createFUAPackets mtu (naluHeader :: rest) = .ok packets ∧ 2 ≤ packets.length ∧
      (∀ position packet, packets[position]? = some packet →
        FragmentOf mtu naluHeader position packets.length packet) ∧
      packets.flatMap (List.drop 2) = rest ∧
      ∀ q : H264Packet, q.fuaBuffer = [] → Machine.runM H264Packet.receive q packets =
        .ok (q, List.replicate (packets.length - 1) (.ok, []) ++ [(.ok, q.doPackaging [] (naluHeader :: rest))]) := by
  have size : sizeSub mtu.toNat fuaHeaderSize = mtu.toNat - 2 :=
    sizeSub_of_le (by simp only [fuaHeaderSize]; omega)
  rw [List.length_cons] at long
  obtain ⟨next, rest, rfl⟩ := List.exists_cons_of_ne_nil (List.length_pos_iff.mp (by omega : 0 < rest.length))
  obtain ⟨fragments, run, splits⟩ := createFUAPackets_room mtu (by omega) naluHeader next rest
  rw [size] at splits
  have two := two_fragments splits (by omega)
  refine ⟨_, run, by rwa [length_decorate], ?_, ?_, ?_⟩
  · intro position packet found
    rw [getElem?_decorate, Option.map_eq_some_iff] at found
    obtain ⟨fragment, inside, rfl⟩ := found
    obtain ⟨some, short⟩ := splits.bounded fragment (List.mem_of_getElem? inside)
    rw [length_decorate, Bool.true_and]
    exact fragmentOf_fuaPacket mtu naluHeader position fragments.length fragment some (by omega)
  · rw [flatMap_drop_decorate, splits.joined]
  · intro q empty
    have some : fragments ≠ [] := splits.ne_nil (List.cons_ne_nil next rest)
    rw [run_fragments naluHeader top fragments some q true, splits.joined, length_decorate, empty, List.nil_append]
    have same : { q with fuaBuffer := [] } = q := by rw [← empty]
    rw [same]

/-- Three fragments of one, one and one byte. -/
theorem fragmentation_reversible_three :
    ∃ packets, createFUAPackets 3 [0x65, 1, 2, 3] = .ok packets ∧ 2 ≤ packets.length ∧
      (∀ position packet, packets[position]? = some packet → FragmentOf 3 0x65 position packets.length packet) ∧
      packets.flatMap (List.drop 2) = [1, 2, 3] ∧
      ∀ q : H264Packet, q.fuaBuffer = [] → Machine.runM H264Packet.receive q packets =
        .ok (q, List.replicate (packets.length - 1) (.ok, []) ++ [(.ok, q.doPackaging [] [0x65, 1, 2, 3])]) :=
  fragmentation_reversible 3 (by decide) 0x65 [1, 2, 3] (by decide) (by decide)

end WebTransport.H264

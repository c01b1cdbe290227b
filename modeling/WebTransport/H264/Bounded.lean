import WebTransport.H264.Emission

/-! The mtu bound. The FU-A loop subtracts the two header bytes from the mtu without a
guard: at an mtu of two no data fits and the loop never ends, and below two the
subtraction wraps and one fragment takes the whole unit. From three on every packet fits. -/
namespace WebTransport.H264

open Loop Fragment

def Respects (mtu : UInt16) (packets : Except Fault (List (List UInt8))) : Prop :=
  ∃ sent, packets = .ok sent ∧ ∀ packet ∈ sent, packet.length ≤ mtu.toNat

def Fits (mtu : UInt16) (nalu : List UInt8) : Prop := 3 ≤ mtu.toNat ∨ nalu.length ≤ max mtu.toNat 1

theorem length_fuaPacket (naluHeader : UInt8) (first last : Bool) (fragment : List UInt8) :
    (fuaPacket naluHeader first last fragment).length = fragment.length + 2 := rfl

theorem length_stapaPacket (sps pps nalu : List UInt8) :
    (stapaPacket sps pps nalu).length = stapaSize sps pps nalu := by
  simp only [stapaPacket, stapaUnit, stapaSize, List.length_cons, List.length_append]
  omega

/-- With room for a byte of data the fragments are the header bytes and at most that much. -/
theorem createFUAPackets_room (mtu : UInt16) (positive : 0 < sizeSub mtu.toNat fuaHeaderSize)
    (header next : UInt8) (rest : List UInt8) :
    ∃ fragments, createFUAPackets mtu (header :: next :: rest) =
        .ok (decorate (fuaPacket header) true fragments) ∧
      Splits (sizeSub mtu.toNat fuaHeaderSize) (next :: rest) fragments := by
  obtain ⟨fragments, run, splits⟩ := cut_ok positive (next :: rest)
  refine ⟨fragments, ?_, splits⟩
  unfold createFUAPackets
  rw [if_neg (by simp), readAt_zero, ok_bind]
  exact run

theorem createFUAPackets_short (mtu : UInt16) (short : nalu.length ≤ 1) :
    createFUAPackets mtu nalu = .ok [] := if_pos short

theorem createFUAPackets_respects (room : 3 ≤ mtu.toNat) (nalu : List UInt8) :
    Respects mtu (createFUAPackets mtu nalu) := by
  rcases nalu with _ | ⟨header, _ | ⟨next, rest⟩⟩
  · exact ⟨[], rfl, by simp⟩
  · exact ⟨[], rfl, by simp⟩
  · have size : sizeSub mtu.toNat fuaHeaderSize = mtu.toNat - 2 :=
      sizeSub_of_le (by simp only [fuaHeaderSize]; omega)
    obtain ⟨fragments, run, splits⟩ := createFUAPackets_room mtu (by omega) header next rest
    refine ⟨_, run, ?_⟩
    intro packet member
    obtain ⟨fragment, inside, first, last, rfl⟩ := mem_decorate member
    have bounded := (splits.bounded fragment inside).2
    rw [length_fuaPacket]
    omega

theorem createFUAPackets_narrow (narrow : mtu.toNat < 3) (long : 1 < nalu.length) :
    ¬ Respects mtu (createFUAPackets mtu nalu) := by
  rintro ⟨sent, run, bounded⟩
  by_cases full : mtu = 2
  · subst full
    rw [createFUAPackets_full nalu long] at run
    cases run
  · have apart : mtu.toNat ≠ 2 := fun same => full (UInt16.toNat_inj.mp same)
    have wraps : sizeSub mtu.toNat fuaHeaderSize = mtu.toNat + 2 ^ 64 - 2 :=
      if_neg (by simp only [fuaHeaderSize]; omega)
    rcases nalu with _ | ⟨header, _ | ⟨next, rest⟩⟩
    · simp at long
    · simp at long
    · obtain ⟨fragments, run', splits⟩ := createFUAPackets_room mtu (by omega) header next rest
      rw [run'] at run
      obtain rfl := Except.ok.inj run
      obtain ⟨fragment, others, rfl⟩ :=
        List.exists_cons_of_ne_nil (splits.ne_nil (List.cons_ne_nil next rest))
      have filled := List.length_pos_iff.mpr (splits.bounded fragment List.mem_cons_self).1
      have tooLong := bounded (fuaPacket header true others.isEmpty fragment) (by simp)
      rw [length_fuaPacket] at tooLong
      omega

/-- A unit that does not fit goes out in fragments that join to all of it but its header. -/
theorem sendNALU_fragments (room : 3 ≤ mtu.toNat) (long : mtu.toNat < (header :: rest).length) :
    ∃ fragments, sendNALU mtu (header :: rest) = .ok (decorate (fuaPacket header) true fragments) ∧
      fragments ≠ [] ∧ fragments.flatten = rest := by
  have some : rest ≠ [] := by
    rintro rfl
    simp only [List.length_cons, List.length_nil] at long
    omega
  have cutting : ∃ fragments, cut (mtu.toNat - 2) (fuaPacket header) rest =
      .ok (decorate (fuaPacket header) true fragments) ∧ Splits (mtu.toNat - 2) rest fragments :=
    cut_ok (by omega) rest
  obtain ⟨fragments, run, splits⟩ := cutting
  exact ⟨fragments, (sendNALU_cut room long).trans run, splits.ne_nil some, splits.joined⟩

theorem sendNALU_first (room : 3 ≤ mtu.toNat) (long : mtu.toNat < (header :: rest).length) :
    ∃ first more, sendNALU mtu (header :: rest) = .ok (first :: more) ∧ first.length = mtu.toNat := by
  have some : rest ≠ [] := by
    rintro rfl
    simp only [List.length_cons, List.length_nil] at long
    omega
  have cutting : ∃ more, cut (mtu.toNat - 2) (fuaPacket header) rest =
      .ok (fuaPacket header true (rest.length == min (mtu.toNat - 2) rest.length)
        (rest.take (min (mtu.toNat - 2) rest.length)) :: more) := cut_first (by omega) some
  obtain ⟨more, run⟩ := cutting
  refine ⟨_, more, (sendNALU_cut room long).trans run, ?_⟩
  rw [List.length_cons] at long
  rw [length_fuaPacket, List.length_take]
  omega

theorem sendNALU_ne_nil (room : 3 ≤ mtu.toNat) (some : nalu ≠ []) (sent : sendNALU mtu nalu = .ok group) :
    group ≠ [] := by
  by_cases whole : nalu.length ≤ mtu.toNat
  · obtain rfl := Except.ok.inj ((if_pos whole).symm.trans sent)
    exact List.cons_ne_nil _ _
  · obtain ⟨header, rest, rfl⟩ := List.exists_cons_of_ne_nil some
    obtain ⟨first, more, run, -⟩ := sendNALU_first room (Nat.lt_of_not_le whole)
    obtain rfl := Except.ok.inj (run.symm.trans sent)
    exact List.cons_ne_nil _ _

theorem sendNALU_respects_iff (mtu : UInt16) (nalu : List UInt8) :
    Respects mtu (sendNALU mtu nalu) ↔ Fits mtu nalu := by
  unfold sendNALU Fits
  by_cases whole : nalu.length ≤ mtu.toNat
  · rw [if_pos whole]
    exact iff_of_true ⟨_, rfl, by simpa using whole⟩ (.inr (by omega))
  · rw [if_neg whole]
    by_cases room : 3 ≤ mtu.toNat
    · exact iff_of_true (createFUAPackets_respects room nalu) (.inl room)
    by_cases short : nalu.length ≤ 1
    · rw [createFUAPackets_short mtu short]
      exact iff_of_true ⟨[], rfl, by simp⟩ (.inr (by omega))
    · exact iff_of_false (createFUAPackets_narrow (by omega) (by omega)) (by omega)

/-- An aggregate is only made where it fits, and it fits only in seven bytes or more. -/
theorem H264Payloader.emitNALU_respects_iff (p : H264Payloader) (mtu : UInt16) (nalu : List UInt8) :
    (∃ q packets, p.emitNALU mtu nalu = .ok (q, packets) ∧ ∀ packet ∈ packets, packet.length ≤ mtu.toNat) ↔
      Fits mtu nalu := by
  by_cases empty : nalu = []
  · subst empty
    exact iff_of_true ⟨p, [], p.emitNALU_nil mtu, by simp⟩ (.inr (by simp))
  rw [p.emitNALU_eq mtu empty]
  by_cases aggregated : p.Aggregates mtu nalu
  · rw [if_pos aggregated]
    obtain ⟨-, -, -, -, size⟩ := aggregated
    refine iff_of_true ⟨_, _, rfl, ?_⟩ (.inl ?_)
    · simpa only [List.forall_mem_singleton, length_stapaPacket] using size
    · unfold stapaSize at size
      omega
  · rw [if_neg aggregated, ← sendNALU_respects_iff]
    constructor
    · rintro ⟨q, packets, run, bounded⟩
      obtain ⟨sent, sending, same⟩ := ok_of_bind run
      obtain ⟨rfl, rfl⟩ := Prod.mk.inj (Except.ok.inj same)
      exact ⟨sent, sending, bounded⟩
    · rintro ⟨sent, sending, bounded⟩
      exact ⟨_, _, by rw [sending]; rfl, bounded⟩

theorem H264Payloader.emitUnits_respects_iff (p : H264Payloader) (mtu : UInt16) (units : List (List UInt8)) :
    (∃ q packets, p.emitUnits mtu units = .ok (q, packets) ∧ ∀ packet ∈ packets, packet.length ≤ mtu.toNat) ↔
      ∀ nalu ∈ units, Fits mtu nalu := by
  rw [← Machine.runM_forall_iff (fun p nalu => p.emitNALU_respects_iff mtu nalu) p units]
  unfold emitUnits
  constructor
  · rintro ⟨q, packets, run, bounded⟩
    obtain ⟨⟨final, outputs⟩, steps, same⟩ := ok_of_bind run
    obtain ⟨rfl, rfl⟩ := Prod.mk.inj (Except.ok.inj same)
    refine ⟨_, _, steps, ?_⟩
    intro output member packet inside
    exact bounded packet (List.mem_flatten.mpr ⟨output, member, inside⟩)
  · rintro ⟨final, outputs, steps, bounded⟩
    refine ⟨final, outputs.flatten, by rw [steps]; rfl, ?_⟩
    intro packet member
    obtain ⟨output, inside, found⟩ := List.mem_flatten.mp member
    exact bounded output inside packet found

/-- A call ends with packets of at most the mtu exactly when the mtu is at least three
bytes or no unit of the stream needs fragments. -/
theorem mtu_respected_iff (p : H264Payloader) (mtu : UInt16) (stream : List UInt8) :
    (∃ q packets, p.payload mtu stream = .ok (q, packets) ∧ ∀ packet ∈ packets, packet.length ≤ mtu.toNat) ↔
      3 ≤ mtu.toNat ∨ ∀ nalu ∈ slices stream, nalu.length ≤ max mtu.toNat 1 := by
  rw [p.payload_eq mtu stream, p.emitUnits_respects_iff mtu]
  unfold Fits
  by_cases room : 3 ≤ mtu.toNat
  · simp [room]
  · simp [room]

/-- A unit of three bytes at an mtu of two: the packetizer never returns. -/
theorem mtu_two_unserved : ({} : H264Payloader).payload 2 [0x65, 1, 2] = .error .diverges ∧
    ¬ ∃ q packets, ({} : H264Payloader).payload 2 [0x65, 1, 2] = .ok (q, packets) ∧
      ∀ packet ∈ packets, packet.length ≤ UInt16.toNat 2 := by
  have unending : ({} : H264Payloader).payload 2 [0x65, 1, 2] = .error .diverges := rfl
  refine ⟨unending, ?_⟩
  rintro ⟨q, packets, run, -⟩
  rw [unending] at run
  cases run

end WebTransport.H264

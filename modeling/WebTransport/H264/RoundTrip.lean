import WebTransport.H264.AnnexB

/-! Annex B through RTP and back. A unit sent alone or in FU-A fragments is
reassembled exactly; a stream comes back unit by unit as the scan cut it. The scan
leaves the first zero of a four-byte start code with the unit before it, so a stream
is reproduced exactly when only its first start code is long. -/
namespace WebTransport.H264

open Loop Fragment

theorem fuaPacket_type (naluHeader : UInt8) :
    (naluHeader &&& naluRefIdcBitmask ||| fuaNaluType) &&& naluTypeBitmask = fuaNaluType := by
  revert naluHeader; decide +kernel

theorem fuHeader_end (naluHeader : UInt8) (first last : Bool) :
    fuHeader naluHeader first last &&& fuEndBitmask ≠ 0 ↔ last = true := by
  revert naluHeader first last; decide +kernel

theorem fuIndicator_refIdc (naluHeader : UInt8) :
    (naluHeader &&& naluRefIdcBitmask ||| fuaNaluType) &&& naluRefIdcBitmask = naluHeader &&& naluRefIdcBitmask := by
  revert naluHeader; decide +kernel

theorem fuHeader_type (naluHeader : UInt8) (first last : Bool) :
    fuHeader naluHeader first last &&& naluTypeBitmask = naluHeader &&& naluTypeBitmask := by
  revert naluHeader first last; decide +kernel

/-- The two FU-A header bytes determine the original one but for its top bit. -/
theorem fuaPacket_header (naluHeader : UInt8) (first last : Bool) :
    (naluHeader &&& naluRefIdcBitmask ||| fuaNaluType) &&& naluRefIdcBitmask |||
      fuHeader naluHeader first last &&& naluTypeBitmask = naluHeader &&& 0x7F := by
  rw [fuIndicator_refIdc, fuHeader_type]
  clear first last
  revert naluHeader; decide +kernel

theorem fuaPacket_restores (naluHeader : UInt8) (first last : Bool) (top : naluHeader &&& 0x80 = 0) :
    (naluHeader &&& naluRefIdcBitmask ||| fuaNaluType) &&& naluRefIdcBitmask |||
      fuHeader naluHeader first last &&& naluTypeBitmask = naluHeader := by
  have clear : naluHeader &&& 0x7F = naluHeader := by
    revert naluHeader; decide +kernel
  rw [fuaPacket_header, clear]

theorem receive_fragment (q : H264Packet) (naluHeader : UInt8) (first last : Bool)
    (fragment : List UInt8) (top : naluHeader &&& 0x80 = 0) :
    q.receive (fuaPacket naluHeader first last fragment) =
      if last then .ok ({ q with fuaBuffer := [] },
        (.ok, q.doPackaging [] (naluHeader :: (q.fuaBuffer ++ fragment))))
      else .ok ({ q with fuaBuffer := q.fuaBuffer ++ fragment }, (.ok, [])) := by
  rw [fuaPacket, H264Packet.receive_fua _ _ _ _ (fuaPacket_type naluHeader),
    fuaPacket_restores _ _ _ top]
  simp only [fuHeader_end]

/-- The fragments of one unit, in order: nothing until the last, then the whole unit
on top of whatever the buffer held. -/
theorem run_fragments (naluHeader : UInt8) (top : naluHeader &&& 0x80 = 0)
    (fragments : List (List UInt8)) (some : fragments ≠ []) (q : H264Packet) (first : Bool) :
    Machine.runM H264Packet.receive q (decorate (fuaPacket naluHeader) first fragments) =
      .ok ({ q with fuaBuffer := [] }, List.replicate (fragments.length - 1) (.ok, []) ++
        [(.ok, q.doPackaging [] (naluHeader :: (q.fuaBuffer ++ fragments.flatten)))]) := by
  induction fragments generalizing q first with
  | nil => exact absurd rfl some
  | cons fragment rest ih =>
    rw [decorate_cons]
    by_cases last : rest = []
    · subst last
      have now := receive_fragment q naluHeader first true fragment top
      rw [if_pos rfl] at now
      rw [List.isEmpty_nil, decorate_nil, Machine.runM_cons_ok now (Machine.runM_nil _)]
      simp
    · have now := receive_fragment q naluHeader first rest.isEmpty fragment top
      rw [if_neg (by simpa using last)] at now
      rw [Machine.runM_cons_ok now (ih last _ false)]
      have count : (fragment :: rest).length - 1 = rest.length - 1 + 1 := by
        have := List.length_pos_iff.mpr last
        simp only [List.length_cons]
        omega
      rw [count, List.replicate_succ]
      simp [H264Packet.doPackaging]

theorem feed_fragments (naluHeader : UInt8) (top : naluHeader &&& 0x80 = 0)
    (fragments : List (List UInt8)) (some : fragments ≠ []) (q : H264Packet) (first : Bool) :
    q.feed (decorate (fuaPacket naluHeader) first fragments) =
      .ok ({ q with fuaBuffer := [] },
        q.doPackaging [] (naluHeader :: (q.fuaBuffer ++ fragments.flatten))) := by
  unfold H264Packet.feed
  rw [run_fragments naluHeader top fragments some q first]
  simp

/-- One unit, whatever way it is sent, gives its packaging and an empty buffer. -/
theorem feed_sendNALU (mtu : UInt16) (room : 3 ≤ mtu.toNat) (naluHeader : UInt8) (rest : List UInt8)
    (top : naluHeader &&& 0x80 = 0) (single : naluHeader &&& naluTypeBitmask ∈ singleNaluTypes)
    (q : H264Packet) (empty : q.fuaBuffer = []) :
    ∃ packets, sendNALU mtu (naluHeader :: rest) = .ok packets ∧
      q.feed packets = .ok (q, q.doPackaging [] (naluHeader :: rest)) := by
  by_cases fits : (naluHeader :: rest).length ≤ mtu.toNat
  · refine ⟨[naluHeader :: rest], by rw [sendNALU, if_pos fits], ?_⟩
    simpa using H264Packet.feed_cons (H264Packet.receive_single q naluHeader rest single)
      (H264Packet.feed_nil q)
  · have long : mtu.toNat < (naluHeader :: rest).length := Nat.lt_of_not_le fits
    have cutting : ∃ fragments, cut (mtu.toNat - 2) (fuaPacket naluHeader) rest =
        .ok (decorate (fuaPacket naluHeader) true fragments) ∧ Splits (mtu.toNat - 2) rest fragments :=
      cut_ok (by omega) rest
    obtain ⟨fragments, run, splits⟩ := cutting
    have nonempty : rest ≠ [] := by
      rintro rfl
      simp only [List.length_cons, List.length_nil] at long
      omega
    refine ⟨decorate (fuaPacket naluHeader) true fragments, (sendNALU_cut room long).trans run, ?_⟩
    rw [feed_fragments naluHeader top fragments (splits.ne_nil nonempty) q true, splits.joined,
      empty, List.nil_append]
    cases q
    simp_all

/-- With STAP-A disabled the dispatch keeps no state and sends every unit by itself. -/
theorem emitNALU_disabled (p : H264Payloader) (disabled : p.disableStapa = true) (mtu : UInt16)
    (sent : sendNALU mtu (naluHeader :: rest) = .ok packets) :
    p.emitNALU mtu (naluHeader :: rest) = .ok (p, packets) := by
  simp [H264Payloader.emitNALU, disabled, sent]

/-- A unit that `sendNALU` and the single-unit branch of the depacketizer both serve. -/
def Plain (nalu : List UInt8) : Prop :=
  ∃ naluHeader rest, nalu = naluHeader :: rest ∧ naluHeader &&& 0x80 = 0 ∧
    naluHeader &&& naluTypeBitmask ∈ singleNaluTypes

theorem feed_emitUnits (p : H264Payloader) (disabled : p.disableStapa = true) (mtu : UInt16)
    (room : 3 ≤ mtu.toNat) (q : H264Packet) (empty : q.fuaBuffer = []) (annexB : q.isAvc = false)
    (units : List (List UInt8)) (plain : ∀ nalu ∈ units, Plain nalu) :
    ∃ packets, p.emitUnits mtu units = .ok (p, packets) ∧
      q.feed packets = .ok (q, units.flatMap (annexbNaluStartCode ++ ·)) := by
  induction units with
  | nil => exact ⟨[], rfl, rfl⟩
  | cons nalu units ih =>
    obtain ⟨more, emitted, fed⟩ := ih fun nalu member => plain nalu (List.mem_cons_of_mem _ member)
    obtain ⟨naluHeader, rest, rfl, top, single⟩ := plain nalu List.mem_cons_self
    obtain ⟨packets, sent, received⟩ := feed_sendNALU mtu room naluHeader rest top single q empty
    refine ⟨packets ++ more, ?_, ?_⟩
    · rw [H264Payloader.emitUnits_cons, emitNALU_disabled p disabled mtu sent]
      simp only [ok_bind, emitted]
    · rw [H264Packet.feed_append received fed, H264Packet.doPackaging_annexB q _ annexB,
        List.flatMap_cons]

def throughRtp (p : H264Payloader) (mtu : UInt16) (stream : List UInt8) : Except Fault (List UInt8) := do
  let (_, packets) ← p.payload mtu stream
  let (_, output) ← ({} : H264Packet).feed packets
  .ok output

namespace CodedUnit

theorem scanned_plain (units : List CodedUnit) : ∀ nalu ∈ scanned units, Plain nalu := by
  induction units with
  | nil => simp [scanned]
  | cons u rest ih =>
    intro nalu member
    rcases List.mem_cons.mp member with rfl | later
    · have served : ∀ kind ∈ ([1, 2, 3, 4, 5, 6, 7, 8, 10, 11, 19, 20, 21, 22, 23] : List UInt8),
          kind ∈ singleNaluTypes := by decide +kernel
      exact ⟨u.unit.header, u.unit.body ++ stray rest, rfl, u.unit.top, served _ u.unit.kind⟩
    · exact ih nalu later

theorem payload_stream (p : H264Payloader) (mtu : UInt16) (units : List CodedUnit) :
    p.payload mtu (stream units) = p.emitUnits mtu (scanned units) := by
  obtain ⟨cs, cuts, same⟩ := cuts_stream units
  rw [← same, ← H264Payloader.emitNALUs_eq p mtu cuts, H264Payloader.payload]
  split
  · rename_i none
    rw [List.length_eq_zero_iff.mp none]
    rfl
  · rfl

/-- What comes out: every scanned range behind a start code of four bytes. -/
theorem throughRtp_stream (p : H264Payloader) (disabled : p.disableStapa = true) (mtu : UInt16)
    (room : 3 ≤ mtu.toNat) (units : List CodedUnit) :
    throughRtp p mtu (stream units) = .ok ((scanned units).flatMap (annexbNaluStartCode ++ ·)) := by
  obtain ⟨packets, emitted, fed⟩ := feed_emitUnits p disabled mtu room {} rfl rfl (scanned units)
    (scanned_plain units)
  simp only [throughRtp, payload_stream, emitted, fed, ok_bind]

/-- Every long start code behind the first one costs one stray byte. -/
theorem length_scanned (units : List CodedUnit) :
    ((scanned units).flatMap (annexbNaluStartCode ++ ·)).length =
      (annexB units).length + units.tail.countP (·.long) := by
  induction units with
  | nil => rfl
  | cons u rest ih =>
    have first : (stray rest).length + rest.tail.countP (·.long) = rest.countP (·.long) := by
      match rest with
      | [] => rfl
      | ⟨false, _⟩ :: _ => simp [stray]
      | ⟨true, _⟩ :: _ => simp [stray, Nat.add_comm]
    simp only [scanned, annexB, List.flatMap_cons, List.length_append, List.tail_cons] at ih ⊢
    omega

/-- Without long start codes behind the first, the scan finds the units as they are. -/
theorem scanned_eq (units : List CodedUnit) (short : ∀ u ∈ units.tail, u.long = false) :
    scanned units = units.map (·.unit.bytes) := by
  induction units with
  | nil => rfl
  | cons u rest ih =>
    have none : stray rest = [] := by
      match rest with
      | [] => rfl
      | ⟨false, _⟩ :: _ => rfl
      | ⟨true, v⟩ :: _ => simpa using short ⟨true, v⟩ (by simp)
    rw [scanned, none, List.append_nil, ih fun v member => short v (List.mem_of_mem_tail member), List.map_cons]

end CodedUnit

/-- The stream is reproduced exactly when no start code but the first is long. -/
theorem annexB_round_trip (p : H264Payloader) (disabled : p.disableStapa = true) (mtu : UInt16)
    (room : 3 ≤ mtu.toNat) (units : List CodedUnit) :
    throughRtp p mtu (CodedUnit.stream units) = .ok (CodedUnit.annexB units) ↔
      ∀ u ∈ units.tail, u.long = false := by
  rw [CodedUnit.throughRtp_stream p disabled mtu room units, Except.ok.injEq]
  constructor
  · intro same u member
    have lengths := CodedUnit.length_scanned units
    rw [same] at lengths
    have none : units.tail.countP (·.long) = 0 := by omega
    simpa using List.countP_eq_zero.mp none u member
  · intro short
    rw [CodedUnit.scanned_eq units short, List.flatMap_map]
    rfl

def idrUnit : NalUnit := ⟨0x65, [0xAA, 0xBB, 0xCC], by decide, by decide, by decide, by decide, by decide⟩
def sliceUnit : NalUnit := ⟨0x41, [0xDD], by decide, by decide, by decide, by decide, by decide⟩

theorem annexB_round_trip_short : throughRtp { disableStapa := true } 3
    (CodedUnit.stream [⟨true, idrUnit⟩, ⟨false, sliceUnit⟩]) =
      .ok (CodedUnit.annexB [⟨true, idrUnit⟩, ⟨false, sliceUnit⟩]) :=
  (annexB_round_trip { disableStapa := true } rfl 3 (by decide)
    [⟨true, idrUnit⟩, ⟨false, sliceUnit⟩]).mpr (by decide)

/-- With a second long start code the first unit comes back one zero byte longer. -/
theorem second_long_code_moves_zero : throughRtp { disableStapa := true } 1200
    (CodedUnit.stream [⟨true, idrUnit⟩, ⟨true, sliceUnit⟩]) =
      .ok (annexbNaluStartCode ++ idrUnit.bytes ++ [0] ++ annexbNaluStartCode ++ sliceUnit.bytes) ∧
    throughRtp { disableStapa := true } 1200
      (CodedUnit.stream [⟨true, idrUnit⟩, ⟨true, sliceUnit⟩]) ≠
      .ok (CodedUnit.annexB [⟨true, idrUnit⟩, ⟨true, sliceUnit⟩]) := by
  decide +kernel

end WebTransport.H264

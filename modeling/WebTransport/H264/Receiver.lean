import WebTransport.H264.Reassembly
import WebTransport.H264.RoundTrip
import WebTransport.RTP.Encoding
import WebTransport.RTP.Format

/-! The datagram callback of the receiving client: RTP, the H.264 depacketizer and the
file. The callback makes a new `RTPPacket` for each datagram and keeps the depacketizer,
so all that one datagram can do to later ones is the fragmentation buffer. -/
namespace WebTransport.H264

open Loop RTP Fragment

/-- `H264Depacketizer::Unmarshal`. A packet without a payload gives it a null pointer and
size zero, here the empty list. -/
def H264Depacketizer.unmarshal (p : H264Packet) (packet payload : List UInt8) :
    Except Fault (Bool × H264Packet × List UInt8) :=
  if packet.length = 0 then .ok (false, p, payload)
  else do
    let (err, p, payload) ← p.unmarshal packet payload
    .ok (err == .ok, p, payload)

/-- The callback of `onDatagramRead`: what it hands to `output_file->write`, if it comes to
the call. -/
def onDatagramRead (p : H264Packet) (data : List UInt8) : Except Fault (H264Packet × Option (List UInt8)) := do
  let (parsed, rtpPacket) ← RTPPacket.new.unmarshal data
  if parsed then
    let (accepted, p, h264Payload) ← H264Depacketizer.unmarshal p (rtpPacket.payload.getD []) []
    .ok (p, if accepted then some h264Payload else none)
  else .ok (p, none)

def fileOf (writes : List (Option (List UInt8))) : List UInt8 := (writes.filterMap id).flatten

@[simp] theorem fileOf_nil : fileOf [] = [] := rfl

@[simp] theorem fileOf_cons (write : Option (List UInt8)) (rest : List (Option (List UInt8))) :
    fileOf (write :: rest) = write.getD [] ++ fileOf rest := by cases write <;> simp [fileOf]

@[simp] theorem fileOf_append (first second : List (Option (List UInt8))) :
    fileOf (first ++ second) = fileOf first ++ fileOf second := by simp [fileOf]

def carried? (data : List UInt8) : Option (List UInt8) :=
  match RTPPacket.new.parse id data with
  | .ok q => q.payload
  | .error _ => none

def pending (datagrams : List (List UInt8)) : List UInt8 :=
  (H264Packet.sinceEnd ((datagrams.filterMap carried?).filterMap H264Packet.fragment?)).flatMap (·.data)

def write? (result : H264PacketError × List UInt8) : Option (List UInt8) :=
  if result.1 = .ok then some result.2 else none

theorem onDatagramRead_none (p : H264Packet) (nothing : carried? data = none) :
    onDatagramRead p data = .ok (p, none) := by
  have safe := RTPPacket.parse_safe data id RTPPacket.new
  unfold carried? at nothing
  unfold onDatagramRead RTPPacket.unmarshal RTPPacket.unmarshalWith
  match run : RTPPacket.new.parse id data with
  | .ok q =>
    rw [run] at nothing
    simp only at nothing
    simp only [nothing, ok_bind, if_true, Option.getD_none]
    rfl
  | .error (.early q) => rfl
  | .error (.fault fault) =>
    rw [run] at safe
    exact safe.elim

theorem onDatagramRead_some (p : H264Packet) (carried : carried? data = some payload)
    (now : p.receive payload = .ok (q, result)) : onDatagramRead p data = .ok (q, write? result) := by
  obtain ⟨err, output⟩ := result
  unfold carried? at carried
  unfold onDatagramRead RTPPacket.unmarshal RTPPacket.unmarshalWith
  match run : RTPPacket.new.parse id data with
  | .error _ => simp [run] at carried
  | .ok r =>
    rw [run] at carried
    simp only at carried
    simp only [carried, ok_bind, if_true, Option.getD_some, H264Depacketizer.unmarshal]
    by_cases empty : payload.length = 0
    · rw [H264Packet.receive, H264Packet.unmarshal, if_pos empty] at now
      simp only [ok_bind, Except.ok.injEq, Prod.mk.injEq] at now
      obtain ⟨rfl, rfl, rfl⟩ := now
      rw [if_pos empty]
      rfl
    · rw [if_neg empty]
      unfold H264Packet.receive at now
      cases call : p.unmarshal payload [] with
      | error fault => simp [call] at now
      | ok outcome =>
        obtain ⟨err', p', output'⟩ := outcome
        simp only [call, ok_bind, Except.ok.injEq, Prod.mk.injEq] at now
        obtain ⟨rfl, rfl, rfl⟩ := now
        simp only [ok_bind, write?, beq_iff_eq]

theorem receive_answers (p : H264Packet) (payload : List UInt8) :
    ∃ q result, p.receive payload = .ok (q, result) := by
  cases fua : H264Packet.fragment? payload with
  | none =>
    obtain ⟨result, now⟩ := H264Packet.receive_other p payload fua
    exact ⟨p, result, now⟩
  | some f =>
    have call := H264Packet.receive_fragment? p fua
    split at call
    · obtain ⟨header, now⟩ := call
      exact ⟨_, _, now⟩
    · exact ⟨_, _, call⟩

theorem run_answers (payloads : List (List UInt8)) (p : H264Packet) :
    ∃ q results, Machine.runM H264Packet.receive p payloads = .ok (q, results) := by
  induction payloads generalizing p with
  | nil => exact ⟨p, [], rfl⟩
  | cons payload rest ih =>
    obtain ⟨r, result, now⟩ := receive_answers p payload
    obtain ⟨q, results, later⟩ := ih r
    exact ⟨q, result :: results, Machine.runM_cons_ok now later⟩

/-- The callbacks of a run are the calls for what the datagrams carry. -/
theorem run_carried (datagrams : List (List UInt8)) (p : H264Packet) :
    ∃ q results writes, Machine.runM H264Packet.receive p (datagrams.filterMap carried?) = .ok (q, results) ∧
      Machine.runM onDatagramRead p datagrams = .ok (q, writes) ∧ fileOf writes = fileOf (results.map write?) := by
  induction datagrams generalizing p with
  | nil => exact ⟨p, [], [], rfl, rfl, rfl⟩
  | cons data rest ih =>
    cases carried : carried? data with
    | none =>
      obtain ⟨q, results, writes, run, later, same⟩ := ih p
      rw [List.filterMap_cons_none carried]
      exact ⟨q, results, none :: writes, run, Machine.runM_cons_ok (onDatagramRead_none p carried) later, same⟩
    | some payload =>
      obtain ⟨r, result, now⟩ := receive_answers p payload
      obtain ⟨q, results, writes, run, later, same⟩ := ih r
      rw [List.filterMap_cons_some carried]
      refine ⟨q, result :: results, write? result :: writes, Machine.runM_cons_ok now run,
        Machine.runM_cons_ok (onDatagramRead_some p carried now) later, ?_⟩
      rw [List.map_cons, fileOf_cons, fileOf_cons, same]

/-- The bytes in front of a unit's own: fragments are put behind what was pending. -/
def inFront (mtu : UInt16) (nalu pending : List UInt8) : List UInt8 :=
  if nalu.length ≤ mtu.toNat then [] else pending

theorem inFront_eq_nil : inFront mtu nalu held = [] ↔ nalu.length ≤ mtu.toNat ∨ held = [] := by
  unfold inFront
  split <;> simp_all

def leftPending (mtu : UInt16) (nalu pending : List UInt8) : List UInt8 :=
  if nalu.length ≤ mtu.toNat then pending else []

/-- The packets of one unit, in order: only the last one writes. -/
theorem run_unit (mtu : UInt16) (room : 3 ≤ mtu.toNat) (naluHeader : UInt8) (rest : List UInt8)
    (top : naluHeader &&& 0x80 = 0) (single : naluHeader &&& naluTypeBitmask ∈ singleNaluTypes)
    (sent : sendNALU mtu (naluHeader :: rest) = .ok packets) (p : H264Packet) :
    ∃ silent last, Machine.runM H264Packet.receive p packets =
        .ok ({ p with fuaBuffer := leftPending mtu (naluHeader :: rest) p.fuaBuffer }, silent ++ [last]) ∧
      fileOf (silent.map write?) = [] ∧
      write? last =
        some (p.doPackaging [] (naluHeader :: (inFront mtu (naluHeader :: rest) p.fuaBuffer ++ rest))) := by
  unfold inFront leftPending
  by_cases fits : (naluHeader :: rest).length ≤ mtu.toNat
  · rw [sendNALU, if_pos fits] at sent
    obtain rfl := Except.ok.inj sent
    rw [if_pos fits, if_pos fits]
    refine ⟨[], (.ok, p.doPackaging [] (naluHeader :: rest)), ?_, rfl, rfl⟩
    exact Machine.runM_cons_ok (H264Packet.receive_single p naluHeader rest single) (Machine.runM_nil _)
  · have long : mtu.toNat < (naluHeader :: rest).length := Nat.lt_of_not_le fits
    have cutting : ∃ fragments, cut (mtu.toNat - 2) (fuaPacket naluHeader) rest =
        .ok (decorate (fuaPacket naluHeader) true fragments) ∧ Splits (mtu.toNat - 2) rest fragments :=
      cut_ok (by omega) rest
    obtain ⟨fragments, packeted, splits⟩ := cutting
    rw [sendNALU_cut room long, packeted] at sent
    obtain rfl := Except.ok.inj sent
    have nonempty : rest ≠ [] := by
      rintro rfl
      simp only [List.length_cons, List.length_nil] at long
      omega
    rw [if_neg fits, if_neg fits]
    refine ⟨_, _, run_fragments naluHeader top fragments (splits.ne_nil nonempty) p true, ?_, ?_⟩
    · simp [write?, fileOf]
    · rw [splits.joined]
      rfl

theorem run_pending (datagrams : List (List UInt8)) :
    ∃ writes, Machine.runM onDatagramRead {} datagrams = .ok ({ fuaBuffer := pending datagrams }, writes) := by
  obtain ⟨q, results, writes, run, received, _⟩ := run_carried datagrams {}
  obtain ⟨results', holds⟩ := H264Packet.run_holding false (datagrams.filterMap carried?)
  rw [holds] at run
  obtain ⟨rfl, _⟩ := Prod.mk.inj (Except.ok.inj run)
  exact ⟨writes, received⟩

/-- The packets of one unit among datagrams that carry nothing. -/
theorem run_arrived (mtu : UInt16) (room : 3 ≤ mtu.toNat) (naluHeader : UInt8) (rest : List UInt8)
    (top : naluHeader &&& 0x80 = 0) (single : naluHeader &&& naluTypeBitmask ∈ singleNaluTypes)
    (sent : sendNALU mtu (naluHeader :: rest) = .ok packets) (held : List UInt8) (during : List (List UInt8))
    (arrived : during.filterMap carried? = packets) :
    ∃ writes, Machine.runM onDatagramRead { fuaBuffer := held } during =
        .ok ({ fuaBuffer := leftPending mtu (naluHeader :: rest) held }, writes) ∧
      fileOf writes = annexbNaluStartCode ++ naluHeader :: (inFront mtu (naluHeader :: rest) held ++ rest) := by
  obtain ⟨silent, last, units, quiet, file⟩ := run_unit mtu room naluHeader rest top single sent { fuaBuffer := held }
  obtain ⟨q, results, writes, run, received, same⟩ := run_carried during { fuaBuffer := held }
  rw [arrived, units] at run
  obtain ⟨rfl, rfl⟩ := Prod.mk.inj (Except.ok.inj run)
  refine ⟨writes, received, ?_⟩
  rw [same, List.map_append, fileOf_append, quiet, List.map_singleton, fileOf_cons, file,
    H264Packet.doPackaging_annexB _ _ rfl]
  simp

/-- After any datagrams and in front of any, a unit whose packets arrive one behind the other
is written, and what was pending comes between its header and its rest if it is fragmented. So
it is written as it was sent exactly when it fits into a packet or no fragment is pending. -/
theorem unit_intact_iff (mtu : UInt16) (room : 3 ≤ mtu.toNat) (nalu : List UInt8) (plain : Plain nalu)
    (sent : sendNALU mtu nalu = .ok packets) (before during after : List (List UInt8))
    (arrived : during.filterMap carried? = packets) :
    ∃ q earlier unit later,
      Machine.runM onDatagramRead {} (before ++ during ++ after) = .ok (q, earlier ++ unit ++ later) ∧
      earlier.length = before.length ∧ unit.length = during.length ∧
      fileOf unit = annexbNaluStartCode ++ (nalu.take 1 ++ inFront mtu nalu (pending before) ++ nalu.drop 1) ∧
      (fileOf unit = annexbNaluStartCode ++ nalu ↔ nalu.length ≤ mtu.toNat ∨ pending before = []) := by
  obtain ⟨naluHeader, rest, rfl, top, single⟩ := plain
  obtain ⟨earlier, first⟩ := run_pending before
  obtain ⟨unit, second, file⟩ := run_arrived mtu room naluHeader rest top single sent (pending before) during arrived
  obtain ⟨q, _, later, _, third, _⟩ := run_carried after
    { fuaBuffer := leftPending mtu (naluHeader :: rest) (pending before) }
  refine ⟨q, earlier, unit, later, Machine.runM_append_ok (Machine.runM_append_ok first second) third,
    Machine.length_runM first, Machine.length_runM second, file, ?_⟩
  rw [file, ← inFront_eq_nil, List.append_cancel_left_eq, List.cons.injEq, List.append_left_eq_self]
  exact and_iff_right rfl

/-- The start of a unit without its end, then another unit in three fragments. -/
theorem unit_intact_lost_end : ∃ q earlier unit later, Machine.runM onDatagramRead {}
      ([[0x80, 96, 0, 1, 0, 0, 0, 1, 0, 0, 0, 1, 0x7C, 0x85, 0xAA]] ++
        [[0x80, 96, 0, 3, 0, 0, 0, 1, 0, 0, 0, 1, 0x5C, 0x81, 0xBB], [0],
          [0x80, 96, 0, 4, 0, 0, 0, 1, 0, 0, 0, 1, 0x5C, 0x01, 0xCC],
          [0x80, 96, 0, 5, 0, 0, 0, 1, 0, 0, 0, 1, 0x5C, 0x41, 0xDD]] ++ []) =
        .ok (q, earlier ++ unit ++ later) ∧ earlier.length = 1 ∧ unit.length = 4 ∧
      fileOf unit = annexbNaluStartCode ++ ([0x41] ++
        inFront 3 [0x41, 0xBB, 0xCC, 0xDD] (pending [[0x80, 96, 0, 1, 0, 0, 0, 1, 0, 0, 0, 1, 0x7C, 0x85, 0xAA]]) ++
          [0xBB, 0xCC, 0xDD]) ∧
      (fileOf unit = annexbNaluStartCode ++ [0x41, 0xBB, 0xCC, 0xDD] ↔
        [0x41, 0xBB, 0xCC, 0xDD].length ≤ (3 : UInt16).toNat ∨
          pending [[0x80, 96, 0, 1, 0, 0, 0, 1, 0, 0, 0, 1, 0x7C, 0x85, 0xAA]] = []) :=
  unit_intact_iff 3 (by decide) [0x41, 0xBB, 0xCC, 0xDD] ⟨0x41, [0xBB, 0xCC, 0xDD], rfl, by decide, by decide +kernel⟩
    (show sendNALU 3 [0x41, 0xBB, 0xCC, 0xDD] = .ok [[0x5C, 0x81, 0xBB], [0x5C, 0x01, 0xCC], [0x5C, 0x41, 0xDD]] by
      decide +kernel) _ _ _ (by decide +kernel)

theorem emitUnits_groups (p : H264Payloader) (disabled : p.disableStapa = true) (mtu : UInt16)
    (room : 3 ≤ mtu.toNat) (units : List (List UInt8)) (plain : ∀ nalu ∈ units, Plain nalu) :
    ∃ groups, p.emitUnits mtu units = .ok (p, groups.flatten) ∧
      List.Forall₂ (fun nalu group => sendNALU mtu nalu = .ok group) units groups := by
  induction units with
  | nil => exact ⟨[], rfl, .nil⟩
  | cons nalu units ih =>
    obtain ⟨more, emitted, each⟩ := ih fun nalu member => plain nalu (List.mem_cons_of_mem _ member)
    obtain ⟨naluHeader, rest, rfl, top, single⟩ := plain nalu List.mem_cons_self
    obtain ⟨packets, sent, _⟩ := feed_sendNALU mtu room naluHeader rest top single {} rfl
    refine ⟨packets :: more, ?_, .cons sent each⟩
    rw [H264Payloader.emitUnits_cons, emitNALU_disabled p disabled mtu sent]
    simp only [ok_bind, emitted, List.flatten_cons]

/-- Units sent in groups, received in any order of the groups. -/
theorem run_order (mtu : UInt16) (room : 3 ≤ mtu.toNat) (plain : ∀ nalu ∈ units, Plain nalu)
    (each : List.Forall₂ (fun nalu group => sendNALU mtu nalu = .ok group) units groups)
    (order : List Nat) (datagrams : List (List UInt8))
    (arrived : datagrams.filterMap carried? = order.flatMap (groups.getD · [])) :
    ∃ writes, Machine.runM onDatagramRead {} datagrams = .ok ({}, writes) ∧
      fileOf writes = order.flatMap fun i => (units[i]?.map (annexbNaluStartCode ++ ·)).getD [] := by
  induction order generalizing datagrams with
  | nil =>
    obtain ⟨q, results, writes, run, received, same⟩ := run_carried datagrams {}
    rw [arrived] at run
    obtain ⟨rfl, rfl⟩ := Prod.mk.inj (Except.ok.inj run)
    exact ⟨writes, received, same⟩
  | cons i rest ih =>
    rw [List.flatMap_cons] at arrived
    obtain ⟨during, after, rfl, now, later⟩ := List.filterMap_eq_append_iff.mp arrived
    obtain ⟨writes, run, file⟩ := ih after later
    have first : ∃ unit, Machine.runM onDatagramRead {} during = .ok ({}, unit) ∧
        fileOf unit = (units[i]?.map (annexbNaluStartCode ++ ·)).getD [] := by
      rcases Nat.lt_or_ge i units.length with inside | outside
      · have here : i < groups.length := each.length_eq ▸ inside
        have sent := each.get inside here
        obtain ⟨naluHeader, body, same, top, single⟩ := plain units[i] (List.getElem_mem inside)
        simp only [List.get_eq_getElem, same] at sent
        obtain ⟨unit, run', file'⟩ := run_arrived mtu room naluHeader body top single sent [] during
          (by rw [now, List.getD_eq_getElem?_getD, List.getElem?_eq_getElem here, Option.getD_some])
        have none : ∀ nalu, inFront mtu nalu [] = [] ∧ leftPending mtu nalu [] = [] := by
          intro nalu
          simp [inFront, leftPending]
        rw [(none _).1] at file'
        rw [(none _).2] at run'
        refine ⟨unit, run', ?_⟩
        rw [file', List.getElem?_eq_getElem inside, same]
        rfl
      · rw [List.getD_eq_getElem?_getD, List.getElem?_eq_none (each.length_eq ▸ outside), Option.getD_none] at now
        obtain ⟨q, results, unit, nothing, received, same⟩ := run_carried during {}
        rw [now] at nothing
        obtain ⟨rfl, rfl⟩ := Prod.mk.inj (Except.ok.inj nothing)
        refine ⟨unit, received, ?_⟩
        rw [same, List.getElem?_eq_none outside]
        rfl
    obtain ⟨unit, run', file'⟩ := first
    refine ⟨unit ++ writes, Machine.runM_append_ok run' run, ?_⟩
    rw [fileOf_append, file', file, List.flatMap_cons]

theorem run_part (mtu : UInt16) (room : 3 ≤ mtu.toNat) (plain : Plain nalu)
    (sent : sendNALU mtu nalu = .ok (part ++ missing)) (some : missing ≠ []) (datagrams : List (List UInt8))
    (arrived : datagrams.filterMap carried? = part) :
    ∃ q writes, Machine.runM onDatagramRead {} datagrams = .ok (q, writes) ∧ fileOf writes = [] := by
  obtain ⟨naluHeader, rest, rfl, top, single⟩ := plain
  obtain ⟨silent, last, whole, quiet, -⟩ := run_unit mtu room naluHeader rest top single sent {}
  obtain ⟨q, results, writes, run, received, same⟩ := run_carried datagrams {}
  obtain ⟨q', results', later⟩ := run_answers missing q
  rw [arrived] at run
  refine ⟨q, writes, received, ?_⟩
  rw [Machine.runM_append_ok run later] at whole
  obtain ⟨-, joined⟩ := Prod.mk.inj (Except.ok.inj whole)
  rw [same]
  -- the last answer is one to the packets that are missing
  have fewer : results' ≠ [] := by
    have length := Machine.length_runM later
    rintro rfl
    exact some (List.eq_nil_of_length_eq_zero length.symm)
  obtain ⟨front, final, rfl⟩ := List.eq_nil_or_concat results' |>.resolve_left fewer
  rw [List.concat_eq_append, ← List.append_assoc] at joined
  obtain ⟨rfl, -⟩ := List.append_inj' joined rfl
  rw [List.map_append, fileOf_append] at quiet
  exact (List.append_eq_nil_iff.mp quiet).1

/-- The same while some of the packets are still to come: the file has the units that are
complete, and of the next one nothing. -/
theorem run_prefix (mtu : UInt16) (room : 3 ≤ mtu.toNat) (plain : ∀ nalu ∈ units, Plain nalu)
    (each : List.Forall₂ (fun nalu group => sendNALU mtu nalu = .ok group) units groups)
    (order : List Nat) (datagrams : List (List UInt8)) (missing : List (List UInt8))
    (arriving : order.flatMap (groups.getD · []) = datagrams.filterMap carried? ++ missing) :
    ∃ q writes, Machine.runM onDatagramRead {} datagrams = .ok (q, writes) ∧
      ∃ done later, order = done ++ later ∧ (missing = [] → later = []) ∧
        fileOf writes = done.flatMap fun i => (units[i]?.map (annexbNaluStartCode ++ ·)).getD [] := by
  by_cases all : missing = []
  · rw [all, List.append_nil] at arriving
    obtain ⟨writes, run, file⟩ := run_order mtu room plain each order datagrams arriving.symm
    exact ⟨_, writes, run, order, [], (List.append_nil order).symm, fun _ => rfl, file⟩
  rw [List.flatMap_def] at arriving
  rcases List.flatten_eq_append_iff.mp arriving with
    ⟨whole, absent, split, now, -⟩ | ⟨whole, part, packet, packets, absent, split, now, -⟩
  · obtain ⟨done, later, rfl, rfl, -⟩ := List.map_eq_append_iff.mp split
    rw [← List.flatMap_def] at now
    obtain ⟨writes, run, file⟩ := run_order mtu room plain each done datagrams now
    exact ⟨_, writes, run, done, later, rfl, fun none => absurd none all, file⟩
  · obtain ⟨done, others, rfl, rfl, next⟩ := List.map_eq_append_iff.mp split
    obtain ⟨i, later, rfl, group, -⟩ := List.map_eq_cons_iff.mp next
    rw [← List.flatMap_def] at now
    obtain ⟨before, behind, rfl, complete, begun⟩ := List.filterMap_eq_append_iff.mp now
    obtain ⟨earlier, run, file⟩ := run_order mtu room plain each done before complete
    have inside : i < groups.length := by
      by_contra outside
      rw [List.getD_eq_getElem?_getD, List.getElem?_eq_none (Nat.le_of_not_lt outside), Option.getD_none] at group
      simp at group
    have sent := each.get (each.length_eq.symm ▸ inside) inside
    rw [List.getD_eq_getElem?_getD, List.getElem?_eq_getElem inside, Option.getD_some] at group
    rw [List.get_eq_getElem, List.get_eq_getElem, group] at sent
    obtain ⟨q, writes, run', quiet⟩ := run_part mtu room (plain _ (List.getElem_mem _)) sent (List.cons_ne_nil _ _)
      behind begun
    refine ⟨q, earlier ++ writes, Machine.runM_append_ok run run', done, i :: later, rfl,
      fun none => absurd none all, ?_⟩
    rw [fileOf_append, file, quiet, List.append_nil]

/-- A stream sent unit by unit, whose units are lost, repeated and put in any order on the
way, among datagrams that carry nothing: the file has the units that arrived, as the scan cut
them, which is as they are if no start code but the first is long. -/
theorem whole_units_survive (p : H264Payloader) (disabled : p.disableStapa = true) (mtu : UInt16)
    (room : 3 ≤ mtu.toNat) (units : List CodedUnit) :
    ∃ groups, p.payload mtu (CodedUnit.stream units) = .ok (p, groups.flatten) ∧
      List.Forall₂ (fun nalu group => sendNALU mtu nalu = .ok group) (CodedUnit.scanned units) groups ∧
      ((∀ u ∈ units.tail, u.long = false) → CodedUnit.scanned units = units.map (·.unit.bytes)) ∧
      ∀ (order : List Nat) (datagrams : List (List UInt8)),
        datagrams.filterMap carried? = order.flatMap (groups.getD · []) →
        ∃ writes, Machine.runM onDatagramRead {} datagrams = .ok ({}, writes) ∧
          fileOf writes = order.flatMap fun i =>
            ((CodedUnit.scanned units)[i]?.map (annexbNaluStartCode ++ ·)).getD [] := by
  obtain ⟨groups, emitted, each⟩ := emitUnits_groups p disabled mtu room _ (CodedUnit.scanned_plain units)
  exact ⟨groups, (CodedUnit.payload_stream p mtu units).trans emitted, each, CodedUnit.scanned_eq units,
    run_order mtu room (CodedUnit.scanned_plain units) each⟩

/-- The packets of two units, the first in three fragments. -/
theorem two_units_sent (each : List.Forall₂ (fun nalu group => sendNALU 3 nalu = .ok group)
    (CodedUnit.scanned [⟨true, idrUnit⟩, ⟨false, sliceUnit⟩]) groups) :
    groups = [[[0x7C, 0x85, 0xAA], [0x7C, 0x05, 0xBB], [0x7C, 0x45, 0xCC]], [[0x41, 0xDD]]] := by
  refine List.right_unique_forall₂' (fun _ _ _ one other => Except.ok.inj (one.symm.trans other)) each ?_
  exact .cons (by decide +kernel) (.cons (by decide +kernel) .nil)

/-- The second unit arrives twice, then the first in its three fragments. -/
theorem whole_units_survive_swapped : ∃ writes, Machine.runM onDatagramRead {}
      [[0x80, 96, 0, 4, 0, 0, 0, 1, 0, 0, 0, 1, 0x41, 0xDD], [0x80, 96, 0, 4, 0, 0, 0, 1, 0, 0, 0, 1, 0x41, 0xDD], [],
        [0x80, 96, 0, 1, 0, 0, 0, 1, 0, 0, 0, 1, 0x7C, 0x85, 0xAA],
        [0x80, 96, 0, 2, 0, 0, 0, 1, 0, 0, 0, 1, 0x7C, 0x05, 0xBB],
        [0x80, 96, 0, 3, 0, 0, 0, 1, 0, 0, 0, 1, 0x7C, 0x45, 0xCC]] = .ok ({}, writes) ∧
      fileOf writes = [0, 0, 0, 1, 0x41, 0xDD, 0, 0, 0, 1, 0x41, 0xDD, 0, 0, 0, 1, 0x65, 0xAA, 0xBB, 0xCC] := by
  obtain ⟨groups, _, each, _, all⟩ := whole_units_survive { disableStapa := true } rfl 3 (by decide)
    [⟨true, idrUnit⟩, ⟨false, sliceUnit⟩]
  obtain rfl := two_units_sent each
  exact all [1, 1, 0] _ (by decide +kernel)

end WebTransport.H264

import WebTransport.H264.Bounded

/-! How often a unit is sent. The packetizer is run with numbered slices: every slice that
is cut gets the next number, and a stored SPS or PPS keeps the one it was cut with.
`emit_sent` says that the numbers change nothing of what is sent. -/
namespace WebTransport.H264

open Loop Machine

structure Slice where
  number : Nat
  bytes : List UInt8
  deriving DecidableEq, Repr

/-- A unit by itself, in one packet or in fragments, or three units in one packet. -/
inductive Transmission where
  | alone (mtu : UInt16) (unit : Slice)
  | aggregate (sps pps unit : Slice)
  deriving DecidableEq, Repr

namespace Transmission

def numbers : Transmission → List Nat
  | alone _ unit => [unit.number]
  | aggregate sps pps unit => [sps.number, pps.number, unit.number]

def packets : Transmission → Except Fault (List (List UInt8))
  | alone mtu unit => sendNALU mtu unit.bytes
  | aggregate sps pps unit => .ok [stapaPacket sps.bytes pps.bytes unit.bytes]

def Carries (t : Transmission) (group : List (List UInt8)) : Prop := t.packets = .ok group ∧ group ≠ []

end Transmission

/-- A packetizer with the numbers of its stored units and of the next slice. -/
structure Sender where
  payloader : H264Payloader
  spsFrom : Nat := 0
  ppsFrom : Nat := 0
  count : Nat := 0
  deriving DecidableEq, Repr

abbrev Arrival := UInt16 × List UInt8

namespace Sender

def spsSlice (s : Sender) : Slice := ⟨s.spsFrom, s.payloader.spsNalu⟩
def ppsSlice (s : Sender) : Slice := ⟨s.ppsFrom, s.payloader.ppsNalu⟩

def pass (s : Sender) : Sender := { s with count := s.count + 1 }

def clear (s : Sender) : Sender := { s with payloader := s.payloader.clearSPSPPS, count := s.count + 1 }

def keep (s : Sender) (nalu : List UInt8) : Sender :=
  ⟨s.payloader.learn nalu, if naluType nalu = spsNaluType then s.count else s.spsFrom,
    if naluType nalu = ppsNaluType then s.count else s.ppsFrom, s.count + 1⟩

def emit (s : Sender) (arrival : Arrival) : Sender × List Transmission :=
  if arrival.2 = [] then (s.pass, [])
  else if s.payloader.Aggregates arrival.1 arrival.2 then
    (s.clear, [.aggregate s.spsSlice s.ppsSlice ⟨s.count, arrival.2⟩])
  else (s.keep arrival.2, [.alone arrival.1 ⟨s.count, arrival.2⟩])

def Joins (s : Sender) (arrival : Arrival) : Prop :=
  arrival.2 ≠ [] ∧ s.payloader.Aggregates arrival.1 arrival.2

theorem emit_empty (s : Sender) (empty : arrival.2 = []) : s.emit arrival = (s.pass, []) := if_pos empty

theorem emit_joins (s : Sender) (joins : s.Joins arrival) :
    s.emit arrival = (s.clear, [.aggregate s.spsSlice s.ppsSlice ⟨s.count, arrival.2⟩]) := by
  rw [emit, if_neg joins.1, if_pos joins.2]

theorem emit_alone (s : Sender) (some : arrival.2 ≠ []) (apart : ¬ s.Joins arrival) :
    s.emit arrival = (s.keep arrival.2, [.alone arrival.1 ⟨s.count, arrival.2⟩]) := by
  rw [emit, if_neg some, if_neg fun joins => apart ⟨some, joins⟩]

end Sender

def arrivals (calls : List (UInt16 × List UInt8)) : List Arrival :=
  calls.flatMap fun call => (slices call.2).map (call.1, ·)

def transmissions (p : H264Payloader) (calls : List (UInt16 × List UInt8)) : List Transmission :=
  (run Sender.emit { payloader := p } (arrivals calls)).2

/-- With three bytes or more a unit that is sent by itself is sent. -/
theorem alone_carries (mtu : UInt16) (room : 3 ≤ mtu.toNat) (unit : Slice) (some : unit.bytes ≠ []) :
    ∃ group, (Transmission.alone mtu unit).Carries group := by
  obtain ⟨group, sent, -⟩ := (sendNALU_respects_iff mtu unit.bytes).mpr (.inl room)
  exact ⟨group, sent, sendNALU_ne_nil room some sent⟩

theorem Sender.emit_sent (s : Sender) (arrival : Arrival) (room : 3 ≤ arrival.1.toNat) :
    ∃ groups, List.Forall₂ Transmission.Carries (s.emit arrival).2 groups ∧
      s.payloader.emitNALU arrival.1 arrival.2 = .ok ((s.emit arrival).1.payloader, groups.flatten) := by
  by_cases empty : arrival.2 = []
  · rw [s.emit_empty empty, empty]
    exact ⟨[], .nil, rfl⟩
  rw [s.payloader.emitNALU_eq arrival.1 empty]
  by_cases joins : s.Joins arrival
  · rw [s.emit_joins joins, if_pos joins.2]
    exact ⟨[[_]], .cons ⟨rfl, List.cons_ne_nil _ _⟩ .nil, rfl⟩
  · obtain ⟨group, sent, some⟩ := alone_carries arrival.1 room ⟨s.count, arrival.2⟩ empty
    have sending : sendNALU arrival.1 arrival.2 = .ok group := sent
    rw [s.emit_alone empty joins, if_neg fun h => joins ⟨empty, h⟩, sending]
    exact ⟨[group], .cons ⟨sent, some⟩ .nil, by simp [Sender.keep]⟩

theorem emitUnits_sent (mtu : UInt16) (room : 3 ≤ mtu.toNat) (units : List (List UInt8)) (s : Sender) :
    ∃ groups, List.Forall₂ Transmission.Carries (run Sender.emit s (units.map (mtu, ·))).2 groups ∧
      s.payloader.emitUnits mtu units =
        .ok ((run Sender.emit s (units.map (mtu, ·))).1.payloader, groups.flatten) := by
  induction units generalizing s with
  | nil => exact ⟨[], .nil, rfl⟩
  | cons nalu rest ih =>
    obtain ⟨groups, carried, now⟩ := s.emit_sent (mtu, nalu) room
    obtain ⟨more, others, later⟩ := ih (s.emit (mtu, nalu)).1
    refine ⟨groups ++ more, List.rel_append carried others, ?_⟩
    rw [H264Payloader.emitUnits_cons, now, ok_bind]
    simp only [later, ok_bind, List.flatten_append]
    rfl

theorem Sender.payload_sent (s : Sender) (call : UInt16 × List UInt8) (room : 3 ≤ call.1.toNat) :
    ∃ groups, List.Forall₂ Transmission.Carries (run Sender.emit s ((slices call.2).map (call.1, ·))).2 groups ∧
      s.payloader.payload call.1 call.2 =
        .ok ((run Sender.emit s ((slices call.2).map (call.1, ·))).1.payloader, groups.flatten) := by
  rw [s.payloader.payload_eq]
  exact emitUnits_sent call.1 room (slices call.2) s

/-- The whole run: the calls succeed, and their packets are those of the transmissions. -/
theorem payload_sent (calls : List (UInt16 × List UInt8)) (room : ∀ call ∈ calls, 3 ≤ call.1.toNat)
    (s : Sender) :
    ∃ q outputs groups, runM (fun p call => p.payload call.1 call.2) s.payloader calls = .ok (q, outputs) ∧
      List.Forall₂ Transmission.Carries (run Sender.emit s (arrivals calls)).2 groups ∧
      outputs.flatten = groups.flatten := by
  obtain ⟨outputs, groups, sent, carried, same⟩ :=
    runM_tracks Sender.payloader (fun p call => p.payload call.1 call.2)
      (fun s call => run Sender.emit s ((slices call.2).map (call.1, ·))) Sender.payload_sent s calls room
  rw [arrivals, run_flatMap]
  exact ⟨_, outputs, groups, sent, carried, same⟩

namespace H264Payloader

theorem learn_enabled (p : H264Payloader) (enabled : p.disableStapa = false) (nalu : List UInt8) :
    p.learn nalu =
      { p with
        spsNalu := if naluType nalu = spsNaluType then nalu else p.spsNalu
        ppsNalu := if naluType nalu = ppsNaluType then nalu else p.ppsNalu } := by
  rw [learn, if_neg (Bool.eq_false_iff.mp enabled)]
  by_cases sps : naluType nalu = spsNaluType
  · simp [sps, spsNaluType, ppsNaluType]
  · by_cases pps : naluType nalu = ppsNaluType
    · simp [pps, spsNaluType, ppsNaluType]
    · simp [sps, pps]

@[simp] theorem learn_disableStapa (p : H264Payloader) (nalu : List UInt8) :
    (p.learn nalu).disableStapa = p.disableStapa := by
  unfold learn
  split
  · rfl
  split
  · rfl
  split <;> rfl

end H264Payloader

namespace Sender

def sent (trace : List Transmission) : List Nat := trace.flatMap Transmission.numbers

def Fresh (before : List Transmission) (t : Transmission) : Prop :=
  t.numbers.Nodup ∧ ∀ number ∈ t.numbers, number ∉ sent before

/-- A unit is stored only when it has been transmitted, and only cut slices are. -/
structure Stored (trace : List Transmission) (s : Sender) : Prop where
  enabled : s.payloader.disableStapa = false
  sps : s.payloader.spsNalu ≠ [] → s.spsFrom ∈ sent trace
  pps : s.payloader.ppsNalu ≠ [] → s.ppsFrom ∈ sent trace
  below : ∀ number ∈ sent trace, number < s.count

@[simp] theorem sent_append (trace more : List Transmission) : sent (trace ++ more) = sent trace ++ sent more :=
  List.flatMap_append

/-- A stored unit is the one just sent, or it was sent before. -/
theorem mem_sent_kept {trace : List Transmission} {count first : Nat} (stored : old ≠ [] → first ∈ sent trace)
    (kept : (if naluType nalu = kind then nalu else old) ≠ []) :
    (if naluType nalu = kind then count else first) ∈ sent trace ++ [count] := by
  by_cases new : naluType nalu = kind
  · rw [if_pos new]
    exact List.mem_append_right _ List.mem_cons_self
  · rw [if_neg new] at kept ⊢
    exact List.mem_append_left _ (stored kept)

theorem Stored.step {trace : List Transmission} {s : Sender} (stored : Stored trace s) (arrival : Arrival) :
    Stored (trace ++ (s.emit arrival).2) (s.emit arrival).1 := by
  by_cases empty : arrival.2 = []
  · rw [s.emit_empty empty, List.append_nil]
    exact { stored with below := fun number member => Nat.lt_succ_of_lt (stored.below number member) }
  by_cases joins : s.Joins arrival
  · rw [s.emit_joins joins]
    obtain ⟨-, -, -, some, some', -⟩ := joins
    refine ⟨stored.enabled, fun kept => absurd rfl kept, fun kept => absurd rfl kept, ?_⟩
    intro number member
    have first := stored.below _ (stored.sps some)
    have second := stored.below _ (stored.pps some')
    simp only [sent_append, List.mem_append] at member
    rcases member with before | now
    · exact Nat.lt_succ_of_lt (stored.below number before)
    · simp only [sent, List.flatMap_singleton, Transmission.numbers, List.mem_cons, List.not_mem_nil, or_false] at now
      rcases now with rfl | rfl | rfl
      · exact Nat.lt_succ_of_lt first
      · exact Nat.lt_succ_of_lt second
      · exact Nat.lt_succ_self _
  · rw [s.emit_alone empty joins]
    have added : sent (trace ++ [.alone arrival.1 ⟨s.count, arrival.2⟩]) = sent trace ++ [s.count] := by
      simp [sent, Transmission.numbers]
    refine ⟨(s.payloader.learn_disableStapa arrival.2).trans stored.enabled, ?_, ?_, ?_⟩
    · simp only [keep, s.payloader.learn_enabled stored.enabled, added]
      exact mem_sent_kept stored.sps
    · simp only [keep, s.payloader.learn_enabled stored.enabled, added]
      exact mem_sent_kept stored.pps
    · intro number member
      rw [added, List.mem_append, List.mem_singleton] at member
      rcases member with before | rfl
      · exact Nat.lt_succ_of_lt (stored.below number before)
      · exact Nat.lt_succ_self _

/-- What one slice adds is new exactly when it joins nothing. -/
theorem Stored.fresh_iff {trace : List Transmission} {s : Sender} (stored : Stored trace s) (arrival : Arrival) :
    Licensed (fun before t => Fresh (trace ++ before) t) (s.emit arrival).2 ↔ ¬ s.Joins arrival := by
  by_cases empty : arrival.2 = []
  · rw [s.emit_empty empty]
    exact iff_of_true Licensed.nil fun joins => joins.1 empty
  by_cases joins : s.Joins arrival
  · rw [s.emit_joins joins, licensed_singleton, List.append_nil]
    refine iff_of_false ?_ (not_not_intro joins)
    rintro ⟨-, fresh⟩
    obtain ⟨-, -, -, some, -⟩ := joins
    exact fresh s.spsFrom List.mem_cons_self (stored.sps some)
  · rw [s.emit_alone empty joins, licensed_singleton, List.append_nil]
    refine iff_of_true ⟨List.nodup_singleton _, ?_⟩ joins
    intro number member
    obtain rfl := List.mem_singleton.mp member
    exact fun before => Nat.lt_irrefl _ (stored.below _ before)

theorem nodup_iff (s : Sender) (stored : Stored [] s) (inputs : List Arrival) :
    (sent (run emit s inputs).2).Nodup ↔
      Licensed (fun past arrival => ¬ (run emit s past).1.Joins arrival) inputs := by
  refine (nodup_flatMap_iff Transmission.numbers).trans ?_
  exact licensed_run_iff Stored (fun s arrival => ¬ s.Joins arrival)
    (fun _ _ arrival stored => stored.step arrival) (fun _ _ arrival stored => stored.fresh_iff arrival) stored inputs

end Sender

def latest (kind : UInt8) (past : List Arrival) : Option (List UInt8) :=
  ((past.map Prod.snd).filter (naluType · = kind)).getLast?

theorem latest_concat (kind : UInt8) (past : List Arrival) (arrival : Arrival) :
    latest kind (past ++ [arrival]) = if naluType arrival.2 = kind then some arrival.2 else latest kind past := by
  unfold latest
  rw [List.map_append, List.filter_append]
  by_cases same : naluType arrival.2 = kind
  · simp [same]
  · simp [same]

theorem latest_ne_nil (parameters : kind ≠ 0) (found : latest kind past = some nalu) : nalu ≠ [] := by
  rintro rfl
  have member := List.mem_of_getLast? found
  have same := of_decide_eq_true (List.mem_filter.mp member).2
  exact parameters same.symm

/-- The slice is sent while an SPS and a PPS have been seen that fit into one packet with
it. AUD and filler units, SPS and PPS do not count. -/
def Repeats (past : List Arrival) (arrival : Arrival) : Prop :=
  arrival.2 ≠ [] ∧ Ordinary arrival.2 ∧ ∃ sps pps, latest spsNaluType past = some sps ∧
    latest ppsNaluType past = some pps ∧ stapaSize sps pps arrival.2 ≤ arrival.1.toNat

namespace Sender

/-- What is stored as long as nothing has been aggregated. -/
structure Tracks (past : List Arrival) (s : Sender) : Prop where
  enabled : s.payloader.disableStapa = false
  sps : s.payloader.spsNalu = (latest spsNaluType past).getD []
  pps : s.payloader.ppsNalu = (latest ppsNaluType past).getD []

theorem Tracks.joins_iff {past : List Arrival} {s : Sender} (tracks : Tracks past s) (arrival : Arrival) :
    s.Joins arrival ↔ Repeats past arrival := by
  unfold Joins Repeats H264Payloader.Aggregates
  rw [tracks.enabled, tracks.sps, tracks.pps]
  refine and_congr_right fun _ => and_congr_right fun _ => ?_
  cases sps : latest spsNaluType past with
  | none => simp
  | some first =>
    cases pps : latest ppsNaluType past with
    | none => simp
    | some second =>
      have some := latest_ne_nil (by decide) sps
      have some' := latest_ne_nil (by decide) pps
      simp [some, some']

theorem Tracks.step {past : List Arrival} {s : Sender} (tracks : Tracks past s) (arrival : Arrival)
    (apart : ¬ s.Joins arrival) : Tracks (past ++ [arrival]) (s.emit arrival).1 := by
  by_cases empty : arrival.2 = []
  · have plain : naluType arrival.2 = 0 := by
      rw [empty]
      rfl
    rw [s.emit_empty empty]
    refine ⟨tracks.enabled, ?_, ?_⟩
    · rw [latest_concat, if_neg (by rw [plain]; decide)]
      exact tracks.sps
    · rw [latest_concat, if_neg (by rw [plain]; decide)]
      exact tracks.pps
  · rw [s.emit_alone empty apart]
    refine ⟨(s.payloader.learn_disableStapa arrival.2).trans tracks.enabled, ?_, ?_⟩
    · rw [latest_concat, keep, s.payloader.learn_enabled tracks.enabled, tracks.sps, apply_ite (Option.getD · [])]
      rfl
    · rw [latest_concat, keep, s.payloader.learn_enabled tracks.enabled, tracks.pps, apply_ite (Option.getD · [])]
      rfl

/-- Up to the first aggregate the stored units are the latest ones, so the first aggregate
can be told from the slices alone. -/
theorem licensed_joins_iff (s : Sender) (tracks : Tracks [] s) (inputs : List Arrival) :
    Licensed (fun past arrival => ¬ (run emit s past).1.Joins arrival) inputs ↔
      Licensed (fun past arrival => ¬ Repeats past arrival) inputs := by
  induction inputs using List.reverseRecOn with
  | nil => simp
  | append_singleton inputs arrival ih =>
    rw [licensed_concat, licensed_concat, ← ih]
    refine and_congr_right fun apart => not_congr ?_
    have now : Tracks inputs (run emit s inputs).1 :=
      run_history_of (fun past _ => Tracks past) (fun _ s arrival => ¬ s.Joins arrival)
        (fun _ _ _ arrival tracks apart => tracks.step arrival apart) tracks inputs apart
    exact now.joins_iff arrival

end Sender

/-- With STAP-A enabled every call succeeds and its packets are the transmissions, and no
slice is transmitted twice exactly when no slice ever completes an aggregate: a stored
SPS or PPS has already been sent by itself. -/
theorem sent_once_iff (isAvc : Bool) (calls : List (UInt16 × List UInt8))
    (room : ∀ call ∈ calls, 3 ≤ call.1.toNat) :
    (∃ q outputs groups,
      runM (fun p call => p.payload call.1 call.2) ({ isAvc } : H264Payloader) calls = .ok (q, outputs) ∧
        List.Forall₂ Transmission.Carries (transmissions { isAvc } calls) groups ∧
        outputs.flatten = groups.flatten) ∧
    ((∀ number, ((transmissions { isAvc } calls).flatMap Transmission.numbers).count number ≤ 1) ↔
      Licensed (fun past arrival => ¬ Repeats past arrival) (arrivals calls)) := by
  refine ⟨payload_sent calls room { payloader := { isAvc } }, ?_⟩
  have stored : Sender.Stored [] { payloader := { isAvc } } :=
    ⟨rfl, fun some => absurd rfl some, fun some => absurd rfl some, by simp [Sender.sent]⟩
  rw [← List.nodup_iff_count_le_one, ← Sender.licensed_joins_iff { payloader := { isAvc } } ⟨rfl, rfl, rfl⟩,
    ← Sender.nodup_iff _ stored]
  rfl

def parameterSetStream : List UInt8 := [0, 0, 1, 0x67, 0, 0, 1, 0x68, 0, 0, 1, 0x65]

theorem sent_once_iff_parameterSets :
    (∃ q outputs groups,
      runM (fun p call => p.payload call.1 call.2) ({ isAvc := false } : H264Payloader)
          [(1200, parameterSetStream)] = .ok (q, outputs) ∧
        List.Forall₂ Transmission.Carries (transmissions { isAvc := false } [(1200, parameterSetStream)]) groups ∧
        outputs.flatten = groups.flatten) ∧
    ((∀ number, ((transmissions { isAvc := false } [(1200, parameterSetStream)]).flatMap
        Transmission.numbers).count number ≤ 1) ↔
      Licensed (fun past arrival => ¬ Repeats past arrival) (arrivals [(1200, parameterSetStream)])) :=
  sent_once_iff false [(1200, parameterSetStream)] (by decide)

/-- The SPS goes out by itself and again in the aggregate. -/
theorem parameter_set_sent_twice :
    ({} : H264Payloader).payload 1200 parameterSetStream =
      .ok ({}, [[0x67], [0x68], [0x78, 0, 1, 0x67, 0, 1, 0x68, 0, 1, 0x65]]) ∧
    ((transmissions {} [(1200, parameterSetStream)]).flatMap Transmission.numbers).count 0 = 2 := by
  constructor
  · rfl
  · decide

end WebTransport.H264

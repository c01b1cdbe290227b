import WebTransport.H264.Packet
import Mathlib.Data.List.DropRight

/-! FU-A reassembly over arbitrary histories of payloads. The buffer holds the data of
all FU-A packets since the last End packet. It is not reset at a Start packet, so a
unit comes out whole exactly when nothing of another unit was left before its start. -/
namespace WebTransport.H264

open Loop

namespace H264Packet

def sinceEnd (history : List Fragment) : List Fragment := history.rtakeWhile (!·.last)

def splitAtStart : List Fragment → Option (List Fragment × List Fragment)
  | [] => none
  | f :: rest =>
    match splitAtStart rest with
    | some (lost, unit) => some (f :: lost, unit)
    | none => if f.start then some ([], f :: rest) else none

theorem splitAtStart_none : splitAtStart fragments = none ↔ ∀ f ∈ fragments, f.start = false := by
  induction fragments with
  | nil => simp [splitAtStart]
  | cons f rest ih =>
    rw [splitAtStart]
    cases h : splitAtStart rest with
    | none =>
      have others := ih.mp h
      cases start : f.start <;> simp_all
    | some parts =>
      have some : ¬ ∀ g ∈ rest, g.start = false := fun none => by simp [ih.mpr none] at h
      simp only [reduceCtorEq, List.mem_cons, forall_eq_or_imp, false_iff, not_and]
      exact fun _ => some

theorem splitAtStart_some (split : splitAtStart fragments = some (lost, unit)) :
    fragments = lost ++ unit ∧
      ∃ f rest, unit = f :: rest ∧ f.start = true ∧ ∀ g ∈ rest, g.start = false := by
  induction fragments generalizing lost unit with
  | nil => simp [splitAtStart] at split
  | cons f rest ih =>
    rw [splitAtStart] at split
    cases h : splitAtStart rest with
    | none =>
      simp only [h] at split
      split at split
      · rename_i start
        obtain ⟨rfl, rfl⟩ := Prod.mk.inj (Option.some.inj split)
        exact ⟨rfl, f, rest, rfl, start, splitAtStart_none.mp h⟩
      · cases split
    | some parts =>
      obtain ⟨lost', unit'⟩ := parts
      simp only [h, Option.some.injEq, Prod.mk.injEq] at split
      obtain ⟨rfl, rfl⟩ := split
      obtain ⟨joined, head⟩ := ih h
      exact ⟨by rw [joined, List.cons_append], head⟩

/-- What the output of an End packet should be, from the fragments since the previous
End packet and including it: a unit whose body is the data from the most recent Start
on, or nothing. -/
def Reassembled (p : H264Packet) (group : List Fragment) (output : List UInt8) : Prop :=
  output ≠ [] → ∃ lost unit, splitAtStart group = some (lost, unit) ∧
    ∃ header, output = p.doPackaging [] (header :: unit.flatMap (·.data))

/-- A Start was received since the previous End packet, and what came before the most
recent one is empty. -/
def StartsClean (group : List Fragment) : Prop :=
  ∃ lost unit, splitAtStart group = some (lost, unit) ∧ ∀ f ∈ lost, f.data = []

def NeverMixes (p : H264Packet) (payloads : List (List UInt8)) : Prop :=
  ∀ before payload after f, payloads = before ++ payload :: after →
    fragment? payload = some f → f.last = true →
    ∃ q results r error output, Machine.runM receive p before = .ok (q, results) ∧
      q.receive payload = .ok (r, (error, output)) ∧
      Reassembled p (sinceEnd (before.filterMap fragment?) ++ [f]) output

theorem doPackaging_inj (p : H264Packet) (same : p.doPackaging [] a = p.doPackaging [] b) : a = b := by
  cases avc : p.isAvc
  · simpa [doPackaging, avc] using same
  · simp only [doPackaging, avc, if_true] at same
    exact (List.append_inj same rfl).2

def holding (isAvc : Bool) (history : List Fragment) : H264Packet :=
  ⟨isAvc, (sinceEnd history).flatMap (·.data)⟩

theorem receive_holding (isAvc : Bool) (history : List Fragment) (payload : List UInt8) :
    ∃ result, (holding isAvc history).receive payload =
      .ok (holding isAvc (history ++ (fragment? payload).toList), result) := by
  cases fua : fragment? payload with
  | none =>
    obtain ⟨result, run⟩ := receive_other (holding isAvc history) payload fua
    exact ⟨result, by rw [run, Option.toList_none, List.append_nil]⟩
  | some f =>
    have call := receive_fragment? (holding isAvc history) fua
    cases last : f.last with
    | true =>
      rw [if_pos last] at call
      obtain ⟨header, run⟩ := call
      have emptied : sinceEnd (history ++ [f]) = [] :=
        List.rtakeWhile_concat_neg _ _ _ (by simp [last])
      exact ⟨_, by rw [run, holding, holding, Option.toList_some, emptied]; rfl⟩
    | false =>
      rw [if_neg (by simp [last])] at call
      have extended : sinceEnd (history ++ [f]) = sinceEnd history ++ [f] :=
        List.rtakeWhile_concat_pos _ _ _ (by simp [last])
      refine ⟨(.ok, []), ?_⟩
      rw [call, Option.toList_some]
      simp [holding, extended]

theorem run_holding (isAvc : Bool) (payloads : List (List UInt8)) :
    ∃ results, Machine.runM receive { isAvc } payloads =
      .ok (holding isAvc (payloads.filterMap fragment?), results) := by
  induction payloads using List.reverseRecOn with
  | nil => exact ⟨[], rfl⟩
  | append_singleton payloads payload ih =>
    obtain ⟨results, run⟩ := ih
    obtain ⟨result, now⟩ := receive_holding isAvc (payloads.filterMap fragment?) payload
    refine ⟨results ++ [result], ?_⟩
    have more : (payloads ++ [payload]).filterMap fragment? =
        payloads.filterMap fragment? ++ (fragment? payload).toList := by
      rw [List.filterMap_append]
      cases fua : fragment? payload <;> simp [fua]
    rw [more, Machine.runM_append_ok run (Machine.runM_cons_ok now (Machine.runM_nil _))]

/-- An End packet outputs everything its group carried, its start or not. -/
theorem receive_end (isAvc : Bool) (history : List Fragment) (fua : fragment? payload = some f)
    (last : f.last = true) :
    ∃ r header, (holding isAvc history).receive payload = .ok (r, (.ok,
      H264Packet.doPackaging { isAvc } [] (header :: (sinceEnd history ++ [f]).flatMap (·.data)))) := by
  have call := receive_fragment? (holding isAvc history) fua
  rw [if_pos last] at call
  obtain ⟨header, run⟩ := call
  refine ⟨{ isAvc }, header, ?_⟩
  rw [run, doPackaging_congr (holding isAvc history) { isAvc } rfl]
  simp [holding]

/-- Such an output is the right one exactly when the group starts clean. -/
theorem reassembled_iff (p : H264Packet) (group : List Fragment) (header : UInt8) :
    Reassembled p group (p.doPackaging [] (header :: group.flatMap (·.data))) ↔ StartsClean group := by
  constructor
  · intro right
    obtain ⟨lost, unit, split, header', same⟩ := right (doPackaging_ne_nil p _)
    refine ⟨lost, unit, split, ?_⟩
    have bodies := (List.cons.inj (doPackaging_inj p same)).2
    rw [(splitAtStart_some split).1, List.flatMap_append] at bodies
    exact List.flatMap_eq_nil_iff.mp (List.append_left_eq_self.mp bodies)
  · rintro ⟨lost, unit, split, empty⟩ _
    refine ⟨lost, unit, split, header, ?_⟩
    rw [(splitAtStart_some split).1, List.flatMap_append, List.flatMap_eq_nil_iff.mpr empty,
      List.nil_append]

end H264Packet

/-- A run never mixes units exactly when every End packet ends a group of fragments
that starts clean. -/
theorem fua_never_mixes_iff (isAvc : Bool) (payloads : List (List UInt8)) :
    H264Packet.NeverMixes { isAvc } payloads ↔
      ∀ before payload after f, payloads = before ++ payload :: after →
        H264Packet.fragment? payload = some f → f.last = true →
        H264Packet.StartsClean
          (H264Packet.sinceEnd (before.filterMap H264Packet.fragment?) ++ [f]) := by
  unfold H264Packet.NeverMixes
  refine forall_congr' fun before => forall_congr' fun payload => forall_congr' fun after =>
    forall_congr' fun f => imp_congr_right fun _ => imp_congr_right fun fua =>
    imp_congr_right fun last => ?_
  obtain ⟨results, run⟩ := H264Packet.run_holding isAvc before
  obtain ⟨r, header, now⟩ := H264Packet.receive_end isAvc (before.filterMap H264Packet.fragment?) fua last
  rw [← H264Packet.reassembled_iff { isAvc } _ header]
  constructor
  · rintro ⟨q, results', r', error, output, run', now', right⟩
    obtain ⟨rfl, _⟩ := Prod.mk.inj (Except.ok.inj (run.symm.trans run'))
    obtain ⟨_, result⟩ := Prod.mk.inj (Except.ok.inj (now.symm.trans now'))
    rw [(Prod.mk.inj result).2]
    exact right
  · exact fun right => ⟨_, results, r, .ok, _, run, now, right⟩

/-- The End packet of the first unit is lost: its start fragment comes out in front of
the second unit. -/
theorem lost_end_mixes :
    ¬ H264Packet.NeverMixes {} [[0x7C, 0x85, 0x01], [0x7C, 0x81, 0x02], [0x7C, 0x41, 0x03]] := by
  intro never
  obtain ⟨q, results, r, error, output, run, now, right⟩ :=
    never [[0x7C, 0x85, 0x01], [0x7C, 0x81, 0x02]] [0x7C, 0x41, 0x03] [] ⟨false, true, [0x03]⟩ rfl
      (by decide +kernel) rfl
  have state : Machine.runM H264Packet.receive {} [[0x7C, 0x85, 0x01], [0x7C, 0x81, 0x02]] =
      .ok (⟨false, [0x01, 0x02]⟩, [(.ok, []), (.ok, [])]) := by decide +kernel
  have call : H264Packet.receive ⟨false, [0x01, 0x02]⟩ [0x7C, 0x41, 0x03] =
      .ok ({}, (.ok, [0, 0, 0, 1, 0x61, 0x01, 0x02, 0x03])) := by decide +kernel
  obtain ⟨rfl, _⟩ := Prod.mk.inj (Except.ok.inj (state.symm.trans run))
  obtain ⟨rfl, result⟩ := Prod.mk.inj (Except.ok.inj (call.symm.trans now))
  obtain ⟨rfl, rfl⟩ := Prod.mk.inj result
  obtain ⟨lost, unit, split, header, same⟩ := right (by simp)
  have group : H264Packet.splitAtStart (H264Packet.sinceEnd
      ([[0x7C, 0x85, 0x01], [0x7C, 0x81, 0x02]].filterMap H264Packet.fragment?) ++ [⟨false, true, [0x03]⟩]) =
      some ([⟨true, false, [0x01]⟩], [⟨true, false, [0x02]⟩, ⟨false, true, [0x03]⟩]) := by
    decide +kernel
  obtain ⟨rfl, rfl⟩ := Prod.mk.inj (Option.some.inj (group.symm.trans split))
  have lengths := congrArg List.length same
  simp [H264Packet.doPackaging, annexbNaluStartCode] at lengths

end WebTransport.H264

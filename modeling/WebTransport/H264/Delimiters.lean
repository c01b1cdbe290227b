import WebTransport.H264.Repeats

/-! Access unit delimiters and filler. The branch that is to skip them does not leave the
loop body, so they are sent like any other unit; they are never stored, so that is the
only way in which they are sent. -/
namespace WebTransport.H264

open Loop Machine

def IsDelimiter (nalu : List UInt8) : Prop := naluType nalu = audNaluType ∨ naluType nalu = fillerNaluType

instance (nalu : List UInt8) : Decidable (IsDelimiter nalu) := inferInstanceAs (Decidable (_ ∨ _))

def Transmission.units : Transmission → List Slice
  | .alone _ unit => [unit]
  | .aggregate sps pps unit => [sps, pps, unit]

/-- A call of `Payload`, and the STAP-A switch as it is set before the call. -/
structure PayloadCall where
  disable : Bool
  mtu : UInt16
  stream : List UInt8
  deriving DecidableEq, Repr

def H264Payloader.serve (p : H264Payloader) (call : PayloadCall) :
    Except Fault (H264Payloader × List (List UInt8)) :=
  (p.disableSTAPA call.disable).payload call.mtu call.stream

namespace Sender

def serve (s : Sender) (call : PayloadCall) : Sender × List Transmission :=
  run emit { s with payloader := s.payloader.disableSTAPA call.disable } ((slices call.stream).map (call.mtu, ·))

theorem serve_sent (s : Sender) (call : PayloadCall) (room : 3 ≤ call.mtu.toNat) :
    ∃ groups, List.Forall₂ Transmission.Carries (s.serve call).2 groups ∧
      s.payloader.serve call = .ok ((s.serve call).1.payloader, groups.flatten) :=
  payload_sent { s with payloader := s.payloader.disableSTAPA call.disable } (call.mtu, call.stream) room

structure Clean (s : Sender) : Prop where
  sps : ¬ IsDelimiter s.payloader.spsNalu
  pps : ¬ IsDelimiter s.payloader.ppsNalu

end Sender

theorem isDelimiter_nil : ¬ IsDelimiter [] := by decide

theorem Ordinary.not_delimiter (ordinary : Ordinary nalu) : ¬ IsDelimiter nalu := by
  intro delimiter
  apply ordinary
  rcases delimiter with aud | filler
  · simp [aud]
  · simp [filler]

theorem not_delimiter_of_type (kind : naluType nalu = spsNaluType ∨ naluType nalu = ppsNaluType) : ¬ IsDelimiter nalu := by
  unfold IsDelimiter
  rcases kind with sps | pps
  · rw [sps]
    decide
  · rw [pps]
    decide

namespace Sender

/-- Only slices of the two parameter types are kept. -/
theorem Clean.keep {s : Sender} (clean : Clean s) (nalu : List UInt8) : Clean (s.keep nalu) := by
  unfold Sender.keep H264Payloader.learn
  split
  · exact ⟨clean.sps, clean.pps⟩
  split
  · rename_i sps
    exact ⟨not_delimiter_of_type (.inl sps), clean.pps⟩
  split
  · rename_i pps
    exact ⟨clean.sps, not_delimiter_of_type (.inr pps)⟩
  · exact ⟨clean.sps, clean.pps⟩

theorem Clean.step {s : Sender} (clean : Clean s) (arrival : Arrival) : Clean (s.emit arrival).1 := by
  by_cases empty : arrival.2 = []
  · rw [s.emit_empty empty]
    exact ⟨clean.sps, clean.pps⟩
  by_cases joins : s.Joins arrival
  · rw [s.emit_joins joins]
    exact ⟨isDelimiter_nil, isDelimiter_nil⟩
  · rw [s.emit_alone empty joins]
    exact clean.keep arrival.2

/-- One slice puts a delimiter on the wire exactly when it is one. -/
theorem Clean.emits_iff {s : Sender} (clean : Clean s) (arrival : Arrival) :
    (∀ t ∈ (s.emit arrival).2, ∀ unit ∈ t.units, ¬ IsDelimiter unit.bytes) ↔ ¬ IsDelimiter arrival.2 := by
  by_cases empty : arrival.2 = []
  · rw [s.emit_empty empty, empty]
    exact iff_of_true (by simp) isDelimiter_nil
  by_cases joins : s.Joins arrival
  · have plain := joins.2.1.not_delimiter
    rw [s.emit_joins joins]
    refine iff_of_true ?_ plain
    simp [Transmission.units, spsSlice, ppsSlice, clean.sps, clean.pps, plain]
  · rw [s.emit_alone empty joins]
    simp [Transmission.units]

theorem Clean.serve {s : Sender} (clean : Clean s) (call : PayloadCall) : Clean (s.serve call).1 := by
  apply run_invariant Clean
  · exact fun _ arrival clean => clean.step arrival
  · exact ⟨clean.sps, clean.pps⟩

theorem Clean.serves_iff {s : Sender} (clean : Clean s) (call : PayloadCall) :
    (∀ t ∈ (s.serve call).2, ∀ unit ∈ t.units, ¬ IsDelimiter unit.bytes) ↔
      ∀ nalu ∈ slices call.stream, ¬ IsDelimiter nalu := by
  have start : Clean { s with payloader := s.payloader.disableSTAPA call.disable } := ⟨clean.sps, clean.pps⟩
  refine (run_forall_iff Clean (fun _ arrival clean => clean.step arrival)
    (fun _ arrival clean => clean.emits_iff arrival) start _).trans ?_
  exact List.forall_mem_map

end Sender

/-- Every call succeeds and its packets are the transmissions, whatever the switch is set to,
and no delimiter is transmitted exactly when no slice of any call is one. -/
theorem delimiters_sent_iff (isAvc : Bool) (calls : List PayloadCall) (room : ∀ call ∈ calls, 3 ≤ call.mtu.toNat) :
    (∃ q outputs groups, runM H264Payloader.serve { isAvc } calls = .ok (q, outputs) ∧
      List.Forall₂ Transmission.Carries (run Sender.serve { payloader := { isAvc } } calls).2 groups ∧
      outputs.flatten = groups.flatten) ∧
    ((∀ t ∈ (run Sender.serve { payloader := { isAvc } } calls).2, ∀ unit ∈ t.units, ¬ IsDelimiter unit.bytes) ↔
      ∀ call ∈ calls, ∀ nalu ∈ slices call.stream, ¬ IsDelimiter nalu) := by
  constructor
  · obtain ⟨outputs, groups, sent, carried, same⟩ :=
      runM_tracks Sender.payloader H264Payloader.serve Sender.serve Sender.serve_sent { payloader := { isAvc } } calls room
    exact ⟨_, outputs, groups, sent, carried, same⟩
  · have start : Sender.Clean { payloader := { isAvc } } := ⟨isDelimiter_nil, isDelimiter_nil⟩
    exact run_forall_iff Sender.Clean (fun _ call clean => clean.serve call)
      (fun _ call clean => clean.serves_iff call) start calls

def delimitedStream : List UInt8 := [0, 0, 1, 0x09, 0xF0, 0, 0, 1, 0x65]

theorem delimiters_sent_iff_delimited :
    (∃ q outputs groups, runM H264Payloader.serve { isAvc := false } [⟨false, 1200, delimitedStream⟩] = .ok (q, outputs) ∧
      List.Forall₂ Transmission.Carries
        (run Sender.serve { payloader := { isAvc := false } } [⟨false, 1200, delimitedStream⟩]).2 groups ∧
      outputs.flatten = groups.flatten) ∧
    ((∀ t ∈ (run Sender.serve { payloader := { isAvc := false } } [⟨false, 1200, delimitedStream⟩]).2,
        ∀ unit ∈ t.units, ¬ IsDelimiter unit.bytes) ↔
      ∀ call ∈ [(⟨false, 1200, delimitedStream⟩ : PayloadCall)], ∀ nalu ∈ slices call.stream, ¬ IsDelimiter nalu) :=
  delimiters_sent_iff false [⟨false, 1200, delimitedStream⟩] (by decide)

/-- The delimiter goes out as the first packet. -/
theorem delimiter_sent : slices delimitedStream = [[0x09, 0xF0], [0x65]] ∧ IsDelimiter [0x09, 0xF0] ∧
    ({} : H264Payloader).payload 1200 delimitedStream = .ok ({}, [[0x09, 0xF0], [0x65]]) := by
  refine ⟨by decide +kernel, by decide, rfl⟩

end WebTransport.H264

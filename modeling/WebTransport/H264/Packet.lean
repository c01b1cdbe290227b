import WebTransport.Theory.Bytes
import WebTransport.Theory.Loop
import WebTransport.Theory.Machine
import Mathlib.Data.FinEnum

/-! The H.264 depacketizer `H264Packet`: single NAL units, STAP-A aggregates and FU-A
fragments. Reads of the payload are checked; `doPackaging` and the fragmentation
buffer work on whole byte strings. -/
namespace WebTransport.H264

open Loop BigEndian

inductive H264PacketError where
  | ok
  | nilPacket
  | shortPacket
  | unhandledNaluType
  deriving DecidableEq, Repr

def naluTypeBitmask : UInt8 := 0x1F
def naluRefIdcBitmask : UInt8 := 0x60
def fuStartBitmask : UInt8 := 0x80
def fuEndBitmask : UInt8 := 0x40

def stapaNaluType : UInt8 := 24
def fuaNaluType : UInt8 := 28
def fubNaluType : UInt8 := 29
def spsNaluType : UInt8 := 7
def ppsNaluType : UInt8 := 8
def audNaluType : UInt8 := 9
def fillerNaluType : UInt8 := 12

def fuaHeaderSize : Nat := 2
def stapaHeaderSize : Nat := 1
def stapaNaluLengthSize : Nat := 2

def annexbNaluStartCode : List UInt8 := [0x00, 0x00, 0x00, 0x01]
def naluStartCode : List UInt8 := [0x00, 0x00, 0x01]

/-- The case labels of `ParseBody` that share the single-unit branch. -/
def singleNaluTypes : List UInt8 := [1, 2, 3, 4, 5, 6, 7, 8, 9, 10, 11, 12, 19, 20, 21, 22, 23]

structure H264Packet where
  isAvc : Bool := false
  fuaBuffer : List UInt8 := []
  deriving DecidableEq, Repr

namespace H264Packet

def setAVC (p : H264Packet) (isAvc : Bool) : H264Packet := { p with isAvc }

/-- Only FU-A and FU-B packets carry a start bit; everything else is a head. -/
def isPartitionHead (payload : List UInt8) : Except Fault Bool :=
  if payload.length < 2 then .ok false
  else do
    let naluType := (← readAt payload 0) &&& naluTypeBitmask
    if naluType = fuaNaluType ∨ naluType = fubNaluType then
      .ok (((← readAt payload 1) &&& fuStartBitmask) != 0)
    else .ok true

def doPackaging (p : H264Packet) (buffer nalu : List UInt8) : List UInt8 :=
  if p.isAvc then
    let length := UInt32.ofNat nalu.length
    buffer ++ [((length >>> 24) &&& 0xFF).toUInt8, ((length >>> 16) &&& 0xFF).toUInt8,
      ((length >>> 8) &&& 0xFF).toUInt8, (length &&& 0xFF).toUInt8] ++ nalu
  else buffer ++ annexbNaluStartCode ++ nalu

def stapaPass (p : H264Packet) (payload : List UInt8) (s : Nat × List UInt8) :
    Except Fault (Pass (Nat × List UInt8) (H264PacketError × List UInt8)) :=
  let (currentOffset, output) := s
  if currentOffset < payload.length then
    if currentOffset + stapaNaluLengthSize > payload.length then .ok (.leave (.ok, output))
    else do
      let hi ← readAt payload currentOffset
      let lo ← readAt payload (currentOffset + 1)
      let naluSize := (join16 hi lo).toNat
      let currentOffset := currentOffset + stapaNaluLengthSize
      if currentOffset + naluSize > payload.length then .ok (.leave (.shortPacket, output))
      else
        let nalu ← slice payload currentOffset naluSize
        .ok (.again (currentOffset + naluSize, p.doPackaging output nalu))
  else .ok (.leave (.ok, output))

/-- The FU-A branch: every fragment is appended, an End fragment also completes. -/
def parseFUA (p : H264Packet) (payload output : List UInt8) :
    Except Fault (H264PacketError × H264Packet × List UInt8) :=
  if payload.length < fuaHeaderSize then .ok (.shortPacket, p, output)
  else do
    let indicator ← readAt payload 0
    let header ← readAt payload 1
    let data ← slice payload fuaHeaderSize (payload.length - fuaHeaderSize)
    let fuaBuffer := p.fuaBuffer ++ data
    if header &&& fuEndBitmask ≠ 0 then
      let naluRefIdc := indicator &&& naluRefIdcBitmask
      let fragmentedNaluType := header &&& naluTypeBitmask
      let completeNalu := (naluRefIdc ||| fragmentedNaluType) :: fuaBuffer
      .ok (.ok, { p with fuaBuffer := [] }, p.doPackaging output completeNalu)
    else .ok (.ok, { p with fuaBuffer := fuaBuffer }, output)

/-- The third component is the output vector, cleared once a byte is known to be there. -/
def parseBody (p : H264Packet) (payload output : List UInt8) :
    Except Fault (H264PacketError × H264Packet × List UInt8) :=
  if payload.length < 1 then .ok (.shortPacket, p, output)
  else do
    let output := []
    let naluType := (← readAt payload 0) &&& naluTypeBitmask
    if naluType ∈ singleNaluTypes then .ok (.ok, p, p.doPackaging output payload)
    else if naluType = stapaNaluType then
      let (error, output) ← loop (stapaPass p payload) (payload.length + 1) (stapaHeaderSize, output)
      .ok (error, p, output)
    else if naluType = fuaNaluType then p.parseFUA payload output
    else .ok (.unhandledNaluType, p, output)

def unmarshal (p : H264Packet) (payload output : List UInt8) :
    Except Fault (H264PacketError × H264Packet × List UInt8) :=
  if payload.length = 0 then .ok (.nilPacket, p, output) else p.parseBody payload output

/-- A receiver's call: a new output vector for every payload. -/
def receive (p : H264Packet) (payload : List UInt8) :
    Except Fault (H264Packet × (H264PacketError × List UInt8)) := do
  let (error, p, output) ← p.unmarshal payload []
  .ok (p, (error, output))

def feed (p : H264Packet) (payloads : List (List UInt8)) :
    Except Fault (H264Packet × List UInt8) := do
  let (p, results) ← Machine.runM receive p payloads
  .ok (p, (results.map (·.2)).flatten)

variable {p q r : H264Packet} {payload : List UInt8} {rest first second : List (List UInt8)}

@[simp] theorem feed_nil (p : H264Packet) : p.feed [] = .ok (p, []) := rfl

theorem feed_cons (now : p.receive payload = .ok (q, result)) (later : q.feed rest = .ok (r, output)) :
    p.feed (payload :: rest) = .ok (r, result.2 ++ output) := by
  unfold feed at later ⊢
  cases run : Machine.runM receive q rest with
  | error fault => simp [run] at later
  | ok final =>
    obtain ⟨r', results⟩ := final
    simp only [run, ok_bind, Except.ok.injEq, Prod.mk.injEq] at later
    obtain ⟨rfl, rfl⟩ := later
    rw [Machine.runM_cons_ok now run]
    simp

theorem feed_append (left : p.feed first = .ok (q, output)) (right : q.feed second = .ok (r, more)) :
    p.feed (first ++ second) = .ok (r, output ++ more) := by
  unfold feed at left right ⊢
  cases run : Machine.runM receive p first with
  | error fault => simp [run] at left
  | ok middle =>
    obtain ⟨q', results⟩ := middle
    simp only [run, ok_bind, Except.ok.injEq, Prod.mk.injEq] at left
    obtain ⟨rfl, rfl⟩ := left
    cases run' : Machine.runM receive q' second with
    | error fault => simp [run'] at right
    | ok final =>
      obtain ⟨r', results'⟩ := final
      simp only [run', ok_bind, Except.ok.injEq, Prod.mk.injEq] at right
      obtain ⟨rfl, rfl⟩ := right
      rw [Machine.runM_append_ok run run']
      simp

/-- A packaging goes behind what the output holds, and it is never empty. -/
theorem doPackaging_append (p : H264Packet) (buffer nalu : List UInt8) :
    p.doPackaging buffer nalu = buffer ++ p.doPackaging [] nalu := by
  cases avc : p.isAvc <;> simp [doPackaging, avc]

theorem doPackaging_ne_nil (p : H264Packet) (nalu : List UInt8) : p.doPackaging [] nalu ≠ [] := by
  cases avc : p.isAvc <;> simp [doPackaging, avc, annexbNaluStartCode]

theorem doPackaging_annexB (p : H264Packet) (nalu : List UInt8) (annexB : p.isAvc = false) :
    p.doPackaging [] nalu = annexbNaluStartCode ++ nalu := by
  simp [doPackaging, annexB]

theorem doPackaging_avc (p : H264Packet) (buffer nalu : List UInt8) (avc : p.isAvc = true)
    (short : nalu.length < 2 ^ 32) :
    p.doPackaging buffer nalu = buffer ++ (toBytes 4 nalu.length ++ nalu) := by
  have length : (UInt32.ofNat nalu.length).toNat = nalu.length := UInt32.toNat_ofNat_of_lt' short
  have bytes := toBytes_split (UInt32.ofNat nalu.length)
  rw [length] at bytes
  rw [doPackaging, if_pos avc, bytes, List.append_assoc]

/-- Neither mode looks at the fragmentation buffer. -/
theorem doPackaging_congr (p q : H264Packet) (same : p.isAvc = q.isAvc) (buffer nalu : List UInt8) :
    p.doPackaging buffer nalu = q.doPackaging buffer nalu := by
  simp [doPackaging, same]

theorem fuaNaluType_not_single : fuaNaluType ∉ singleNaluTypes := by decide

theorem fuaNaluType_ne_stapa : fuaNaluType ≠ stapaNaluType := by decide

theorem stapaNaluType_not_single : stapaNaluType ∉ singleNaluTypes := by decide

theorem receive_single (p : H264Packet) (header : UInt8) (rest : List UInt8)
    (single : header &&& naluTypeBitmask ∈ singleNaluTypes) :
    p.receive (header :: rest) = .ok (p, (.ok, p.doPackaging [] (header :: rest))) := by
  simp [receive, unmarshal, parseBody, single]

theorem parseFUA_cons (p : H264Packet) (indicator header : UInt8) (data output : List UInt8) :
    p.parseFUA (indicator :: header :: data) output =
      if header &&& fuEndBitmask ≠ 0 then
        .ok (.ok, { p with fuaBuffer := [] }, p.doPackaging output
          ((indicator &&& naluRefIdcBitmask ||| header &&& naluTypeBitmask) :: (p.fuaBuffer ++ data)))
      else .ok (.ok, { p with fuaBuffer := p.fuaBuffer ++ data }, output) := by
  have long : ¬ (indicator :: header :: data).length < fuaHeaderSize := by
    simp only [List.length_cons, fuaHeaderSize]; omega
  have rest : slice (indicator :: header :: data) fuaHeaderSize
      ((indicator :: header :: data).length - fuaHeaderSize) = .ok data := by
    simpa [fuaHeaderSize] using slice_middle [indicator, header] data []
  simp only [parseFUA, if_neg long, rest]
  simp [readAt]

/-- The outcome of an FU-A packet, for any fragmentation buffer. -/
theorem receive_fua (p : H264Packet) (indicator header : UInt8) (data : List UInt8)
    (fua : indicator &&& naluTypeBitmask = fuaNaluType) :
    p.receive (indicator :: header :: data) =
      if header &&& fuEndBitmask ≠ 0 then
        .ok ({ p with fuaBuffer := [] }, (.ok, p.doPackaging []
          ((indicator &&& naluRefIdcBitmask ||| header &&& naluTypeBitmask) :: (p.fuaBuffer ++ data))))
      else .ok ({ p with fuaBuffer := p.fuaBuffer ++ data }, (.ok, [])) := by
  have body : p.parseBody (indicator :: header :: data) [] =
      p.parseFUA (indicator :: header :: data) [] := by
    simp [parseBody, fua, fuaNaluType_not_single, fuaNaluType_ne_stapa]
  by_cases last : header &&& fuEndBitmask = 0 <;>
    simp [receive, unmarshal, body, parseFUA_cons, last]

/-- Fewer than two bytes are left: the loop stops, a lone byte is ignored. -/
theorem stapaPass_stop (p : H264Packet) (output : List UInt8)
    (short : payload.length < offset + stapaNaluLengthSize) :
    p.stapaPass payload (offset, output) = .ok (.leave (.ok, output)) := by
  simp only [stapaPass, gt_iff_lt, short, if_true, ite_self]

/-- With a whole length field, the announced unit either runs past the payload or is
packaged and skipped. -/
theorem stapaPass_announced (p : H264Packet) (output : List UInt8)
    (whole : offset + stapaNaluLengthSize ≤ payload.length) :
    p.stapaPass payload (offset, output) =
      if offset + stapaNaluLengthSize + ofBytes ((payload.drop offset).take stapaNaluLengthSize) > payload.length then
        .ok (.leave (.shortPacket, output))
      else .ok (.again (offset + stapaNaluLengthSize + ofBytes ((payload.drop offset).take stapaNaluLengthSize),
        p.doPackaging output ((payload.drop (offset + stapaNaluLengthSize)).take
          (ofBytes ((payload.drop offset).take stapaNaluLengthSize))))) := by
  simp only [stapaNaluLengthSize] at whole ⊢
  have inside : offset < payload.length := by omega
  have next : offset + 1 < payload.length := by omega
  have size : (join16 payload[offset] payload[offset + 1]).toNat = ofBytes ((payload.drop offset).take 2) := by
    rw [join16_toNat, List.drop_eq_getElem_cons inside, List.drop_eq_getElem_cons next]
    rfl
  simp only [stapaPass, inside, stapaNaluLengthSize, if_true, gt_iff_lt, Nat.not_lt.mpr whole,
    if_false, readAt_of_lt inside, readAt_of_lt next, ok_bind, size]
  split
  · rfl
  · rw [slice_of_le (by omega), ok_bind]

theorem stapaPass_unit (p : H264Packet) (output : List UInt8)
    (whole : offset + stapaNaluLengthSize ≤ payload.length) :
    ∃ size, p.stapaPass payload (offset, output) =
      if offset + stapaNaluLengthSize + size > payload.length then
        .ok (.leave (.shortPacket, output))
      else .ok (.again (offset + stapaNaluLengthSize + size,
        p.doPackaging output ((payload.drop (offset + stapaNaluLengthSize)).take size))) :=
  ⟨_, p.stapaPass_announced output whole⟩

/-- The STAP-A loop ends inside the payload, whatever lengths the payload announces. -/
theorem stapa_total (p : H264Packet) (payload : List UInt8) (offset : Nat) (output : List UInt8) :
    ∃ result, loop (p.stapaPass payload) (payload.length + 1) (offset, output) = .ok result := by
  suffices ∃ result, loop (p.stapaPass payload) (payload.length + 1) (offset, output) = .ok result ∧
      True from this.imp fun _ run => run.1
  refine loop_total (fun _ => True) (fun _ => True) (fun s => payload.length - s.1) ?_ trivial
    (by simp only; omega)
  rintro ⟨offset, output⟩ _
  by_cases short : payload.length < offset + stapaNaluLengthSize
  · exact .inr ⟨_, stapaPass_stop p output short, trivial⟩
  obtain ⟨size, unit⟩ := stapaPass_unit p output (Nat.not_lt.mp short)
  rw [unit]
  by_cases past : offset + stapaNaluLengthSize + size > payload.length
  · exact .inr ⟨_, if_pos past, trivial⟩
  · refine .inl ⟨_, if_neg past, trivial, ?_⟩
    simp only [stapaNaluLengthSize] at short past ⊢
    omega

structure Fragment where
  start : Bool
  last : Bool
  data : List UInt8
  deriving DecidableEq, Repr

/-- The reading of a payload as an FU-A packet: both header bytes are there and the
type is 28. -/
def fragment? : List UInt8 → Option Fragment
  | indicator :: header :: data =>
    if indicator &&& naluTypeBitmask = fuaNaluType then
      some ⟨header &&& fuStartBitmask != 0, header &&& fuEndBitmask != 0, data⟩
    else none
  | _ => none

/-- An FU-A packet is always appended; the end bit alone decides whether a unit comes
out, and the start bit is not looked at. -/
theorem receive_fragment? (p : H264Packet) (fua : fragment? payload = some f) :
    if f.last then ∃ header, p.receive payload = .ok ({ p with fuaBuffer := [] },
      (.ok, p.doPackaging [] (header :: (p.fuaBuffer ++ f.data))))
    else p.receive payload = .ok ({ p with fuaBuffer := p.fuaBuffer ++ f.data }, (.ok, [])) := by
  match payload with
  | [] => simp [fragment?] at fua
  | [_] => simp [fragment?] at fua
  | indicator :: header :: data =>
    simp only [fragment?] at fua
    split at fua
    · rename_i kind
      obtain rfl := Option.some.inj fua
      by_cases last : header &&& fuEndBitmask = 0
      · simp [receive_fua p indicator header data kind, last]
      · simp only [bne_iff_ne, ne_eq, last, not_false_eq_true, if_true,
          receive_fua p indicator header data kind]
        exact ⟨_, rfl⟩
    · cases fua

/-- Every other payload is answered too, and leaves the packet as it was. -/
theorem receive_other (p : H264Packet) (payload : List UInt8) (other : fragment? payload = none) :
    ∃ result, p.receive payload = .ok (p, result) := by
  cases payload with
  | nil => exact ⟨(.nilPacket, []), by simp [receive, unmarshal]⟩
  | cons indicator rest =>
    by_cases single : indicator &&& naluTypeBitmask ∈ singleNaluTypes
    · exact ⟨_, receive_single p indicator rest single⟩
    by_cases stapa : indicator &&& naluTypeBitmask = stapaNaluType
    · obtain ⟨result, run⟩ := stapa_total p (indicator :: rest) stapaHeaderSize []
      exact ⟨result, by
        simp only [List.length_cons] at run
        simp [receive, unmarshal, parseBody, stapa, run, stapaNaluType_not_single]⟩
    by_cases fua : indicator &&& naluTypeBitmask = fuaNaluType
    · cases rest with
      | nil =>
        refine ⟨(.shortPacket, []), ?_⟩
        simp [receive, unmarshal, parseBody, parseFUA, fua, fuaNaluType_not_single, fuaHeaderSize,
          fuaNaluType_ne_stapa]
      | cons header data => simp [fragment?, fua] at other
    · exact ⟨(.unhandledNaluType, []), by simp [receive, unmarshal, parseBody, single, stapa, fua]⟩

end H264Packet

end WebTransport.H264

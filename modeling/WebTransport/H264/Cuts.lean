import WebTransport.H264.Payloader

/-! Where `EmitNALUs` cuts. `Cuts` is the sequence of ranges that the scan determines,
without loop variables or packets; emission runs the unit dispatch over the slices of
these ranges and nothing else. -/
namespace WebTransport.H264

open Loop

/-- The start code that the range at `start` begins with. Only the first range may
have none; elsewhere the default of the source is three bytes. -/
def codeLength (payload : List UInt8) (start : Nat) : Nat :=
  if annexbNaluStartCode <+: payload.drop start then 4
  else if naluStartCode <+: payload.drop start then 3
  else if start = 0 then 0
  else 3

theorem startCodeOffset_eq (payload : List UInt8) (start : Nat) :
    startCodeOffset payload start = .ok (codeLength payload start) := by
  unfold startCodeOffset
  rw [matchesAt_guarded payload annexbNaluStartCode start 3 rfl,
    matchesAt_guarded payload naluStartCode start 2 rfl]
  simp only [ok_bind, List.isPrefixOf_iff_prefix, codeLength]
  split
  · rfl
  split
  · rfl
  split <;> rfl

/-- One range `[start, next)`: a start code of `code` bytes, then the unit. -/
structure Cut where
  start : Nat
  code : Nat
  next : Nat
  deriving DecidableEq, Repr

def Cut.unit (payload : List UInt8) (c : Cut) : List UInt8 :=
  (payload.drop (c.start + c.code)).take (c.next - (c.start + c.code))

inductive Cuts (payload : List UInt8) : Nat → List Cut → Prop where
  | finish : payload.length ≤ start → Cuts payload start []
  | cut : start < payload.length → NextStart payload start next → Cuts payload next rest →
      Cuts payload start (⟨start, codeLength payload start, next⟩ :: rest)

/-- The loop only ever stands at the beginning, at a start code, or at the end. -/
def Begins (payload : List UInt8) (start : Nat) : Prop :=
  start = 0 ∨ startsAt payload start = true ∨ payload.length ≤ start

theorem NextStart.begins (h : NextStart payload start next) : Begins payload next := by
  rcases h.reached with rfl | ⟨_, found⟩
  · exact .inr (.inr (Nat.le_refl _))
  · exact .inr (.inl found)

/-- The start code of a range lies inside it, so the unit's size never underflows. -/
theorem codeLength_le (begins : Begins payload start) (more : start < payload.length)
    (h : NextStart payload start next) : start + codeLength payload start ≤ next := by
  unfold codeLength
  split
  · rename_i long
    have four := long.length_le
    simp only [annexbNaluStartCode, List.length_cons, List.length_nil, List.length_drop] at four
    rcases h.reached with rfl | ⟨low, found⟩
    · omega
    · -- the fourth byte of the code is 1, so no code starts there
      have apart : next ≠ start + 3 := by
        rintro rfl
        have last : payload[start + 3]? = some 1 := by
          have := (List.prefix_iff_getElem?.mp long) 3 (by simp [annexbNaluStartCode])
          simpa [annexbNaluStartCode, List.getElem?_drop] using this
        have zero := (startsAt_iff.mp found).1
        simp [last] at zero
      omega
  split
  · rename_i short
    have three := short.length_le
    simp only [naluStartCode, List.length_cons, List.length_nil, List.length_drop] at three
    rcases h.reached with rfl | ⟨low, _⟩ <;> omega
  split
  · rename_i atStart
    have := h.lt more
    omega
  · rename_i none notStart
    rcases begins with atStart | found | past
    · exact absurd atStart notStart
    · exact absurd (List.isPrefixOf_iff_prefix.mp found) none
    · omega

namespace H264Payloader

variable {payload : List UInt8} {start next : Nat} {cs : List Cut}

def emitUnits (p : H264Payloader) (mtu : UInt16) (units : List (List UInt8)) :
    Except Fault (H264Payloader × List (List UInt8)) := do
  let (p, packets) ← Machine.runM (fun p nalu => p.emitNALU mtu nalu) p units
  .ok (p, packets.flatten)

@[simp] theorem emitUnits_nil (p : H264Payloader) (mtu : UInt16) :
    p.emitUnits mtu [] = .ok (p, []) := rfl

theorem emitUnits_cons (p : H264Payloader) (mtu : UInt16) (nalu : List UInt8) (rest : List (List UInt8)) :
    p.emitUnits mtu (nalu :: rest) = (do
      let (p, packets) ← p.emitNALU mtu nalu
      let (p, more) ← p.emitUnits mtu rest
      .ok (p, packets ++ more)) := by
  unfold emitUnits
  cases now : p.emitNALU mtu nalu with
  | error fault => simp [Machine.runM, now]
  | ok result =>
    obtain ⟨q, packets⟩ := result
    cases later : Machine.runM (fun p nalu => p.emitNALU mtu nalu) q rest with
    | error fault => simp [Machine.runM, now, later]
    | ok final => simp [Machine.runM, now, later]

theorem emitPass_cut (mtu : UInt16) (s : EmitState) (begins : Begins payload s.start)
    (more : s.start < payload.length) (found : NextStart payload s.start next) :
    emitPass mtu payload s = (do
      let (payloader, packets) ← s.payloader.emitNALU mtu
        (Cut.unit payload ⟨s.start, codeLength payload s.start, next⟩)
      .ok (.again ⟨next, payloader, s.payloads ++ packets⟩)) := by
  obtain ⟨next', run, found'⟩ := findNextStart_ok payload s.start
  obtain rfl := found'.unique found found'.le_length found.le_length
  have code := codeLength_le begins more found
  have inside := found.le_length
  simp only [emitPass, more, if_true, run, startCodeOffset_eq, ok_bind, sizeSub_of_le code]
  rw [slice_of_le (by omega), ok_bind]
  rfl

theorem emitLoop_eq (mtu : UInt16) (cuts : Cuts payload start cs) (begins : Begins payload start)
    (p : H264Payloader) (payloads : List (List UInt8)) (enough : payload.length - start < fuel) :
    loop (emitPass mtu payload) fuel ⟨start, p, payloads⟩ = (do
      let (p, packets) ← p.emitUnits mtu (cs.map (Cut.unit payload))
      .ok (p, payloads ++ packets)) := by
  induction cuts generalizing p payloads fuel with
  | finish past =>
    obtain ⟨fuel, rfl⟩ : ∃ n, fuel = n + 1 := ⟨fuel - 1, by omega⟩
    rw [loop_leave (by simp only [emitPass, Nat.not_lt.mpr past, if_false]; rfl)]
    simp
  | @cut start next rest more found _ ih =>
    obtain ⟨fuel, rfl⟩ : ∃ n, fuel = n + 1 := ⟨fuel - 1, by omega⟩
    have forward := found.lt more
    have pass := emitPass_cut mtu ⟨start, p, payloads⟩ begins more found
    rw [List.map_cons, emitUnits_cons]
    cases now : p.emitNALU mtu (Cut.unit payload ⟨start, codeLength payload start, next⟩) with
    | error fault => simp [loop, pass, now]
    | ok result =>
      obtain ⟨q, packets⟩ := result
      have again : emitPass mtu payload ⟨start, p, payloads⟩ =
          .ok (.again ⟨next, q, payloads ++ packets⟩) := by rw [pass]; simp only [now, ok_bind]
      rw [loop_again again, ih found.begins q (payloads ++ packets) (by omega)]
      cases later : q.emitUnits mtu (rest.map (Cut.unit payload)) with
      | error fault => simp [later]
      | ok final => simp [later]

/-- The whole of `EmitNALUs`: the cuts from 0 fix the units, the dispatch does the rest. -/
theorem emitNALUs_eq (p : H264Payloader) (mtu : UInt16) (cuts : Cuts payload 0 cs) :
    p.emitNALUs mtu payload = p.emitUnits mtu (cs.map (Cut.unit payload)) := by
  rw [emitNALUs, emitLoop_eq mtu cuts (.inl rfl) p [] (by omega)]
  cases p.emitUnits mtu (cs.map (Cut.unit payload)) with
  | error fault => rfl
  | ok final => simp

end H264Payloader

end WebTransport.H264

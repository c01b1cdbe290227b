import WebTransport.Theory.Ranges
import WebTransport.H264.Bounded

/-! The ranges of the loop of `EmitNALUs`. What the search finds in one pass is what the
offset test sees in the next: a pass stands at the beginning, at a start code or at the
end. So every range holds its start code, and the ranges tile the payload. -/
namespace WebTransport.H264

open Loop Ranges

/-- The numbers of the pass that begins at `start`. A read outside the payload is a fault. -/
def scan (payload : List UInt8) (start : Nat) : Except Fault Cut := do
  let nextStart ← findNextStart payload start
  let offset ← startCodeOffset payload start
  .ok ⟨start, offset, nextStart⟩

def Cut.bytes (payload : List UInt8) (c : Cut) : List UInt8 := piece payload c.start c.next

structure Cut.Framed (payload : List UInt8) (c : Cut) : Prop where
  offset : c.start + c.code ≤ c.next
  forward : c.start < c.next
  inside : c.next ≤ payload.length
  startCode : ∃ code ∈ [[], naluStartCode, annexbNaluStartCode],
    c.bytes payload = code ++ c.unit payload ∧ code.length = c.code ∧ (code = [] → c.start = 0)

section Range

variable {payload : List UInt8} {start next : Nat}

theorem startCode_prefix (begins : Begins payload start) (more : start < payload.length) :
    ∃ code ∈ [[], naluStartCode, annexbNaluStartCode], code <+: payload.drop start ∧
      code.length = codeLength payload start ∧ (code = [] → start = 0) := by
  by_cases long : annexbNaluStartCode <+: payload.drop start
  · refine ⟨annexbNaluStartCode, by simp, long, ?_, by simp [annexbNaluStartCode]⟩
    rw [codeLength, if_pos long]
    rfl
  by_cases short : naluStartCode <+: payload.drop start
  · refine ⟨naluStartCode, by simp, short, ?_, by simp [naluStartCode]⟩
    rw [codeLength, if_neg long, if_pos short]
    rfl
  -- without a start code the pass is the first one
  have atStart : start = 0 := by
    rcases begins with first | found | past
    · exact first
    · exact absurd (List.isPrefixOf_iff_prefix.mp found) short
    · omega
  refine ⟨[], by simp, List.nil_prefix, ?_, fun _ => atStart⟩
  rw [codeLength, if_neg long, if_neg short, if_pos atStart]
  rfl

theorem framed_cut (begins : Begins payload start) (more : start < payload.length)
    (found : NextStart payload start next) :
    Cut.Framed payload ⟨start, codeLength payload start, next⟩ := by
  have offset := codeLength_le begins more found
  refine ⟨offset, found.lt more, found.le_length, ?_⟩
  obtain ⟨code, known, isPrefix, length, first⟩ := startCode_prefix begins more
  refine ⟨code, known, ?_, length, first⟩
  have front : piece payload start (start + codeLength payload start) = code := by
    rw [piece, Nat.add_sub_cancel_left, ← length, ← List.prefix_iff_eq_take.mp isPrefix]
  calc piece payload start next
    _ = piece payload start (start + codeLength payload start) ++
          piece payload (start + codeLength payload start) next :=
        (piece_join payload (Nat.le_add_right _ _) offset).symm
    _ = code ++ piece payload (start + codeLength payload start) next := by rw [front]

theorem scan_ok (payload : List UInt8) (start : Nat) :
    ∃ next, scan payload start = .ok ⟨start, codeLength payload start, next⟩ ∧
      NextStart payload start next := by
  obtain ⟨next, run, found⟩ := findNextStart_ok payload start
  exact ⟨next, by simp only [scan, run, startCodeOffset_eq, ok_bind], found⟩

end Range

namespace H264Payloader

variable {p : H264Payloader} {mtu : UInt16} {payload : List UInt8}

structure Tiling (payload : List UInt8) (stop : Nat) (cs : List Cut) : Prop where
  consecutive : cs.map Cut.start ++ [stop] = 0 :: cs.map Cut.next
  once : ∀ i < stop, ∃! c, c ∈ cs ∧ c.start ≤ i ∧ i < c.next
  joined : (cs.map (Cut.bytes payload)).flatten = payload.take stop
  framed : ∀ c ∈ cs, c.Framed payload

/-- Where the head of the loop can stand. -/
structure Stands (payload : List UInt8) (s : EmitState) : Prop where
  begins : Begins payload s.start
  inside : s.start ≤ payload.length

/-- One pass: the numbers of its range, then the emission of its unit. -/
theorem emitPass_scan (mtu : UInt16) (stands : Stands payload s) (more : s.start < payload.length) :
    ∃ c, scan payload s.start = .ok c ∧ c.start = s.start ∧ c.Framed payload ∧
      Begins payload c.next ∧
      emitPass mtu payload s = (do
        let (payloader, packets) ← s.payloader.emitNALU mtu (c.unit payload)
        .ok (.again ⟨c.next, payloader, s.payloads ++ packets⟩)) := by
  obtain ⟨next, run, found⟩ := scan_ok payload s.start
  exact ⟨_, run, rfl, framed_cut stands.begins more found, found.begins,
    emitPass_cut mtu s stands.begins more found⟩

theorem emitPass_leave (done : payload.length ≤ s.start) :
    emitPass mtu payload s = .ok (.leave (s.payloader, s.payloads)) :=
  if_neg (Nat.not_lt.mpr done)

/-- A pass that continues has emitted the unit of a range and stands where the range ends. -/
theorem emitPass_again (stands : Stands payload s) (pass : emitPass mtu payload s = .ok (.again next)) :
    ∃ c, scan payload s.start = .ok c ∧ c.start = s.start ∧ c.Framed payload ∧ next.start = c.next ∧
      Stands payload next := by
  by_cases more : s.start < payload.length
  · obtain ⟨c, run, atStart, framed, begins, same⟩ := emitPass_scan mtu stands more
    rw [same] at pass
    obtain ⟨⟨payloader, packets⟩, -, rest⟩ := ok_of_bind pass
    cases rest
    exact ⟨c, run, atStart, framed, rfl, begins, framed.inside⟩
  · rw [emitPass_leave (Nat.le_of_not_lt more)] at pass
    cases pass

theorem stands_of_passed (passed : Passed (emitPass mtu payload) ⟨0, p, []⟩ heads s) :
    Stands payload s := by
  refine passed.reached.invariant (Stands payload) ?_ ⟨.inl rfl, Nat.zero_le _⟩
  intro s next stands pass
  obtain ⟨_, _, _, _, _, later⟩ := emitPass_again stands pass
  exact later

/-- The ranges of the passes made so far. -/
theorem tiles_of_passed (passed : Passed (emitPass mtu payload) ⟨0, p, []⟩ heads s) :
    ∃ cs, heads.mapM (fun head => scan payload head.start) = .ok cs ∧
      Tiles Cut.start Cut.next 0 s.start cs ∧ ∀ c ∈ cs, c.Framed payload := by
  induction passed with
  | entry => exact ⟨[], rfl, .none, by simp⟩
  | @again heads s next before pass ih =>
    obtain ⟨cs, ranges, tiles, framed⟩ := ih
    obtain ⟨c, run, atStart, frame, ends, -⟩ := emitPass_again (stands_of_passed before) pass
    refine ⟨cs ++ [c], ?_, ?_, ?_⟩
    · rw [List.mapM_append, ranges, List.mapM_cons, run]
      rfl
    · rw [ends]
      exact .append (atStart ▸ tiles) frame.forward
    · intro d member
      rcases List.mem_append.mp member with earlier | newest
      · exact framed d earlier
      · rwa [List.mem_singleton.mp newest]

theorem tiling_of_tiles (tiles : Tiles Cut.start Cut.next 0 stop cs)
    (framed : ∀ c ∈ cs, c.Framed payload) : Tiling payload stop cs where
  consecutive := tiles.consecutive
  once := fun _ high => tiles.once (Nat.zero_le _) high
  joined := tiles.pieces payload
  framed := framed

/-- If every pass emits its unit the loop ends: each pass begins further on. -/
theorem emitNALUs_ends
    (emits : ∀ heads s c, Passed (emitPass mtu payload) ⟨0, p, []⟩ heads s → s.start < payload.length →
      scan payload s.start = .ok c → ∃ sent, s.payloader.emitNALU mtu (c.unit payload) = .ok sent) :
    ∃ result, p.emitNALUs mtu payload = .ok result := by
  have total : ∃ result, p.emitNALUs mtu payload = .ok result ∧ True := by
    refine loop_total (fun s => ∃ heads, Passed (emitPass mtu payload) ⟨0, p, []⟩ heads s) (fun _ => True)
      (fun s => payload.length - s.start) ?_ ⟨[], .entry⟩ (Nat.lt_succ_of_le (Nat.sub_le _ _))
    rintro s ⟨heads, passed⟩
    by_cases more : s.start < payload.length
    · obtain ⟨c, run, atStart, framed, -, same⟩ :=
        emitPass_scan mtu (stands_of_passed passed) more
      obtain ⟨⟨payloader, packets⟩, sent⟩ := emits heads s c passed more run
      have pass : emitPass mtu payload s = .ok (.again ⟨c.next, payloader, s.payloads ++ packets⟩) := by
        simp only [same, sent, ok_bind]
      have forward : payload.length - c.next < payload.length - s.start := by
        have := framed.forward
        omega
      exact .inl ⟨_, pass, ⟨_, passed.again pass⟩, forward⟩
    · exact .inr ⟨_, emitPass_leave (Nat.le_of_not_lt more), trivial⟩
  obtain ⟨result, run, -⟩ := total
  exact ⟨result, run⟩

/-- Every pass reads inside the payload, and its unit begins no later than the next range.
The ranges of the passes made so far partition the bytes before the head, each a start code
and its unit, with no start code only at the beginning. With an emission that returns the
loop ends, at the end of the payload. -/
theorem emitNALUs_tiles (p : H264Payloader) (mtu : UInt16) (payload : List UInt8) :
    (∀ heads s, Passed (emitPass mtu payload) ⟨0, p, []⟩ heads s →
      s.start ≤ payload.length ∧
      (s.start < payload.length →
        ∃ c, scan payload s.start = .ok c ∧ c.start = s.start ∧ c.Framed payload ∧
          emitPass mtu payload s = (do
            let (payloader, packets) ← s.payloader.emitNALU mtu (c.unit payload)
            .ok (.again ⟨c.next, payloader, s.payloads ++ packets⟩))) ∧
      ∃ cs, heads.mapM (fun head => scan payload head.start) = .ok cs ∧ Tiling payload s.start cs) ∧
    ((∀ heads s c, Passed (emitPass mtu payload) ⟨0, p, []⟩ heads s → s.start < payload.length →
        scan payload s.start = .ok c → ∃ sent, s.payloader.emitNALU mtu (c.unit payload) = .ok sent) →
      ∃ result heads last, p.emitNALUs mtu payload = .ok result ∧
        Passed (emitPass mtu payload) ⟨0, p, []⟩ heads last ∧
        emitPass mtu payload last = .ok (.leave result) ∧ last.start = payload.length) := by
  constructor
  · intro heads s passed
    have stands := stands_of_passed passed
    refine ⟨stands.inside, fun more => ?_, ?_⟩
    · obtain ⟨c, run, atStart, framed, -, same⟩ := emitPass_scan mtu stands more
      exact ⟨c, run, atStart, framed, same⟩
    · obtain ⟨cs, ranges, tiles, framed⟩ := tiles_of_passed passed
      exact ⟨cs, ranges, tiling_of_tiles tiles framed⟩
  · intro emits
    obtain ⟨result, run⟩ := emitNALUs_ends emits
    obtain ⟨heads, last, passed, left⟩ := Passed.leaves .entry run
    refine ⟨result, heads, last, run, passed, left, ?_⟩
    have stands := stands_of_passed passed
    by_contra inside
    obtain ⟨_, _, _, _, _, same⟩ :=
      emitPass_scan mtu stands (Nat.lt_of_le_of_ne stands.inside inside)
    rw [same] at left
    obtain ⟨_, -, rest⟩ := ok_of_bind left
    cases rest

/-- Bytes before the first start code, then a unit; the mtu leaves room. -/
theorem emitNALUs_tiles_leading : ∃ result heads last,
    ({} : H264Payloader).emitNALUs 1200 [9, 0, 0, 0, 1, 0x65] = .ok result ∧
      Passed (emitPass 1200 [9, 0, 0, 0, 1, 0x65]) ⟨0, {}, []⟩ heads last ∧
      emitPass 1200 [9, 0, 0, 0, 1, 0x65] last = .ok (.leave result) ∧ last.start = 6 :=
  (emitNALUs_tiles {} 1200 [9, 0, 0, 0, 1, 0x65]).2 fun _ s c _ _ _ =>
    have ⟨q, packets, run, _⟩ := (s.payloader.emitNALU_respects_iff 1200 (c.unit _)).mpr (.inl (by decide))
    ⟨(q, packets), run⟩

end H264Payloader

end WebTransport.H264

import WebTransport.Datagrams.Assembly

/-! What reaches the decoder, whatever was lost, duplicated or reordered. A head that
interrupts a run with data makes the client decode that run without its end, and a run
that lost its head is decoded at its marker; without these two, only whole frames are. -/
namespace WebTransport.Datagrams

open Loop

structure FrameRun (run : List Arrival) : Prop where
  consecutive : Consecutive run
  start : ∃ first rest, run = first :: rest ∧ first.isKeyFrame = true
  finish : ∃ front last, run = front ++ [last] ∧ last.marker = true

def FromFrame (past : List Arrival) (data : List UInt8) : Prop :=
  ∃ run, run <:+: past ∧ FrameRun run ∧ data = run.flatMap (·.body)

theorem FromFrame.later (from_ : FromFrame past data) (a : Arrival) : FromFrame (past ++ [a]) data := by
  obtain ⟨run, part, frame, same⟩ := from_
  exact ⟨run, part.trans (List.prefix_append past [a]).isInfix, frame, same⟩

/-- A marker ends a run whose data begins with the first packet of a frame. -/
def MarkerClean (run : List Arrival) (a : Arrival) : Prop :=
  a.marker = true → (extend run a).flatMap (·.body) ≠ [] →
    ∃ lost first rest, extend run a = lost ++ first :: rest ∧ first.isKeyFrame = true ∧
      ∀ q ∈ lost, q.body = []

def Clean (past : List Arrival) (a : Arrival) : Prop :=
  HeadClean (openRun past) a ∧ MarkerClean (openRun past) a

theorem fromFrame_of_clean (past : List Arrival) (a : Arrival) (marker : a.marker = true)
    (clean : MarkerClean (openRun past) a) (some : (extend (openRun past) a).flatMap (·.body) ≠ []) :
    FromFrame (past ++ [a]) ((extend (openRun past) a).flatMap (·.body)) := by
  obtain ⟨lost, first, rest, split, start, empty⟩ := clean marker some
  have part : first :: rest <:+ extend (openRun past) a := ⟨lost, split.symm⟩
  refine ⟨first :: rest, (part.trans (extend_suffix past a)).isInfix, ⟨?_, ⟨first, rest, rfl, start⟩, ?_⟩, ?_⟩
  · exact (extend_consecutive _ a (openRun_consecutive past)).suffix part
  · -- the arrival itself is the last packet of the run
    have last : (first :: rest).getLast? = Option.some a := by
      have whole : (extend (openRun past) a).getLast? = Option.some a := by simp [extend]
      rwa [split, List.getLast?_append_of_ne_nil _ (List.cons_ne_nil _ _)] at whole
    obtain ⟨front, same⟩ := List.getLast?_eq_some_iff.mp last
    exact ⟨front, a, same, marker⟩
  · rw [split, List.flatMap_append, List.flatMap_eq_nil_iff.mpr empty, List.nil_append]

/-- The step: a clean arrival decodes nothing but a whole frame. -/
theorem onArrival_complete (constructs : EncodedVideoChunk → Bool) (past : List Arrival)
    (trace : List EncodedVideoChunk) (c : Client) (a : Arrival)
    (inv : Assembled past c ∧ ∀ chunk ∈ trace, FromFrame past chunk.data) (clean : Clean past a) :
    Assembled (past ++ [a]) (c.onArrival constructs a).1 ∧
      ∀ chunk ∈ trace ++ (c.onArrival constructs a).2, FromFrame (past ++ [a]) chunk.data := by
  obtain ⟨assembled, decoded⟩ := inv
  obtain ⟨follows, packets, nonempty, data, outputs⟩ := onArrival_follows constructs assembled a clean.1
  refine ⟨follows, fun chunk member => ?_⟩
  rcases List.mem_append.mp member with old | new
  · exact (decoded chunk old).later a
  · rw [outputs] at new
    split at new
    · rename_i marker
      obtain ⟨same, some⟩ := mem_assembleAndDecodeFrame new
      obtain ⟨f, isThere⟩ := List.exists_mem_of_ne_nil _ some
      rw [same, data]
      refine fromFrame_of_clean past a marker clean.2 fun none => ?_
      rw [← data, List.flatMap_eq_nil_iff] at none
      exact nonempty f isThere (none f isThere)
    · cases new

/-- If every arrival of a run of datagrams is clean, everything decoded is a whole frame. -/
theorem only_complete_frames (constructs : EncodedVideoChunk → Bool) (datagrams : List (List UInt8))
    (clean : ∀ past a later, datagrams.filterMap arrival? = past ++ a :: later → Clean past a) :
    ∃ c outputs, Machine.runM (Client.processRTPPacket constructs) {} datagrams = .ok (c, outputs) ∧
      ∀ chunk ∈ outputs.flatten, FromFrame (datagrams.filterMap arrival?) chunk.data := by
  obtain ⟨rtp, vp8, outputs, run, same⟩ := run_processRTPPacket constructs {} datagrams
  refine ⟨_, outputs, run, ?_⟩
  have start : Assembled [] ({} : Client) := ⟨rfl, by simp, rfl⟩
  have inv := Machine.run_history_of
    (fun past trace c => Assembled past c ∧ ∀ chunk ∈ trace, FromFrame past chunk.data)
    (fun past _ a => Clean past a)
    (fun past trace c a inv allowed => onArrival_complete constructs past trace c a inv allowed)
    ⟨start, by simp⟩ (datagrams.filterMap arrival?) clean
  rw [same]
  exact inv.2

def twoPackets : List (List UInt8) :=
  [[0x80, 0x60, 0, 1, 0, 0, 0, 9, 0, 0, 0, 7, 0x10, 0xAA],
    [0x80, 0xE0, 0, 2, 0, 0, 0, 9, 0, 0, 0, 7, 0x00, 0xBB]]

theorem only_complete_frames_twoPackets : ∃ c outputs,
    Machine.runM (Client.processRTPPacket fun _ => true) {} twoPackets = .ok (c, outputs) ∧
      ∀ chunk ∈ outputs.flatten, FromFrame (twoPackets.filterMap arrival?) chunk.data :=
  only_complete_frames (fun _ => true) twoPackets fun past a later split => by
    have arrivals : twoPackets.filterMap arrival? =
        [⟨1, false, true, true, 9, [0xAA]⟩, ⟨2, true, false, false, 9, [0xBB]⟩] := by decide +kernel
    rw [arrivals] at split
    match past with
    | [] =>
      obtain ⟨rfl, _⟩ := List.cons.inj split
      exact ⟨by simp [HeadClean, openRun], by simp [MarkerClean]⟩
    | [x] =>
      obtain ⟨rfl, tail⟩ := List.cons.inj split
      obtain ⟨rfl, _⟩ := List.cons.inj tail
      refine ⟨by simp [HeadClean], fun _ _ => ⟨[], _, _, rfl, rfl, by simp⟩⟩
    | x :: y :: rest => simp at split

/-- The first of two packets, then the only packet of the next frame. -/
def lostTail : List (List UInt8) :=
  [[0x80, 0x60, 0, 1, 0, 0, 0, 9, 0, 0, 0, 7, 0x10, 0xAA],
    [0x80, 0xE0, 0, 3, 0, 0, 0, 9, 0, 0, 0, 7, 0x10, 0xCC]]

/-- The head of the next frame passes the incomplete one to the decoder. -/
theorem lost_tail_decoded : ∃ c outputs chunk,
    Machine.runM (Client.processRTPPacket fun _ => true) {} lostTail = .ok (c, outputs) ∧
      chunk ∈ outputs.flatten ∧ ¬ FromFrame (lostTail.filterMap arrival?) chunk.data := by
  obtain ⟨c, outputs, run⟩ : ∃ c outputs,
      Machine.runM (Client.processRTPPacket fun _ => true) {} lostTail = .ok (c, outputs) := ⟨_, _, rfl⟩
  have decoded : (Machine.runM (Client.processRTPPacket fun _ => true) {} lostTail).map (·.2.flatten) =
      .ok [⟨true, 9000, [0xAA]⟩, ⟨true, 9000, [0xCC]⟩] := by decide +kernel
  have arrivals : lostTail.filterMap arrival? =
      [⟨1, false, true, true, 9, [0xAA]⟩, ⟨3, true, true, true, 9, [0xCC]⟩] := by decide +kernel
  rw [run] at decoded
  refine ⟨c, outputs, ⟨true, 9000, [0xAA]⟩, run, by simp [Except.ok.inj decoded], ?_⟩
  rintro ⟨frame, part, ⟨_, _, front, last, rfl, marker⟩, same⟩
  have member : last ∈ lostTail.filterMap arrival? := part.subset (by simp)
  rw [arrivals] at member
  -- the only marker is on the second packet
  rcases List.mem_pair.mp member with rfl | rfl
  · cases marker
  · have ends := congrArg List.getLast? same
    simp at ends

end WebTransport.Datagrams

import WebTransport.BidirectionalStream.Reader
import WebTransport.Datagrams.Client
import WebTransport.Theory.Grouping

/-! The page behind the reader loop: RTP and VP8 parsers that are new for each frame, the
buffer of the frame in progress, and the decoder. What the browser's objects do is not
known: any call on them may throw, and the page catches it. -/
namespace WebTransport.BidirectionalStream

open Loop RTP VP8 Datagrams Framing Grouping

inductive Call where
  | setCanvas (width height : Nat)
  | newVideoDecoder
  | configure
  | newEncodedVideoChunk (data : List UInt8)
  | decode (data : List UInt8)
  deriving DecidableEq, Repr

def Call.decoded? : Call → Option (List UInt8)
  | .decode data => some data
  | _ => none

structure Page where
  vp8FrameBuffer : List (List UInt8) := []
  videoDecoder : Bool := false
  calls : List Call := []
  deriving DecidableEq, Repr

namespace Page

-- Whether a call returns, given the calls before it.
variable (returns : List Call → Call → Bool)

def ask (call : Call) (p : Page) : Except Page Page :=
  let asked := { p with calls := p.calls ++ [call] }
  if returns p.calls call then .ok asked else .error asked

def initVideoDecoder (p : Page) : Except Page Page := do
  let p ← p.ask returns (.setCanvas 1024 768)
  let p ← p.ask returns .newVideoDecoder
  { p with videoDecoder := true }.ask returns .configure

/-- The size fields that the page looks for at the front of a frame. -/
def canvasSize (fullFrame : List UInt8) : Nat × Nat :=
  let at' (i : Nat) := (fullFrame.getD i 0).toNat
  ((at' 3 ||| at' 4 <<< 8) &&& 0x3FFF, (at' 5 ||| at' 6 <<< 8) &&& 0x3FFF)

def fitCanvas (p : Page) (isKeyFrame : Bool) (fullFrame : List UInt8) : Except Page Page :=
  if isKeyFrame = true ∧ 10 ≤ fullFrame.length ∧ fullFrame.take 3 = [0x9D, 0x01, 0x2A] then
    p.ask returns (.setCanvas (canvasSize fullFrame).1 (canvasSize fullFrame).2)
  else .ok p

def readyDecoder (p : Page) : Except Page Page :=
  if p.videoDecoder then .ok p else p.initVideoDecoder returns

def showFrame (p : Page) (isKeyFrame : Bool) (fullFrame : List UInt8) : Except Page Page := do
  let p ← p.fitCanvas returns isKeyFrame fullFrame
  let p ← p.readyDecoder returns
  let p ← p.ask returns (.newEncodedVideoChunk fullFrame)
  p.ask returns (.decode fullFrame)

def takePacket (p : Page) (marker isKeyFrame : Bool) (vp8Data : List UInt8) : Except Page Page :=
  let p := { p with vp8FrameBuffer := p.vp8FrameBuffer ++ [vp8Data] }
  if marker then
    let fullFrame := p.vp8FrameBuffer.flatten
    { p with vp8FrameBuffer := [] }.showFrame returns isKeyFrame fullFrame
  else .ok p

/-- The `try` block behind `Frame.deserialize`. Without a payload `getPayload()` is null,
and its `length` throws. -/
def processFrame (p : Page) (frame : JsFrame) : Except Fault (Exit × Page) := do
  let (parsed, rtpPacket) ← RTPPacket.fresh.unmarshalJs frame.data
  if parsed then
    match rtpPacket.payload with
    | none => .ok (.threw, p)
    | some payload =>
      let (output, depacketizer) ←
        VP8Depacketizer.unmarshal {} payload (List.replicate payload.length 0)
      match output with
      | none => .ok (.vp8Failed, p)
      | some (data, size) =>
        match p.takePacket returns rtpPacket.marker depacketizer.isKeyFrame (data.take size) with
        | .ok p => .ok (.finished, p)
        | .error p => .ok (.threw, p)
  else .ok (.rtpFailed, p)

/-- The handling as the reader loop has it; the parsers do not fault. -/
def process (p : Page) (frame : JsFrame) : Exit × Page :=
  match p.processFrame returns frame with
  | .ok result => result
  | .error _ => (.threw, p)

def decoded (p : Page) : List (List UInt8) := p.calls.filterMap Call.decoded?

/-- The page that a run of calls leaves, whether or not the last one threw. -/
def left : Except Page Page → Page
  | .ok p | .error p => p

def receive (p : Page) : Option Arrival → Page
  | some a => left (p.takePacket returns a.marker a.isKeyFrame a.body)
  | none => p

/-- Both parsers read a frame as the datagram client reads a datagram. -/
theorem process_arrival (p : Page) (frame : JsFrame) :
    (p.process returns frame).2 = p.receive returns (arrival? frame.data) := by
  obtain ⟨q, read⟩ := RTPPacket.fresh.unmarshalJs_read frame.data
  cases rtp : RTPPacket.read? frame.data with
  | none =>
    rw [rtp] at read
    simp [process, processFrame, read, arrival?, rtp, receive]
  | some r =>
    rw [rtp] at read
    obtain ⟨parsed, id, length, rfl⟩ := read
    cases carried : r.payload with
    | none => simp [process, processFrame, parsed, carried, arrival?, rtp, receive]
    | some payload =>
      obtain ⟨d, unpacked⟩ := VP8Depacketizer.unmarshal_read {} payload
      cases vp8 : VP8Packet.read? payload with
      | none =>
        rw [vp8] at unpacked
        simp [process, processFrame, parsed, carried, arrival?, rtp, vp8, unpacked, receive]
      | some result =>
        obtain ⟨v, body⟩ := result
        rw [vp8] at unpacked
        obtain ⟨data, same, sliced, unpacked⟩ := unpacked
        have reading : arrival? frame.data = some ⟨r.sequenceNumber, r.marker, v.s == 1, v.s == 1 && v.pid == 0,
            r.timestamp, body⟩ := by simp [arrival?, rtp, carried, vp8]
        simp only [process, processFrame, parsed, ok_bind, if_true, carried, unpacked, reading, receive, sliced,
          VP8Depacketizer.isKeyFrame, same]
        cases p.takePacket returns r.marker (v.s == 1 && v.pid == 0) body <;> rfl

def OnlyDecodeThrows : Prop := ∀ before call, Call.decoded? call = none → returns before call = true

/-- The calls of a plan up to the first that throws. -/
def made (before : List Call) : List Call → List Call
  | [] => []
  | call :: plan => call :: if returns before call then made (before ++ [call]) plan else []

def returned (before : List Call) : List Call → Bool
  | [] => true
  | call :: plan => returns before call && returned (before ++ [call]) plan

/-- The calls in front of `decode`. The decoder is set up once, also if `configure` threw. -/
def inFront (before : List Call) (isKeyFrame : Bool) (fullFrame : List UInt8) : List Call :=
  (if isKeyFrame = true ∧ 10 ≤ fullFrame.length ∧ fullFrame.take 3 = [0x9D, 0x01, 0x2A] then
      [.setCanvas (canvasSize fullFrame).1 (canvasSize fullFrame).2] else []) ++
    (if .configure ∈ before then [] else [.setCanvas 1024 768, .newVideoDecoder, .configure]) ++
    [.newEncodedVideoChunk fullFrame]

/-- What the page does for one group of packets, after these calls: the frame is decoded
unless one of its own calls in front threw. -/
structure Attempt (before : List Call) (group : List Arrival) (own : List Call) : Prop where
  calls : own = made returns before (inFront before (group.getLast?.any (·.isKeyFrame)) (group.flatMap (·.body)) ++
    [.decode (group.flatMap (·.body))])
  decodes : own.filterMap Call.decoded? =
    if returned returns before (inFront before (group.getLast?.any (·.isKeyFrame)) (group.flatMap (·.body))) then
      [group.flatMap (·.body)] else []

inductive Attempts : List (List Arrival) → List Call → Prop where
  | none : Attempts [] []
  | next (earlier : Attempts groups before) (attempt : Attempt returns before group own) :
    Attempts (groups ++ [group]) (before ++ own)

def Knows (p : Page) : Prop := p.videoDecoder = true ↔ .configure ∈ p.calls

structure Follows (p : Page) (plan : List Call) (run : Except Page Page) : Prop where
  calls : (left run).calls = p.calls ++ made returns p.calls plan
  buffer : (left run).vp8FrameBuffer = p.vp8FrameBuffer
  known : (left run).Knows
  finishes : (∃ q, run = .ok q) ↔ returned returns p.calls plan = true

/-- What the accepted packets have come to: they are divided at the markers, and the page
makes one attempt for each division, in order. So each is decoded at most once, and exactly
once if only `decode` throws. -/
structure Divided (packets : List Arrival) (p : Page) (shown : List (List Arrival)) (opened : List Arrival) :
    Prop where
  grouped : Grouped Arrival.marker packets shown opened
  buffer : p.vp8FrameBuffer = opened.map (·.body)
  attempts : Attempts returns shown p.calls
  once : p.decoded.Sublist (shown.map (·.flatMap (·.body)))
  all : OnlyDecodeThrows returns → p.decoded = shown.map (·.flatMap (·.body))

variable {returns} {p q : Page}

theorem made_append (before first later : List Call) : made returns before (first ++ later) =
    if returned returns before first then first ++ made returns (before ++ first) later
    else made returns before first := by
  induction first generalizing before with
  | nil => simp [returned]
  | cons call rest ih =>
    rw [List.cons_append, made, made, returned, ih, List.append_assoc, List.singleton_append]
    split
    · rename_i back
      rw [back, Bool.true_and]
      split <;> rfl
    · rename_i threw
      simp [threw]

theorem returned_append (before first later : List Call) : returned returns before (first ++ later) =
    (returned returns before first && returned returns (before ++ first) later) := by
  induction first generalizing before with
  | nil => simp [returned]
  | cons call rest ih => simp [returned, ih, Bool.and_assoc]

theorem made_all {plan : List Call} (all : returned returns before plan = true) :
    made returns before plan = plan := by
  rw [← List.append_nil plan, made_append, if_pos all]
  rfl

theorem made_subset (before plan : List Call) : ∀ call ∈ made returns before plan, call ∈ plan := by
  induction plan generalizing before with
  | nil => simp [made]
  | cons call rest ih =>
    rw [made, List.forall_mem_cons]
    refine ⟨List.mem_cons_self, ?_⟩
    split
    · exact fun call member => List.mem_cons_of_mem _ (ih _ call member)
    · simp

/-- Only `decode` may throw, so a plan without it returns. -/
theorem OnlyDecodeThrows.returned (only : OnlyDecodeThrows returns) (before : List Call) {plan : List Call}
    (quiet : ∀ call ∈ plan, Call.decoded? call = none) : returned returns before plan = true := by
  induction plan generalizing before with
  | nil => rfl
  | cons call rest ih =>
    obtain ⟨first, others⟩ := List.forall_mem_cons.mp quiet
    simp [Page.returned, only before call first, ih _ others]

theorem inFront_quiet (before : List Call) (isKeyFrame : Bool) (fullFrame : List UInt8) :
    ∀ call ∈ inFront before isKeyFrame fullFrame, Call.decoded? call = none := by
  simp only [inFront, List.forall_mem_append]
  refine ⟨⟨?_, ?_⟩, by simp [Call.decoded?]⟩
  all_goals split <;> simp [Call.decoded?]

theorem Follows.nil (known : p.Knows) : Follows returns p [] (.ok p) :=
  ⟨by simp [left, made], rfl, known, iff_of_true ⟨p, rfl⟩ rfl⟩

theorem Follows.ask_of (call : Call) (calls : q.calls = p.calls) (buffer : q.vp8FrameBuffer = p.vp8FrameBuffer)
    (known : ({ q with calls := q.calls ++ [call] } : Page).Knows) :
    Follows returns p [call] (q.ask returns call) := by
  unfold Page.ask
  dsimp only
  split
  · rename_i back
    exact ⟨by simp [left, made, calls], buffer, known, by simp [returned, ← calls, back]⟩
  · rename_i threw
    exact ⟨by simp [left, made, calls], buffer, known, by simp [returned, ← calls, threw]⟩

theorem Follows.ask (known : p.Knows) (call : Call) (other : call ≠ .configure) :
    Follows returns p [call] (p.ask returns call) := by
  refine Follows.ask_of call rfl rfl ?_
  simp only [Knows, List.mem_append, List.mem_singleton, other.symm, or_false]
  exact known

/-- The second plan is reached from a page on which the first was carried out. -/
theorem Follows.bind {run : Except Page Page} {rest : Page → Except Page Page} (first : Follows returns p plan run)
    (later : ∀ q, q.Knows → q.calls = p.calls ++ plan → Follows returns q plan' (rest q)) :
    Follows returns p (plan ++ plan') (run >>= rest) := by
  obtain ⟨calls, buffer, known, finishes⟩ := first
  cases run with
  | ok q =>
    have all := finishes.mp ⟨q, rfl⟩
    have reached : q.calls = p.calls ++ plan := by rw [← made_all all]; exact calls
    obtain ⟨calls', buffer', known', finishes'⟩ := later q known reached
    rw [reached] at calls' finishes'
    refine ⟨?_, buffer'.trans buffer, known', ?_⟩
    · rw [made_append, if_pos all, ← List.append_assoc]
      exact calls'
    · rw [returned_append, all, Bool.true_and]
      exact finishes'
  | error q =>
    have threw : returned returns p.calls plan = false := by
      rw [← Bool.not_eq_true, ← finishes]
      rintro ⟨_, ⟨⟩⟩
    refine ⟨?_, buffer, known, ?_⟩
    · rw [made_append, if_neg (by simp [threw])]
      exact calls
    · rw [returned_append, threw]
      exact iff_of_false (by rintro ⟨_, ⟨⟩⟩) (by simp)

theorem initVideoDecoder_follows (known : p.Knows) :
    Follows returns p [.setCanvas 1024 768, .newVideoDecoder, .configure] (p.initVideoDecoder returns) := by
  refine (Follows.ask known (.setCanvas 1024 768) (by decide)).bind fun q known _ => ?_
  refine (Follows.ask known .newVideoDecoder (by decide)).bind fun q _ _ => ?_
  -- The page says that it has a decoder just before it configures it.
  exact .ask_of .configure rfl rfl (by simp [Knows])

theorem showFrame_follows (returns : List Call → Call → Bool) (p : Page) (known : p.Knows) (isKeyFrame : Bool)
    (fullFrame : List UInt8) :
    Follows returns p (inFront p.calls isKeyFrame fullFrame ++ [.decode fullFrame])
      (p.showFrame returns isKeyFrame fullFrame) := by
  rw [inFront, List.append_assoc, List.append_assoc]
  refine Follows.bind ?_ fun q known reached => ?_
  · unfold fitCanvas
    split
    · exact .ask known _ (by simp)
    · exact .nil known
  have same : .configure ∈ q.calls ↔ .configure ∈ p.calls := by
    rw [reached, List.mem_append, or_iff_left]
    split <;> simp
  refine Follows.bind ?_ fun q known _ => ?_
  · unfold readyDecoder
    by_cases there : .configure ∈ q.calls
    · rw [if_pos (same.mp there), if_pos (known.mpr there)]
      exact .nil known
    · rw [if_neg (mt same.mpr there), if_neg (mt known.mp there)]
      exact initVideoDecoder_follows known
  · exact (Follows.ask known _ (by simp)).bind fun q known _ => .ask known _ (by simp)

theorem attempt_made (returns : List Call → Call → Bool) (before : List Call) (group : List Arrival) :
    Attempt returns before group (made returns before (inFront before (group.getLast?.any (·.isKeyFrame))
      (group.flatMap (·.body)) ++ [.decode (group.flatMap (·.body))])) := by
  refine ⟨rfl, ?_⟩
  have quiet := inFront_quiet before (group.getLast?.any (·.isKeyFrame)) (group.flatMap (·.body))
  rw [made_append]
  split
  · simp [List.filterMap_append, List.filterMap_eq_nil_iff.mpr quiet, made, Call.decoded?]
  · exact List.filterMap_eq_nil_iff.mpr fun call member => quiet call (made_subset _ _ call member)

theorem Attempts.sublist {calls : List Call} (attempts : Attempts returns shown calls) :
    (calls.filterMap Call.decoded?).Sublist (shown.map (·.flatMap (·.body))) := by
  induction attempts with
  | none => exact List.nil_sublist _
  | next earlier attempt ih =>
    rw [List.filterMap_append, List.map_append, attempt.decodes]
    refine ih.append ?_
    split
    · exact List.Sublist.refl _
    · exact List.nil_sublist _

theorem Attempts.all {calls : List Call} (attempts : Attempts returns shown calls) (only : OnlyDecodeThrows returns) :
    calls.filterMap Call.decoded? = shown.map (·.flatMap (·.body)) := by
  induction attempts with
  | none => rfl
  | next earlier attempt ih =>
    rw [List.filterMap_append, List.map_append, attempt.decodes, ih, if_pos (only.returned _ (inFront_quiet _ _ _))]
    rfl

theorem Attempts.divided (attempts : Attempts returns shown p.calls)
    (grouped : Grouped Arrival.marker packets shown opened)
    (buffer : p.vp8FrameBuffer = opened.map (·.body)) : Divided returns packets p shown opened :=
  ⟨grouped, buffer, attempts, attempts.sublist, attempts.all⟩

/-- One packet goes into the open group, and is shown with it if it has the marker. -/
theorem Divided.receive (h : Divided returns packets p shown opened) (known : p.Knows) (a : Arrival) :
    Divided returns (packets ++ [a]) (p.receive returns (some a)) (shown ++ (gather Arrival.marker opened a).2)
      (gather Arrival.marker opened a).1 ∧ (p.receive returns (some a)).Knows := by
  have grouped := h.grouped.gather a
  have joined : (p.vp8FrameBuffer ++ [a.body]).flatten = (opened ++ [a]).flatMap (·.body) := by
    simp [h.buffer, List.flatMap_def]
  simp only [Page.receive, takePacket, joined]
  unfold gather at grouped ⊢
  cases marked : a.marker with
  | false =>
    simp only [marked, Bool.false_eq_true, if_false] at grouped ⊢
    refine ⟨Attempts.divided ?_ grouped (by simp [left, h.buffer]), known⟩
    rw [List.append_nil]
    exact h.attempts
  | true =>
    simp only [marked, if_true] at grouped ⊢
    obtain ⟨calls, buffer, known, -⟩ := showFrame_follows returns { p with vp8FrameBuffer := [] } known a.isKeyFrame
      ((opened ++ [a]).flatMap (·.body))
    refine ⟨Attempts.divided ?_ grouped buffer, known⟩
    have attempt := attempt_made returns p.calls (opened ++ [a])
    simp only [List.getLast?_concat, Option.any_some] at attempt
    rw [calls]
    exact h.attempts.next attempt

/-- The packets of any frames are divided at the markers. -/
theorem foldl_receive (packets : List (Option Arrival)) (h : Divided returns before p shown opened)
    (known : p.Knows) : ∃ shown opened,
    Divided returns (before ++ packets.filterMap id) (packets.foldl (receive returns) p) shown opened := by
  induction packets generalizing before p shown opened with
  | nil => exact ⟨shown, opened, by simpa using h⟩
  | cons packet rest ih =>
    cases packet with
    | none => exact ih h known
    | some a =>
      obtain ⟨next, known⟩ := h.receive known a
      simpa using ih next known

theorem foldl_divided (returns : List Call → Call → Bool) (packets : List (Option Arrival)) :
    ∃ shown opened, Divided returns (packets.filterMap id) (packets.foldl (receive returns) {}) shown opened :=
  foldl_receive packets (Attempts.none.divided .empty rfl) (by simp [Knows])

/-- The page after any chunks is that of the frames of the whole. -/
theorem run_receive (native : Bool) (returns : List Call → Call → Bool) (chunks : List (List UInt8)) :
    ∃ handed, Machine.runM (onChunk native (process returns)) ⟨[], {}⟩ chunks =
      .ok (⟨(drain frameCodec.toDecoder chunks.flatten).2,
        ((drain frameCodec.toDecoder chunks.flatten).1.map fun f => arrival? f.val.data).foldl
          (receive returns) {}⟩, handed) := by
  obtain ⟨handed, run⟩ := run_handled native (process returns) chunks {}
  refine ⟨handed, run.trans ?_⟩
  rw [List.foldl_map]
  congr
  funext page f
  exact process_arrival returns page f.val.toJs

end Page

/-- Any bytes in any chunks: the frames that both parsers accept are divided at their markers,
and whatever was thrown before, the page attempts each division: it is decoded unless one of
its own calls in front of `decode` threw. -/
theorem page_decodes (native : Bool) (returns : List Call → Call → Bool) (chunks : List (List UInt8)) :
    ∃ page handed shown opened,
      Machine.runM (onChunk native (Page.process returns)) ⟨[], {}⟩ chunks =
        .ok (⟨(drain frameCodec.toDecoder chunks.flatten).2, page⟩, handed) ∧
      Page.Divided returns ((drain frameCodec.toDecoder chunks.flatten).1.filterMap fun f => arrival? f.val.data)
        page shown opened := by
  obtain ⟨handed, run⟩ := Page.run_receive native returns chunks
  obtain ⟨shown, opened, divided⟩ := Page.foldl_divided returns
    ((drain frameCodec.toDecoder chunks.flatten).1.map fun f => arrival? f.val.data)
  rw [List.filterMap_map] at divided
  exact ⟨_, handed, shown, opened, run, divided⟩

end WebTransport.BidirectionalStream

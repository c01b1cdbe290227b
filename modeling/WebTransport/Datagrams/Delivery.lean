import WebTransport.Datagrams.Assembly
import WebTransport.RTP.Encoding
import WebTransport.VP8.RoundTrip

/-! Lossless delivery. Frames are packetized, wrapped in RTP packets with consecutive
sequence numbers and a marker on the last packet of each frame, and processed in order;
the client decodes exactly the frames. -/
namespace WebTransport.Datagrams

open Loop RTP VP8 Fragment

/-- The fields of an RTP packet that the client does not look at. -/
structure Stamp where
  version : Fin 4
  payloadType : Fin 128
  timestamp : UInt32
  ssrc : UInt32

def wrap (stamp : Stamp) (sequenceNumber : UInt16) (marker : Bool) (payload : List UInt8) : Fields :=
  { version := stamp.version, marker, payloadType := stamp.payloadType, sequenceNumber
    timestamp := stamp.timestamp, ssrc := stamp.ssrc, csrcs := [], csrcs_le := Nat.zero_le _
    extension := none, payload, padding := none }

section

variable (stamps : Nat → Stamp) (initial : UInt16)

/-- The packets of one frame, the first of them the `n`-th of the stream. -/
def wrapFrame : Nat → List (List UInt8) → List Fields
  | _, [] => []
  | n, packet :: rest =>
    wrap (stamps n) (initial + UInt16.ofNat n) rest.isEmpty packet :: wrapFrame (n + 1) rest

def wrapFrames : Nat → List (List (List UInt8)) → List Fields
  | _, [] => []
  | n, packets :: rest => wrapFrame stamps initial n packets ++ wrapFrames (n + packets.length) rest

def send (p : VP8Payloader) (mtu : Int) (frames : List (List UInt8)) :
    Except Fault (List (List UInt8)) := do
  let (_, packets) ← Machine.runM (fun p frame => p.payloadJs mtu frame) p frames
  .ok ((wrapFrames stamps initial 0 packets).map Fields.encode)

end

theorem arrival_wrap (stamp : Stamp) (sequenceNumber : UInt16) (marker first last : Bool)
    {p : VP8Payloader} (small : p.pictureId.toNat < 2 ^ 15) (body : List UInt8) :
    arrival? (wrap stamp sequenceNumber marker (p.packet first last body)).encode =
      some ⟨sequenceNumber, marker, first, first, RTPPacket.signedWord stamp.timestamp, body⟩ := by
  have walk : ∃ r, ({} : VP8Packet).parseDescriptor (p.packet first last body) =
      .ok (r, (p.header first).length) ∧ p.Reads r first := VP8Payloader.parseDescriptor_header small
  obtain ⟨r, parsed, reads⟩ := walk
  have some : p.packet first last body ≠ [] := by
    intro none
    have length := congrArg List.length none
    have header := VP8Payloader.usingHeaderSize_pos p
    rw [VP8Payloader.packet, List.length_append, VP8Payloader.length_header, List.length_nil] at length
    omega
  have vp8 : VP8Packet.read? (p.packet first last body) = Option.some (r, body) := by
    rw [VP8Packet.read?, parsed]
    simp only [VP8Payloader.packet, List.drop_left]
  have rtp (f : Fields) : RTPPacket.read? f.encode =
      Option.some (RTPPacket.received RTPPacket.signedWord RTPPacket.fresh f) := by
    rw [RTPPacket.read?, RTPPacket.parse_encode]
  have payload : (RTPPacket.received RTPPacket.signedWord RTPPacket.fresh
      (wrap stamp sequenceNumber marker (p.packet first last body))).payload =
        Option.some (p.packet first last body) := if_neg some
  have flag : (r.s == 1) = first := by
    rw [reads.s]
    cases first <;> rfl
  simp only [arrival?, rtp, payload, vp8, Option.bind_eq_bind, Option.bind_some, flag, reads.pid]
  simp [RTPPacket.received, RTPPacket.headerRead, wrap]

def Completes : List Arrival → List Arrival → Prop
  | _, [] => False
  | run, a :: rest =>
    a.body ≠ [] ∧ (a.head = true → run = []) ∧ (run ≠ [] → continues run a = true) ∧
      a.marker = rest.isEmpty ∧ (rest ≠ [] → Completes (run ++ [a]) rest)

theorem assembleAndDecodeFrame_some (c : Client) (some : c.currentFramePackets ≠ []) :
    ∃ chunk, c.assembleAndDecodeFrame (fun _ => true) = [chunk] ∧
      chunk.data = c.currentFramePackets.flatMap (·.payload) := by
  unfold Client.assembleAndDecodeFrame
  cases packets : c.currentFramePackets with
  | nil => exact absurd packets some
  | cons first rest => exact ⟨_, rfl, rfl⟩

/-- The rest of a frame decodes once, at its marker, and leaves nothing open. -/
theorem run_completes (assembled : Assembled past c) (rest : List Arrival)
    (completes : Completes (openRun past) rest) :
    ∃ c' chunk, Machine.run (Client.onArrival fun _ => true) c rest = (c', [chunk]) ∧
      chunk.data = (openRun past ++ rest).flatMap (·.body) ∧ Assembled (past ++ rest) c' ∧
      openRun (past ++ rest) = [] := by
  induction rest generalizing past c with
  | nil => exact completes.elim
  | cons a rest ih =>
    obtain ⟨some, alone, follows, marker, later⟩ := completes
    have keeps : extend (openRun past) a = openRun past ++ [a] := by
      rw [extend, kept]
      by_cases empty : openRun past = []
      · simp [empty]
      · rw [if_pos (follows empty)]
    have clean : HeadClean (openRun past) a := fun head q member => by
      rw [alone head] at member
      cases member
    obtain ⟨assembled', packets, nonempty, data, outputs⟩ :=
      onArrival_follows (fun _ => true) assembled a clean
    rw [Machine.run_cons, outputs]
    by_cases last : rest = []
    · subst last
      rw [List.isEmpty_nil] at marker
      have filled : packets ≠ [] := by
        rintro rfl
        rw [keeps] at data
        simp only [List.flatMap_nil, List.flatMap_append, List.flatMap_singleton] at data
        exact some (List.append_eq_nil_iff.mp data.symm).2
      obtain ⟨chunk, decoded, same⟩ :=
        assembleAndDecodeFrame_some { c with currentFramePackets := packets } filled
      refine ⟨_, chunk, ?_, ?_, assembled', ?_⟩
      · rw [if_pos marker, decoded]
        rfl
      · rw [same, ← keeps, ← data]
      · rw [openRun_concat, if_pos marker]
    · have open_ : a.marker = false := by
        rw [marker, Bool.eq_false_iff, ne_eq, List.isEmpty_iff]
        exact last
      have grown : openRun (past ++ [a]) = openRun past ++ [a] := by
        rw [openRun_concat, open_, if_neg (by decide), keeps]
      have rest' := later last
      rw [← grown] at rest'
      obtain ⟨c', chunk, run, same, assembled'', closed⟩ := ih assembled' rest'
      rw [grown, List.append_assoc, List.singleton_append] at same
      rw [List.append_assoc, List.singleton_append] at assembled'' closed
      refine ⟨c', chunk, ?_, same, assembled'', closed⟩
      rw [run, open_]
      rfl

theorem wrapFrame_completes (stamps : Nat → Stamp) (initial : UInt16) {p : VP8Payloader}
    (small : p.pictureId.toNat < 2 ^ 15) (fragments : List (List UInt8)) (n : Nat) (first : Bool)
    (run : List Arrival) (some : fragments ≠ []) (filled : ∀ fragment ∈ fragments, fragment ≠ [])
    (alone : first = true → run = [])
    (follows : ∀ last, run.getLast? = Option.some last → last.sequenceNumber + 1 = initial + UInt16.ofNat n) :
    Completes run (((wrapFrame stamps initial n (decorate p.packet first fragments)).map
        Fields.encode).filterMap arrival?) ∧
      ((((wrapFrame stamps initial n (decorate p.packet first fragments)).map
        Fields.encode).filterMap arrival?).flatMap (·.body)) = fragments.flatten := by
  induction fragments generalizing n first run with
  | nil => exact absurd rfl some
  | cons fragment rest ih =>
    rw [decorate_cons, wrapFrame, List.map_cons,
      List.filterMap_cons_some (arrival_wrap _ _ _ _ _ small fragment)]
    have data : fragment ≠ [] := filled fragment List.mem_cons_self
    have chained : run ≠ [] → continues run ⟨initial + UInt16.ofNat n,
        (decorate p.packet false rest).isEmpty, first, first, RTPPacket.signedWord (stamps n).timestamp,
        fragment⟩ = true := by
      intro nonempty
      obtain ⟨last, ends⟩ := List.getLast?_isSome.mpr nonempty |> Option.isSome_iff_exists.mp
      simp [continues, ends, follows last ends]
    by_cases more : rest = []
    · subst more
      exact ⟨⟨data, alone, chained, rfl, fun none => absurd rfl none⟩, by simp [wrapFrame]⟩
    · have next : (initial + UInt16.ofNat n) + 1 = initial + UInt16.ofNat (n + 1) := by
        rw [UInt16.ofNat_add, UInt16.add_assoc]
        rfl
      obtain ⟨completes, bodies⟩ := ih (n + 1) false (run ++ [⟨initial + UInt16.ofNat n,
        (decorate p.packet false rest).isEmpty, first, first, RTPPacket.signedWord (stamps n).timestamp,
        fragment⟩]) more (fun f member => filled f (List.mem_cons_of_mem _ member)) (by simp)
        (by
          intro last ends
          simp only [List.getLast?_concat, Option.some.injEq] at ends
          rw [← ends]
          exact next)
      have nonempty : ¬ decorate p.packet false rest = [] := by
        intro none
        have lengths := congrArg List.length none
        rw [length_decorate] at lengths
        exact more (List.length_eq_zero_iff.mp lengths)
      refine ⟨⟨data, alone, chained, ?_, fun _ => completes⟩, ?_⟩
      · cases arrivals : ((wrapFrame stamps initial (n + 1) (decorate p.packet false rest)).map
            Fields.encode).filterMap arrival? with
        | nil => rw [arrivals] at completes; exact completes.elim
        | cons _ _ => simpa using nonempty
      · rw [List.flatMap_cons, bodies, List.flatten_cons]

/-- From a client with nothing open, a list of frames is decoded one by one. -/
theorem deliver_frames (stamps : Nat → Stamp) (initial : UInt16) (mtu : Int) (frames : List (List UInt8))
    (nonempty : ∀ frame ∈ frames, frame ≠ []) {p : VP8Payloader} (small : p.pictureId.toNat < 2 ^ 15)
    (room : ∀ k < frames.length, (VP8Payloader.advance^[k] p).usingHeaderSize < mtu) (n : Nat)
    (assembled : Assembled past c) (closed : openRun past = []) :
    ∃ q packets, Machine.runM (fun p frame => VP8Payloader.payloadJs p mtu frame) p frames = .ok (q, packets) ∧
      (Machine.run (Client.onArrival fun _ => true) c
        (((wrapFrames stamps initial n packets).map Fields.encode).filterMap arrival?)).2.map (·.data) =
        frames := by
  induction frames generalizing p c past n with
  | nil => exact ⟨p, [], rfl, rfl⟩
  | cons frame rest ih =>
    have some : frame ≠ [] := nonempty frame List.mem_cons_self
    obtain ⟨fragments, sent, splits⟩ := VP8Payloader.payloadWith_room mtu (room 0 (Nat.succ_pos _)) some
    obtain ⟨completes, bodies⟩ := wrapFrame_completes stamps initial small fragments n true []
      (splits.ne_nil some) (fun fragment member => (splits.bounded fragment member).1) (fun _ => rfl) (by simp)
    rw [← closed] at completes
    obtain ⟨c', chunk, run, same, assembled', closed'⟩ := run_completes assembled _ completes
    obtain ⟨q, packets, later, decoded⟩ := ih (fun frame member => nonempty frame (List.mem_cons_of_mem _ member))
      (p := p.advance) (by rw [VP8Payloader.advance_pictureId]; omega)
      (fun k bound => by
        rw [← Function.iterate_succ_apply]
        exact room (k + 1) (Nat.succ_lt_succ bound))
      (n + (decorate p.packet true fragments).length) assembled' closed'
    refine ⟨q, decorate p.packet true fragments :: packets, Machine.runM_cons_ok sent later, ?_⟩
    rw [closed, List.nil_append, bodies, splits.joined] at same
    rw [wrapFrames, List.map_append, List.filterMap_append, Machine.run_append, run]
    simp only [List.singleton_append, List.map_cons, same, decoded]

/-- Every frame is decoded once, in order and unchanged, across the wraps of the
sequence number and of the picture id. -/
theorem lossless_delivery (stamps : Nat → Stamp) (initial : UInt16) (enable : Bool) (id : UInt16) (mtu : Int)
    (frames : List (List UInt8)) (nonempty : ∀ frame ∈ frames, frame ≠ [])
    (room : ∀ k < frames.length, (VP8Payloader.advance^[k]
      ((VP8Payloader.enablePictureID {} enable).setPictureID id)).usingHeaderSize < mtu) :
    ∃ datagrams c outputs,
      send stamps initial ((VP8Payloader.enablePictureID {} enable).setPictureID id) mtu frames = .ok datagrams ∧
      Machine.runM (Client.processRTPPacket fun _ => true) {} datagrams = .ok (c, outputs) ∧
      outputs.flatten.map (·.data) = frames := by
  have start : Assembled [] ({} : Client) := ⟨rfl, by simp, rfl⟩
  have small : ((VP8Payloader.enablePictureID {} enable).setPictureID id).pictureId.toNat < 2 ^ 15 := by
    obtain ⟨_, _, called, small⟩ := VP8Payloader.call_small (p := VP8Payloader.enablePictureID {} enable)
      (.setPictureID id) (show (0 : UInt16).toNat < 2 ^ 15 by decide)
    obtain ⟨rfl, _⟩ := Prod.mk.inj (Except.ok.inj called)
    exact small
  obtain ⟨q, packets, sent, decoded⟩ := deliver_frames stamps initial mtu frames nonempty small room 0 start rfl
  obtain ⟨rtp, vp8, outputs, run, same⟩ := run_processRTPPacket (fun _ => true) {}
    ((wrapFrames stamps initial 0 packets).map Fields.encode)
  refine ⟨_, _, outputs, ?_, run, ?_⟩
  · rw [send, sent]
    rfl
  · rw [same]
    exact decoded

/-- Three frames with the largest picture id, the last sequence number and packets of at
most six bytes. -/
theorem lossless_delivery_wraps : ∃ datagrams c outputs,
    send (fun _ => ⟨2, 96, 90000, 7⟩) 0xFFFF ((VP8Payloader.enablePictureID {} true).setPictureID 0x7FFF) 6
      [[1, 2, 3, 4, 5], [6], [7, 8, 9]] = .ok datagrams ∧
    Machine.runM (Client.processRTPPacket fun _ => true) {} datagrams = .ok (c, outputs) ∧
    outputs.flatten.map (·.data) = [[1, 2, 3, 4, 5], [6], [7, 8, 9]] :=
  lossless_delivery (fun _ => ⟨2, 96, 90000, 7⟩) 0xFFFF true 0x7FFF 6 [[1, 2, 3, 4, 5], [6], [7, 8, 9]]
    (by decide) (by decide)

end WebTransport.Datagrams

import WebTransport.BidirectionalStream.Relay

/-! Lossless delivery over the stream: VP8 frames that are packetized, wrapped in RTP and
sent to the server's socket come out of the page's decoder, whatever the order of
datagrams and intervals and the cutting of the stream. -/
namespace WebTransport.BidirectionalStream

open Loop RTP VP8 Datagrams Fragment Grouping

theorem complete_of_completes (completes : Completes run rest) : Complete Arrival.marker rest := by
  induction rest generalizing run with
  | nil => exact completes.elim
  | cons a rest ih =>
    obtain ⟨-, -, -, marker, later⟩ := completes
    by_cases last : rest = []
    · subst last
      exact ⟨[], a, rfl, by simp, marker⟩
    · obtain ⟨front, final, rfl, quiet, marked⟩ := ih (later last)
      refine ⟨a :: front, final, rfl, ?_, marked⟩
      rw [List.forall_mem_cons]
      exact ⟨marker.trans (by simp), quiet⟩

theorem send_grouped (stamps : Nat → Stamp) (initial : UInt16) (mtu : Int) (frames : List (List UInt8))
    (nonempty : ∀ frame ∈ frames, frame ≠ []) {p : VP8Payloader} (small : p.pictureId.toNat < 2 ^ 15)
    (room : ∀ k < frames.length, (VP8Payloader.advance^[k] p).usingHeaderSize < mtu) (n : Nat) :
    ∃ q packets groups, Machine.runM (fun p frame => VP8Payloader.payloadJs p mtu frame) p frames = .ok (q, packets) ∧
      Grouped Arrival.marker (((wrapFrames stamps initial n packets).map Fields.encode).filterMap arrival?)
        groups [] ∧
      groups.map (·.flatMap (·.body)) = frames := by
  induction frames generalizing p n with
  | nil => exact ⟨p, [], [], rfl, .empty, rfl⟩
  | cons frame rest ih =>
    have some : frame ≠ [] := nonempty frame List.mem_cons_self
    have first : p.usingHeaderSize < mtu := room 0 (Nat.succ_pos _)
    obtain ⟨fragments, sent, splits⟩ := VP8Payloader.payloadWith_room mtu first some
    obtain ⟨completes, bodies⟩ := wrapFrame_completes stamps initial small fragments n true []
      (splits.ne_nil some) (fun fragment member => (splits.bounded fragment member).1) (fun _ => rfl) (by simp)
    obtain ⟨q, packets, groups, later, grouped, same⟩ := ih
      (fun frame member => nonempty frame (List.mem_cons_of_mem _ member))
      (p := p.advance) (by rw [VP8Payloader.advance_pictureId]; omega)
      (fun k bound => by
        rw [← Function.iterate_succ_apply]
        exact room (k + 1) (Nat.succ_lt_succ bound))
      (n + (decorate p.packet true fragments).length)
    refine ⟨q, _, ((wrapFrame stamps initial n (decorate p.packet true fragments)).map
      Fields.encode).filterMap arrival? :: groups, Machine.runM_cons_ok sent later, ⟨?_, ?_, by simp⟩, ?_⟩
    · rw [wrapFrames, List.map_append, List.filterMap_append, List.flatten_cons, List.append_assoc, grouped.joined]
    · rw [List.forall_mem_cons]
      exact ⟨complete_of_completes completes, grouped.complete⟩
    · rw [List.map_cons, bodies, splits.joined, same]

/-- The event serves only this stream, which takes what is written. -/
def Relay.Event.Serves (viewer : Nat) : Relay.Event → Prop
  | .arrive _ => True
  | .tick stream _ written => stream = viewer ∧ written = true

theorem Relay.frames_alone (viewer : Nat) (events : List Relay.Event)
    (alone : ∀ event ∈ events, event.Serves viewer) (socket : List (List UInt8)) :
    frames viewer (Machine.run step socket events).2 = (Machine.run step socket events).2.map (·.frame) := by
  have served : ∀ s ∈ (Machine.run step socket events).2, (s.stream == viewer && s.written) = true := by
    refine Machine.run_outputs_of (fun event : Event => event.Serves viewer) ?_ socket events alone
    intro socket event serves s member
    cases event with
    | arrive datagram => simp [step] at member
    | tick stream now written =>
      obtain ⟨rfl, rfl⟩ := serves
      cases read : poll socket with
      | mk data rest => cases data <;> simp_all [step]
  rw [frames, List.filter_eq_self.mpr served]

/-- One viewer: with nothing lost on the way and no exception in front of `decode`, the
decoder gets exactly the frames, in order. -/
theorem stream_lossless (native : Bool) (returns : List Call → Call → Bool)
    (only : Page.OnlyDecodeThrows returns) (stamps : Nat → Stamp) (initial : UInt16) (enable : Bool) (pictureId : UInt16)
    (mtu : Int) (frames : List (List UInt8)) (nonempty : ∀ frame ∈ frames, frame ≠ [])
    (room : ∀ k < frames.length, (VP8Payloader.advance^[k]
      ((VP8Payloader.enablePictureID {} enable).setPictureID pictureId)).usingHeaderSize < mtu)
    (fits : 12 + mtu ≤ 65500) (events : List Relay.Event)
    (sent : send stamps initial ((VP8Payloader.enablePictureID {} enable).setPictureID pictureId) mtu frames =
      .ok (events.flatMap Relay.Event.arrived))
    (viewer : Nat) (alone : ∀ event ∈ events, event.Serves viewer)
    (read : (Machine.run Relay.step [] events).1 = []) (chunks : List (List UInt8))
    (cutting : chunks.flatten = Relay.bytes viewer (Machine.run Relay.step [] events).2) :
    ∃ page handed, Machine.runM (onChunk native (Page.process returns)) ⟨[], {}⟩ chunks = .ok (⟨[], page⟩, handed) ∧
      page.decoded = frames ∧ page.vp8FrameBuffer = [] := by
  have small : ((VP8Payloader.enablePictureID {} enable).setPictureID pictureId).pictureId.toNat < 2 ^ 15 := by
    rw [VP8Payloader.setPictureID, VP8Payloader.toNat_and_fifteen]
    omega
  obtain ⟨q, packets, groups, packetized, grouped, same⟩ :=
    send_grouped stamps initial mtu frames nonempty small room 0
  have datagrams : (wrapFrames stamps initial 0 packets).map Fields.encode = events.flatMap Relay.Event.arrived := by
    rw [send, packetized] at sent
    exact Except.ok.inj sent
  rw [datagrams] at grouped
  have whole : (Relay.frames viewer (Machine.run Relay.step [] events).2).map (·.data) =
      events.flatMap Relay.Event.arrived := by
    have relayed := Relay.relayed_once events
    rw [read, List.filterMap_nil, List.append_nil] at relayed
    rw [send_forwardable nonempty room fits sent] at relayed
    rw [Relay.frames_alone viewer events alone, List.map_map]
    exact relayed.symm
  obtain ⟨handed, run⟩ := Page.run_receive native returns chunks
  obtain ⟨delivered, same', drained⟩ := Relay.drain_bytes events viewer
  rw [cutting, drained] at run
  obtain ⟨shown, opened, divided⟩ := Page.foldl_divided returns
    (delivered.map fun f => arrival? f.val.data)
  have arrivals : (delivered.map fun f => arrival? f.val.data).filterMap id =
      (events.flatMap Relay.Event.arrived).filterMap arrival? := by
    rw [← whole, ← same', List.filterMap_map, List.map_map, List.filterMap_map]
    rfl
  rw [arrivals] at divided
  obtain ⟨rfl, rfl⟩ : opened = [] ∧ shown = groups :=
    Prod.mk.inj (((run_eq_iff _).mpr divided.grouped).symm.trans ((run_eq_iff _).mpr grouped))
  exact ⟨_, handed, run, (divided.all only).trans same, divided.buffer⟩

/-- Two frames of one packet each; the intervals fire behind both datagrams. -/
def oneViewer : List Relay.Event :=
  [.arrive [0x80, 0xE0, 0, 9, 0, 1, 0x5F, 0x90, 0, 0, 0, 7, 0x10, 0xA1],
    .arrive [0x80, 0xE0, 0, 10, 0, 1, 0x5F, 0x90, 0, 0, 0, 7, 0x10, 0xA2],
    .tick 3 40 true, .tick 3 41 true]

theorem stream_lossless_two : ∃ page handed,
    Machine.runM (onChunk false (Page.process fun _ _ => true)) ⟨[], {}⟩
      [(Relay.bytes 3 (Machine.run Relay.step [] oneViewer).2).take 20,
        (Relay.bytes 3 (Machine.run Relay.step [] oneViewer).2).drop 20] = .ok (⟨[], page⟩, handed) ∧
      page.decoded = [[0xA1], [0xA2]] ∧ page.vp8FrameBuffer = [] :=
  stream_lossless false (fun _ _ => true) (fun _ _ _ => rfl) (fun _ => ⟨2, 96, 90000, 7⟩) 9 false 0 5
    [[0xA1], [0xA2]] (by decide) (by decide) (by decide) oneViewer rfl 3
    (by simp [oneViewer, Relay.Event.Serves]) (by decide +kernel) _ (by simp)

end WebTransport.BidirectionalStream

import WebTransport.BidirectionalStream.Frame

/-! The client's reader loop. It keeps the bytes after the last whole frame and tries
again with the next chunk. What becomes of a frame after `Frame.deserialize` is a
parameter: the loop advances past it whichever way that ends. Buffers are unbounded. -/
namespace WebTransport.BidirectionalStream

open Loop BigEndian Framing

/-- How the handling of a deserialized frame ends: two `continue`s, the end of the
`try` block, or an exception. -/
inductive Exit where
  | rtpFailed
  | vp8Failed
  | finished
  | threw
  deriving DecidableEq, Repr

/-- Loop variables over one combined buffer, and what was handed to `Frame.deserialize`. -/
structure Scan (σ : Type) where
  offset : Nat
  world : σ
  handed : List (Except Thrown JsFrame)

structure Reader (σ : Type) where
  pendingBuffer : List UInt8
  world : σ

section

variable {σ : Type} (native : Bool) (process : σ → JsFrame → Exit × σ)

def framePass (combined : List UInt8) (s : Scan σ) : Except Fault (Pass (Scan σ) (Scan σ)) :=
  if s.offset + 13 ≤ combined.length then do
    let headerView ← slice combined s.offset 13
    let dataSize := ofBytes (← slice headerView 9 4)
    let frameEnd := s.offset + 13 + dataSize
    if combined.length < frameEnd then .ok (.leave s)
    else
      let frameBytes ← slice combined s.offset (frameEnd - s.offset)
      match deserialize native frameBytes with
      | .error thrown => .ok (.again ⟨frameEnd, s.world, s.handed ++ [.error thrown]⟩)
      | .ok frame =>
        let (exit, world) := process s.world frame
        match exit with
        | .rtpFailed | .vp8Failed => .ok (.again ⟨frameEnd, world, s.handed ++ [.ok frame]⟩)
        | .finished | .threw => .ok (.again ⟨frameEnd, world, s.handed ++ [.ok frame]⟩)
  else .ok (.leave s)

def onChunk (reader : Reader σ) (value : List UInt8) :
    Except Fault (Reader σ × List (Except Thrown JsFrame)) := do
  let combined := reader.pendingBuffer ++ value
  let scan ← loop (framePass native process combined) (combined.length + 1) ⟨0, reader.world, []⟩
  .ok (⟨combined.drop scan.offset, scan.world⟩, scan.handed)

end

abbrev Sendable := { f : Frame // f.Sendable }

theorem sendable_sized (type : UInt8) (timestamp : UInt64) (rest : List UInt8) :
    Frame.Sendable ⟨type, timestamp, (rest.drop 12).take (ofBytes ((rest.drop 8).take 4))⟩ := by
  have bound := ofBytes_lt ((rest.drop 8).take 4)
  have width : 256 ^ ((rest.drop 8).take 4).length ≤ 256 ^ 4 :=
    Nat.pow_le_pow_right (by decide) (List.length_take_le _ _)
  have taken := List.length_take_le (ofBytes ((rest.drop 8).take 4)) (rest.drop 12)
  change ((rest.drop 12).take (ofBytes ((rest.drop 8).take 4))).length < 2 ^ 32
  omega

def next? : List UInt8 → Option (Sendable × List UInt8)
  | [] => none
  | type :: rest =>
    let size := ofBytes ((rest.drop 8).take 4)
    if 12 + size ≤ rest.length then
      some (⟨⟨type, UInt64.ofNat (ofBytes (rest.take 8)), (rest.drop 12).take size⟩,
        sendable_sized type _ rest⟩, rest.drop (12 + size))
    else none

theorem drop_fields (timestamp size : Nat) (rest : List UInt8) :
    (toBytes 8 timestamp ++ (toBytes 4 size ++ rest)).drop 12 = rest := by
  rw [← List.append_assoc]
  exact List.drop_left' (by simp)

theorem fields_back (tail : List UInt8) (enough : 12 ≤ tail.length) :
    toBytes 8 (UInt64.ofNat (ofBytes (tail.take 8))).toNat ++
      (toBytes 4 (ofBytes ((tail.drop 8).take 4)) ++ tail.drop 12) = tail := by
  have timeBytes : (tail.take 8).length = 8 := by simp; omega
  have sizeBytes : ((tail.drop 8).take 4).length = 4 := by simp; omega
  have time : (UInt64.ofNat (ofBytes (tail.take 8))).toNat = ofBytes (tail.take 8) := by
    have bound := ofBytes_lt (tail.take 8)
    rw [timeBytes] at bound
    rw [UInt64.toNat_ofNat', Nat.mod_eq_of_lt (by omega)]
  have timeBack := toBytes_ofBytes (tail.take 8)
  have sizeBack := toBytes_ofBytes ((tail.drop 8).take 4)
  rw [timeBytes] at timeBack
  rw [sizeBytes] at sizeBack
  have behind : (tail.drop 8).drop 4 = tail.drop 12 := List.drop_drop
  calc _ = tail.take 8 ++ ((tail.drop 8).take 4 ++ (tail.drop 8).drop 4) := by
        rw [time, timeBack, sizeBack, behind]
    _ = tail := by rw [List.take_append_drop, List.take_append_drop]

theorem next?_serialize (f : Sendable) (rest : List UInt8) : next? (f.val.serialize ++ rest) = some (f, rest) := by
  obtain ⟨⟨type, timestamp, data⟩, sendable⟩ := f
  have size : ofBytes (toBytes 4 data.length) = data.length := ofBytes_toBytes_of_lt sendable
  have time : ofBytes (toBytes 8 timestamp.toNat) = timestamp.toNat :=
    ofBytes_toBytes_of_lt timestamp.toNat_lt
  have after : (toBytes 8 timestamp.toNat ++ (toBytes 4 data.length ++ (data ++ rest))).drop
      (12 + data.length) = rest := by rw [← List.drop_drop, drop_fields, List.drop_left]
  rw [Frame.serialize_eq _ sendable, List.cons_append, List.append_assoc, List.append_assoc]
  simp only [next?, take_toBytes, drop_toBytes, drop_fields, size, time, after, List.take_left,
    UInt64.ofNat_toNat]
  rw [if_pos (by simp; omega)]

/-- What is recognised is exactly a serialized frame. -/
theorem eq_serialize (h : next? xs = some (f, rest)) : xs = f.val.serialize ++ rest := by
  cases xs with
  | nil => simp [next?] at h
  | cons type tail =>
    simp only [next?] at h
    split at h
    next whole =>
      obtain ⟨rfl, rfl⟩ := Prod.mk.inj (Option.some.inj h)
      have size : ((tail.drop 12).take (ofBytes ((tail.drop 8).take 4))).length =
          ofBytes ((tail.drop 8).take 4) := by simp; omega
      rw [Frame.serialize_eq _ (sendable_sized _ _ _), size, List.cons_append, List.append_assoc,
        List.append_assoc, ← List.drop_drop, List.take_append_drop, fields_back tail (by omega)]
    next => cases h

def frameCodec : Codec UInt8 Sendable where
  next := next?
  shrinks h := by
    rw [eq_serialize h, List.length_append]
    simp [Frame.serialize]
  stable more h := by rw [eq_serialize h, List.append_assoc, next?_serialize]
  encode f := f.val.serialize
  decodes := next?_serialize

theorem deserialize_serialize (native : Bool) (f : Frame) (sendable : f.Sendable) :
    deserialize native f.serialize = .ok f.toJs := by
  have size : ofBytes (toBytes 4 f.data.length) = f.data.length := ofBytes_toBytes_of_lt sendable
  have time : ofBytes (toBytes 8 f.timestamp.toNat) = f.timestamp.toNat :=
    ofBytes_toBytes_of_lt f.timestamp.toNat_lt
  have length := f.length_serialize sendable
  have typeByte : ofBytes ((f.serialize.drop 0).take 1) = f.type.toNat := by
    rw [Frame.serialize_eq f sendable]
    simp [ofBytes]
  have timeBytes : (f.serialize.drop 1).take 8 = toBytes 8 f.timestamp.toNat := by
    rw [Frame.serialize_eq f sendable, List.drop_one, List.tail_cons, take_toBytes]
  have sizeBytes : (f.serialize.drop 9).take 4 = toBytes 4 f.data.length := by
    rw [Frame.serialize_eq f sendable, List.drop_succ_cons, drop_toBytes, take_toBytes]
  have body : f.serialize.drop 13 = f.data := by
    rw [Frame.serialize_eq f sendable, List.drop_succ_cons, drop_fields]
  rw [deserialize, if_neg (by omega), getUint_of_le _ (by omega), typeByte,
    getTimestamp_of_le native _ (by omega), timeBytes, time, getUint_of_le _ (by omega), sizeBytes, size]
  simp only [ok_bind, length, lt_irrefl, if_false, body, List.take_length, UInt8.ofNat_toNat]
  rfl

section

variable {σ : Type} (native : Bool) (process : σ → JsFrame → Exit × σ) {combined : List UInt8} {s : Scan σ}

/-- With a whole frame at the offset, a pass hands it over and stands behind it,
whatever becomes of the frame. -/
theorem framePass_some {f : Sendable} (here : combined.drop s.offset = f.val.serialize ++ rest) :
    ∃ offset world, framePass native process combined s =
        .ok (.again ⟨offset, world, s.handed ++ [.ok f.val.toJs]⟩) ∧
      combined.drop offset = rest ∧ s.offset < offset ∧ offset ≤ combined.length := by
  have length := f.val.length_serialize f.property
  have total := congrArg List.length here
  rw [List.length_drop, List.length_append, length] at total
  have size : ofBytes (((combined.drop s.offset).take 13 |>.drop 9).take 4) = f.val.data.length := by
    have front : (combined.drop s.offset).take 13 = f.val.type ::
        (toBytes 8 f.val.timestamp.toNat ++ toBytes 4 f.val.data.length) := by
      rw [here, Frame.serialize_eq f.val f.property, List.cons_append, List.append_assoc, List.append_assoc,
        List.take_succ_cons, ← List.append_assoc]
      rw [List.take_left' (by simp)]
    rw [front, List.drop_succ_cons, drop_toBytes, List.take_of_length_le (by simp), ofBytes_toBytes_of_lt f.property]
  have bytes : (combined.drop s.offset).take (13 + f.val.data.length) = f.val.serialize := by
    rw [here, List.take_left' length]
  refine ⟨s.offset + 13 + f.val.data.length, (process s.world f.val.toJs).2, ?_, ?_, by omega, by omega⟩
  · rw [framePass, if_pos (by omega), slice_of_le (by omega), ok_bind,
      slice_of_le (by rw [List.length_take, List.length_drop]; omega), ok_bind]
    simp only [size]
    rw [if_neg (by omega), slice_of_le (by omega), ok_bind,
      show s.offset + 13 + f.val.data.length - s.offset = 13 + f.val.data.length by omega, bytes,
      deserialize_serialize native f.val f.property]
    obtain ⟨exit, outcome⟩ : ∃ exit, (process s.world f.val.toJs).1 = exit := ⟨_, rfl⟩
    simp only [outcome]
    cases exit <;> rfl
  · rw [Nat.add_assoc, ← List.drop_drop, here, List.drop_left' length]

theorem framePass_none (none : next? (combined.drop s.offset) = none) :
    framePass native process combined s = .ok (.leave s) := by
  by_cases header : s.offset + 13 ≤ combined.length
  · rw [framePass, if_pos header, slice_of_le (by omega), ok_bind,
      slice_of_le (by rw [List.length_take, List.length_drop]; omega), ok_bind]
    have start : s.offset < combined.length := by omega
    rw [List.drop_eq_getElem_cons start] at none ⊢
    simp only [next?, List.drop_drop] at none
    split at none
    · cases none
    · rename_i short
      rw [List.length_drop] at short
      have size : ((combined[s.offset] :: combined.drop (s.offset + 1)).take 13 |>.drop 9).take 4 =
          (combined.drop (s.offset + 1 + 8)).take 4 := by
        rw [List.drop_take, List.take_take, List.drop_succ_cons, List.drop_drop]
        rfl
      rw [size, if_pos (by omega)]
  · rw [framePass, if_neg header]

theorem framePass_loop (combined : List UInt8) (offset : Nat) (world : σ) (handed : List (Except Thrown JsFrame))
    (inside : offset ≤ combined.length) (enough : combined.length - offset < fuel) :
    ∃ scan : Scan σ, loop (framePass native process combined) fuel ⟨offset, world, handed⟩ = .ok scan ∧
      combined.drop scan.offset = (drain frameCodec.toDecoder (combined.drop offset)).2 ∧
      scan.handed = handed ++
        (drain frameCodec.toDecoder (combined.drop offset)).1.map fun f => .ok f.val.toJs := by
  induction fuel generalizing offset world handed with
  | zero => omega
  | succ fuel ih =>
    cases found : next? (combined.drop offset) with
    | none =>
      refine ⟨⟨offset, world, handed⟩, loop_leave (framePass_none native process found), ?_⟩
      rw [drain_none (d := frameCodec.toDecoder) found]
      simp
    | some result =>
      obtain ⟨f, rest⟩ := result
      obtain ⟨offset', world', pass, behind, forward, inside'⟩ :=
        framePass_some native process (s := ⟨offset, world, handed⟩) (eq_serialize found)
      obtain ⟨scan, run, pending, got⟩ := ih offset' world' _ inside' (by simp only at forward; omega)
      refine ⟨scan, by rw [loop_again pass, run], ?_⟩
      rw [drain_some (d := frameCodec.toDecoder) found, pending, got, behind]
      simp

/-- One chunk is one step of the framing receiver. -/
theorem onChunk_receive (pending value : List UInt8) (world : σ) :
    ∃ world', onChunk native process ⟨pending, world⟩ value =
      .ok (⟨(receive frameCodec.toDecoder pending value).1, world'⟩,
        (receive frameCodec.toDecoder pending value).2.map fun f => .ok f.val.toJs) := by
  obtain ⟨scan, run, rest, got⟩ := framePass_loop native process (pending ++ value) 0 world []
    (Nat.zero_le _) (show (pending ++ value).length - 0 < (pending ++ value).length + 1 by omega)
  refine ⟨scan.world, ?_⟩
  simp only [onChunk, run, ok_bind, rest, got, List.drop_zero, List.nil_append]
  rfl

theorem run_onChunk (chunks : List (List UInt8)) (pending : List UInt8) (world : σ) :
    ∃ world' handed, Machine.runM (onChunk native process) ⟨pending, world⟩ chunks =
        .ok (⟨(Machine.run (receive frameCodec.toDecoder) pending chunks).1, world'⟩, handed) ∧
      handed.flatten =
        (Machine.run (receive frameCodec.toDecoder) pending chunks).2.map fun f => .ok f.val.toJs := by
  induction chunks generalizing pending world with
  | nil => exact ⟨world, [], rfl, rfl⟩
  | cons value rest ih =>
    obtain ⟨world', now⟩ := onChunk_receive native process pending value world
    obtain ⟨world'', handed, later, same⟩ := ih (receive frameCodec.toDecoder pending value).1 world'
    refine ⟨world'', _, Machine.runM_cons_ok now later, ?_⟩
    rw [List.flatten_cons, same, Machine.run_cons, List.map_append]

def handled (world : σ) (handed : List (Except Thrown JsFrame)) : σ :=
  handed.foldl (fun world result => match result with
    | .ok frame => (process world frame).2
    | .error _ => world) world

/-- A pass leaves the loop as it came, or hands one result over. -/
theorem framePass_cases (pass : framePass native process combined s = .ok outcome) : outcome = .leave s ∨
    ∃ offset result, outcome = .again ⟨offset, handled process s.world [result], s.handed ++ [result]⟩ := by
  unfold framePass at pass
  split at pass
  · obtain ⟨headerView, -, read⟩ := ok_of_bind pass
    obtain ⟨sizeBytes, -, scanned⟩ := ok_of_bind read
    dsimp only at scanned
    split at scanned
    · exact .inl (Except.ok.inj scanned).symm
    · obtain ⟨frameBytes, -, done⟩ := ok_of_bind scanned
      split at done
      · rename_i thrown _
        exact .inr ⟨_, .error thrown, (Except.ok.inj done).symm⟩
      · rename_i frame _
        split at done <;> exact .inr ⟨_, .ok frame, (Except.ok.inj done).symm⟩
  · exact .inl (Except.ok.inj pass).symm

theorem onChunk_handled (reader : Reader σ) (value : List UInt8) (next : Reader σ)
    (handed : List (Except Thrown JsFrame)) (run : onChunk native process reader value = .ok (next, handed)) :
    next.world = handled process reader.world handed := by
  obtain ⟨scan, ended, rest⟩ := ok_of_bind run
  obtain ⟨rfl, rfl⟩ := Prod.mk.inj (Except.ok.inj rest)
  obtain ⟨heads, last, passed, leaves⟩ := Passed.leaves .entry ended
  rcases framePass_cases native process leaves with same | ⟨offset, result, again⟩
  · obtain rfl := Pass.leave.inj same
    refine passed.reached.invariant (fun s => s.world = handled process reader.world s.handed) ?_ rfl
    intro s t before pass
    rcases framePass_cases native process pass with leave | ⟨offset, result, again⟩
    · cases leave
    · obtain rfl := Pass.again.inj again
      simp only [before, handled, List.foldl_append]
  · cases again

/-- The world at the end of any chunking is that of the frames of the whole. -/
theorem run_handled (chunks : List (List UInt8)) (world : σ) :
    ∃ handed, Machine.runM (onChunk native process) ⟨[], world⟩ chunks =
        .ok (⟨(drain frameCodec.toDecoder chunks.flatten).2,
          ((drain frameCodec.toDecoder chunks.flatten).1).foldl (fun world f => (process world f.val.toJs).2) world⟩,
          handed) := by
  obtain ⟨world', handed, run, same⟩ := run_onChunk native process chunks [] world
  have folded := Machine.runM_fold Reader.world (handled process) (onChunk_handled native process) run
  rw [run_receive (d := frameCodec.toDecoder) rfl, List.nil_append] at run same
  refine ⟨handed, ?_⟩
  have flat : handed.foldl (handled process) world = handled process world handed.flatten := by
    rw [handled, List.foldl_flatten]
    rfl
  have last : world' = ((drain frameCodec.toDecoder chunks.flatten).1).foldl
      (fun world f => (process world f.val.toJs).2) world := by
    rw [show world' = handed.foldl (handled process) world from folded, flat, same, handled, List.foldl_map]
  rw [run, last]

end

theorem serialize_ne_nil (f : Sendable) : frameCodec.encode f ≠ [] := by
  simp [frameCodec, Frame.serialize]

/-- However the serialized frames are cut into chunks, exactly they are handed over, in
order; and after each chunk the whole frames received were, and the rest is kept. -/
theorem frames_survive_chunking {σ : Type} (native : Bool) (process : σ → JsFrame → Exit × σ) (world : σ)
    (frames : List Sendable) (chunks : List (List UInt8))
    (cutting : chunks.flatten = (frames.map fun f => f.val.serialize).flatten) :
    (∃ world' handed, Machine.runM (onChunk native process) ⟨[], world⟩ chunks = .ok (⟨[], world'⟩, handed) ∧
      handed.flatten = frames.map fun f => .ok f.val.toJs) ∧
    ∀ before after, chunks = before ++ after → ∃ whole pending world' handed,
      Machine.runM (onChunk native process) ⟨[], world⟩ before = .ok (⟨pending, world'⟩, handed) ∧
        handed.flatten = ((frames.take whole).map fun f => .ok f.val.toJs) ∧
        Received frameCodec frames before.flatten whole pending := by
  have drained (before : List (List UInt8)) (whole : Nat) (pending : List UInt8)
      (got : Received frameCodec frames before.flatten whole pending) : ∃ world' handed,
      Machine.runM (onChunk native process) ⟨[], world⟩ before = .ok (⟨pending, world'⟩, handed) ∧
        handed.flatten = (frames.take whole).map fun f => .ok f.val.toJs := by
    obtain ⟨world', handed, run, same⟩ := run_onChunk native process before [] world
    rw [run_receive (d := frameCodec.toDecoder) rfl, List.nil_append, drain_received rfl got] at run same
    exact ⟨world', handed, run, same⟩
  constructor
  · have all : Received frameCodec frames chunks.flatten frames.length [] :=
      ⟨Nat.le_refl _, by rw [cutting, List.take_length, List.append_nil]; rfl, by simp, fun _ => rfl⟩
    simpa using drained chunks frames.length [] all
  · rintro before after rfl
    rw [List.flatten_append] at cutting
    obtain ⟨whole, pending, got⟩ := received_of_prefix serialize_ne_nil frames cutting
    obtain ⟨world', handed, run, same⟩ := drained before whole pending got
    exact ⟨whole, pending, world', handed, run, same, got⟩

/-- Two frames, cut inside the first header and inside the second body; the handling of
every frame throws. -/
theorem frames_survive_chunking_two :
    ∃ world' handed, Machine.runM (onChunk true fun (_ : Unit) _ => (.threw, ()))
        ⟨[], ()⟩ [[0, 0, 0, 0], [0, 0, 0, 0, 7, 0, 0, 0, 1, 0xAA, 0, 0, 0, 0, 0, 0, 0, 0, 8, 0, 0, 0, 2, 0xBB], [0xCC]] =
        .ok (⟨[], world'⟩, handed) ∧
      handed.flatten = [.ok ⟨0, 7, [0xAA]⟩, .ok ⟨0, 8, [0xBB, 0xCC]⟩] :=
  (frames_survive_chunking true (fun (_ : Unit) _ => (.threw, ())) ()
    [⟨⟨0, 7, [0xAA]⟩, by unfold Frame.Sendable; decide⟩, ⟨⟨0, 8, [0xBB, 0xCC]⟩, by unfold Frame.Sendable; decide⟩]
    _ (by decide +kernel)).1

/-- The JavaScript serializer writes what the C++ one writes of the reduced fields, and these
are what any reader gets, whatever the chunks and on whichever browsers. -/
theorem js_frames_survive {σ : Type} (native native' : Bool) (process : σ → JsFrame → Exit × σ) (world : σ)
    (frames : List AnyFrame) (small : ∀ f ∈ frames, f.data.length < 2 ^ 32) (chunks : List (List UInt8))
    (cutting : chunks.flatten = (frames.map (·.serialize native)).flatten) :
    (∀ f ∈ frames, f.serialize native = f.reduce.serialize) ∧
    ∃ world' handed, Machine.runM (onChunk native' process) ⟨[], world⟩ chunks = .ok (⟨[], world'⟩, handed) ∧
      handed.flatten = frames.map fun f =>
        .ok ⟨AnyFrame.setUint8 f.type, (f.timestamp % 2 ^ 64).toNat, f.data⟩ := by
  obtain ⟨world', handed, run, same⟩ := run_onChunk native' process chunks [] world
  have sendable (f : { f // f ∈ frames }) : f.val.reduce.Sendable := small f.val f.property
  let sendables : List Sendable := frames.attach.map fun f => ⟨f.val.reduce, sendable f⟩
  have encoded : chunks.flatten = (sendables.map frameCodec.encode).flatten ++ [] := by
    rw [cutting, List.append_nil, List.map_map]
    conv_lhs => rw [← List.attach_map_subtype_val frames, List.map_map]
    congr 1
    exact List.map_congr_left fun f _ => f.val.serialize_eq native
  rw [run_receive (d := frameCodec.toDecoder) rfl, List.nil_append, encoded, drain_encode,
    drain_none (show frameCodec.toDecoder.next [] = none from rfl), List.append_nil] at run same
  refine ⟨fun f _ => f.serialize_eq native, world', handed, run, ?_⟩
  rw [same, List.map_map]
  conv_rhs => rw [← List.attach_map_subtype_val frames, List.map_map]
  refine List.map_congr_left fun f _ => ?_
  have time : (UInt64.ofNat (f.val.timestamp % 2 ^ 64).toNat).toNat = (f.val.timestamp % 2 ^ 64).toNat := by
    rw [UInt64.toNat_ofNat', Nat.mod_eq_of_lt (by omega)]
  simp only [Function.comp_apply, Frame.toJs, AnyFrame.reduce, time]

/-- A type and a time below zero, through the loop, in chunks of nine and six bytes. -/
theorem js_frames_survive_negative :
    (∀ f ∈ [(⟨-1, -2, [0xAA, 0xBB]⟩ : AnyFrame)], f.serialize false = f.reduce.serialize) ∧
    ∃ world' handed, Machine.runM (onChunk true fun (_ : Unit) _ => (.finished, ()))
        ⟨[], ()⟩ [[0xFF, 0xFF, 0xFF, 0xFF, 0xFF, 0xFF, 0xFF, 0xFF, 0xFE], [0, 0, 0, 2, 0xAA, 0xBB]] =
        .ok (⟨[], world'⟩, handed) ∧
      handed.flatten = [(⟨-1, -2, [0xAA, 0xBB]⟩ : AnyFrame)].map fun f =>
        .ok ⟨AnyFrame.setUint8 f.type, (f.timestamp % 2 ^ 64).toNat, f.data⟩ :=
  js_frames_survive false true (fun (_ : Unit) _ => (.finished, ())) () [⟨-1, -2, [0xAA, 0xBB]⟩]
    (by simp) _ (by decide +kernel)

end WebTransport.BidirectionalStream

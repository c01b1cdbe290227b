import WebTransport.Datagrams.Delivery

/-! The interval callback that the media servers share: one non-blocking read from a UDP
socket. The socket is the list of the datagrams that it holds. -/
namespace WebTransport.Datagrams

open RTP VP8 Fragment

/-- The result of `recvfrom`, the bytes in the buffer, and the socket after. The part of a
datagram that exceeds the buffer is lost. -/
def recvfrom (size : Nat) : List (List UInt8) → Int × List UInt8 × List (List UInt8)
  | [] => (-1, [], [])
  | datagram :: rest => ((datagram.take size).length, datagram.take size, rest)

def poll (socket : List (List UInt8)) : Option (List UInt8) × List (List UInt8) :=
  let (bytesReceived, buffer, rest) := recvfrom 65500 socket
  if 0 < bytesReceived then (some buffer, rest) else (none, rest)

/-- What a datagram is to the callback: nothing at all if it is empty. -/
def forwardable (datagram : List UInt8) : Option (List UInt8) :=
  if datagram = [] then none else some (datagram.take 65500)

theorem poll_cons (datagram : List UInt8) (rest : List (List UInt8)) :
    poll (datagram :: rest) = (forwardable datagram, rest) := by
  cases datagram with
  | nil => rfl
  | cons byte more =>
    have some : (0 : Int) < ((byte :: more).take 65500).length := by
      rw [List.length_take, List.length_cons]
      omega
    rw [poll, recvfrom, forwardable, if_neg (List.cons_ne_nil _ _)]
    exact if_pos some

theorem forwardable_length (forwarded : forwardable datagram = some data) : data ≠ [] ∧ data.length ≤ 65500 := by
  unfold forwardable at forwarded
  split at forwarded
  · cases forwarded
  · rename_i some
    obtain rfl := Option.some.inj forwarded
    exact ⟨by simpa using some, List.length_take_le _ _⟩

theorem forwardable_small (some : datagram ≠ []) (small : datagram.length ≤ 65500) :
    forwardable datagram = .some datagram := by
  rw [forwardable, if_neg some, List.take_of_length_le small]

theorem length_wrap (stamp : Stamp) (sequenceNumber : UInt16) (marker : Bool) (payload : List UInt8) :
    (wrap stamp sequenceNumber marker payload).encode.length = 12 + payload.length := by
  simp [Fields.encode, Fields.csrcBytes, Fields.extensionBytes, Fields.paddingBytes, wrap]
  rfl

theorem wrapFrame_forwardable (stamps : Nat → Stamp) (initial : UInt16)
    (bound : ∀ packet ∈ packets, packet.length ≤ 65488) (n : Nat) :
    ∀ f ∈ wrapFrame stamps initial n packets, forwardable f.encode = some f.encode := by
  induction packets generalizing n with
  | nil => simp [wrapFrame]
  | cons packet rest ih =>
    obtain ⟨first, others⟩ := List.forall_mem_cons.mp bound
    rw [wrapFrame, List.forall_mem_cons]
    have length := length_wrap (stamps n) (initial + UInt16.ofNat n) rest.isEmpty packet
    refine ⟨forwardable_small (List.length_pos_iff.mp (by omega)) (by omega), ih others (n + 1)⟩

theorem wrapFrames_forwardable (stamps : Nat → Stamp) (initial : UInt16)
    (bound : ∀ packets ∈ frames, ∀ packet ∈ packets, packet.length ≤ 65488) (n : Nat) :
    ∀ f ∈ wrapFrames stamps initial n frames, forwardable f.encode = some f.encode := by
  induction frames generalizing n with
  | nil => simp [wrapFrames]
  | cons packets rest ih =>
    obtain ⟨first, others⟩ := List.forall_mem_cons.mp bound
    rw [wrapFrames, List.forall_mem_append]
    exact ⟨wrapFrame_forwardable stamps initial first n, ih others _⟩

/-- No packet is longer than the mtu. -/
theorem payloadJs_bounded (mtu : Int) (frames : List (List UInt8)) (nonempty : ∀ frame ∈ frames, frame ≠ [])
    (room : ∀ k < frames.length, (VP8Payloader.advance^[k] p).usingHeaderSize < mtu)
    (run : Machine.runM (fun p frame => VP8Payloader.payloadJs p mtu frame) p frames = .ok (q, packets)) :
    ∀ ofFrame ∈ packets, ∀ packet ∈ ofFrame, (packet.length : Int) ≤ mtu := by
  induction frames generalizing p packets with
  | nil => cases run; simp
  | cons frame rest ih =>
    have first : p.usingHeaderSize < mtu := room 0 (Nat.succ_pos _)
    obtain ⟨fragments, sent, splits⟩ := VP8Payloader.payloadWith_room mtu first (nonempty frame List.mem_cons_self)
    obtain ⟨⟨p', sent'⟩, now, later⟩ := Loop.ok_of_bind run
    obtain ⟨⟨q', more⟩, tail, done⟩ := Loop.ok_of_bind later
    obtain ⟨rfl, rfl⟩ := Prod.mk.inj (Except.ok.inj (now.symm.trans sent))
    obtain ⟨rfl, rfl⟩ := Prod.mk.inj (Except.ok.inj done)
    rw [List.forall_mem_cons]
    refine ⟨fun packet member => ?_, ih (fun frame member => nonempty frame (List.mem_cons_of_mem _ member)) ?_ tail⟩
    · obtain ⟨fragment, cut, isFirst, isLast, rfl⟩ := mem_decorate member
      have bound := (splits.bounded fragment cut).2
      rw [VP8Payloader.packet, List.length_append, VP8Payloader.length_header]
      omega
    · intro k bound
      rw [← Function.iterate_succ_apply]
      exact room (k + 1) (Nat.succ_lt_succ bound)

/-- Each datagram of a sender with a small enough mtu is forwarded whole. -/
theorem send_forwardable {mtu : Int} (nonempty : ∀ frame ∈ frames, frame ≠ [])
    (room : ∀ k < frames.length, (VP8Payloader.advance^[k] p).usingHeaderSize < mtu) (fits : 12 + mtu ≤ 65500)
    (sent : send stamps initial p mtu frames = .ok datagrams) : datagrams.filterMap forwardable = datagrams := by
  obtain ⟨⟨q, packets⟩, packetized, wrapped⟩ := Loop.ok_of_bind sent
  obtain rfl := Except.ok.inj wrapped
  have bounds := payloadJs_bounded mtu frames nonempty room packetized
  have small : ∀ ofFrame ∈ packets, ∀ packet ∈ ofFrame, packet.length ≤ 65488 := by
    intro ofFrame member packet inside
    have bound := bounds ofFrame member packet inside
    omega
  rw [List.filterMap_map]
  refine (List.filterMap_congr fun f member => ?_).trans (congrFun List.filterMap_eq_map _)
  exact wrapFrames_forwardable stamps initial small 0 f member

end WebTransport.Datagrams

import WebTransport.VP8.Payloader

/-! VP8 frames through the packetizer and the depacketizer, over runs of calls. One
call is delivered whatever the receiver's packet object held before; the picture id
stays below 2^15 on every run, which is what lets its two formats be told apart. -/
namespace WebTransport.VP8

open Loop Fragment

namespace VP8Payloader

variable {p : VP8Payloader} {frame : List UInt8}

def advance (p : VP8Payloader) : VP8Payloader := { p with pictureId := (p.pictureId + 1) &&& 0x7FFF }

theorem advance_pictureId (p : VP8Payloader) :
    p.advance.pictureId.toNat = (p.pictureId.toNat + 1) % 2 ^ 15 := by
  rw [advance, toNat_and_fifteen, UInt16.toNat_add]
  simp only [UInt16.toNat_one]
  omega

theorem payloadWith_no_room (mtu : Int) (none : mtu ≤ p.usingHeaderSize) :
    p.payloadWith mtu frame = .ok (p, []) := by
  have full : mtu - p.usingHeaderSize ≤ 0 := by omega
  simp only [payloadWith, full, if_true, ite_self]

theorem payloadWith_room (mtu : Int) (room : p.usingHeaderSize < mtu) (some : frame ≠ []) :
    ∃ fragments, p.payloadWith mtu frame = .ok (p.advance, decorate p.packet true fragments) ∧
      Splits (mtu - p.usingHeaderSize).toNat frame fragments := by
  have cutting : ∃ fragments, cut (mtu - p.usingHeaderSize).toNat p.packet frame =
      .ok (decorate p.packet true fragments) ∧ Splits (mtu - p.usingHeaderSize).toNat frame fragments :=
    cut_ok (by omega) frame
  obtain ⟨fragments, run, splits⟩ := cutting
  have nonempty : frame.length ≠ 0 := fun none => some (List.length_eq_zero_iff.mp none)
  refine ⟨fragments, ?_, splits⟩
  have fits : ¬ mtu - p.usingHeaderSize ≤ 0 := by omega
  simp only [payloadWith, nonempty, if_false, fits, run, ok_bind]
  rfl

/-- The packets of one frame with the bodies they carry: each is small enough, and any
`VP8Packet` accepts it, returns its body and reads the flags and the id of this call. -/
structure Delivers (p : VP8Payloader) (mtu : Nat) (frame : List UInt8)
    (packets bodies : List (List UInt8)) : Prop where
  same : packets.length = bodies.length
  joined : bodies.flatten = frame
  each : ∀ i packet body, packets[i]? = some packet → bodies[i]? = some body →
    packet.length ≤ mtu ∧ body ≠ [] ∧ ∀ (q : VP8Packet) (output : List UInt8),
      ∃ r, q.unmarshal packet output = .ok (.ok, r, body) ∧ p.Reads r (i == 0)

theorem delivers (small : p.pictureId.toNat < 2 ^ 15) (room : p.usingHeaderSize < mtu)
    (splits : Splits (mtu - p.usingHeaderSize) frame fragments) :
    p.Delivers mtu frame (decorate p.packet true fragments) fragments where
  same := length_decorate true fragments
  joined := splits.joined
  each i packet body sent carried := by
    obtain ⟨some, bound⟩ := splits.bounded body (List.mem_of_getElem? carried)
    rw [getElem?_decorate, carried, Option.map_some, Option.some.injEq, Bool.true_and] at sent
    subst sent
    refine ⟨?_, some, fun q output => unmarshal_packet small _ some output⟩
    rw [packet, List.length_append, length_header]
    omega

theorem payload_delivers (mtu : UInt16) (small : p.pictureId.toNat < 2 ^ 15)
    (room : p.usingHeaderSize < mtu.toNat) (some : frame ≠ []) :
    ∃ packets bodies, p.payload mtu frame = .ok (p.advance, packets) ∧
      p.Delivers mtu.toNat frame packets bodies := by
  obtain ⟨fragments, run, splits⟩ := payloadWith_room mtu.toNat (Int.ofNat_lt.mpr room) some
  have natural : ((mtu.toNat : Int) - p.usingHeaderSize).toNat = mtu.toNat - p.usingHeaderSize := by omega
  rw [natural] at splits
  exact ⟨_, fragments, run, delivers small room splits⟩

inductive Call where
  | enablePictureID (enable : Bool)
  | setPictureID (id : UInt16)
  | payload (mtu : UInt16) (frame : List UInt8)

def call (p : VP8Payloader) : Call → Except Fault (VP8Payloader × List (List UInt8))
  | .enablePictureID enable => .ok (p.enablePictureID enable, [])
  | .setPictureID id => .ok (p.setPictureID id, [])
  | .payload mtu frame => p.payload mtu frame

theorem call_small (c : Call) (small : p.pictureId.toNat < 2 ^ 15) :
    ∃ q packets, p.call c = .ok (q, packets) ∧ q.pictureId.toNat < 2 ^ 15 := by
  cases c with
  | enablePictureID enable => exact ⟨_, _, rfl, small⟩
  | setPictureID id =>
    refine ⟨_, _, rfl, ?_⟩
    rw [setPictureID, toNat_and_fifteen]
    omega
  | payload mtu frame =>
    by_cases empty : frame = []
    · exact ⟨p, [], by simp [call, payload, payloadWith, empty], small⟩
    by_cases room : p.usingHeaderSize < mtu.toNat
    · obtain ⟨packets, _, run, _⟩ := payload_delivers mtu small room empty
      exact ⟨p.advance, packets, run, by rw [advance_pictureId]; omega⟩
    · exact ⟨p, [], payloadWith_no_room _ (by omega), small⟩

theorem run_small (calls : List Call) (small : p.pictureId.toNat < 2 ^ 15) :
    ∃ q outputs, Machine.runM call p calls = .ok (q, outputs) ∧ q.pictureId.toNat < 2 ^ 15 := by
  induction calls generalizing p with
  | nil => exact ⟨p, [], rfl, small⟩
  | cons c rest ih =>
    obtain ⟨q, packets, now, small⟩ := call_small c small
    obtain ⟨r, outputs, later, small⟩ := ih small
    exact ⟨r, _, Machine.runM_cons_ok now later, small⟩

end VP8Payloader

/-- After any calls on a new payloader, sending a frame delivers it and advances the
picture id, or sends nothing when the header leaves no room. -/
theorem vp8_round_trip (calls : List VP8Payloader.Call) :
    ∃ p outputs, Machine.runM VP8Payloader.call {} calls = .ok (p, outputs) ∧
      p.pictureId.toNat < 2 ^ 15 ∧ ∀ (mtu : UInt16) (frame : List UInt8), frame ≠ [] →
        if p.usingHeaderSize < mtu.toNat then
          ∃ q packets bodies, p.payload mtu frame = .ok (q, packets) ∧
            p.Delivers mtu.toNat frame packets bodies ∧ q.enablePictureId = p.enablePictureId ∧
            q.pictureId.toNat = (p.pictureId.toNat + 1) % 2 ^ 15
        else p.payload mtu frame = .ok (p, []) := by
  obtain ⟨p, outputs, run, small⟩ := VP8Payloader.run_small (p := {}) calls (by decide)
  refine ⟨p, outputs, run, small, fun mtu frame some => ?_⟩
  split
  · rename_i room
    obtain ⟨packets, bodies, sent, delivers⟩ := VP8Payloader.payload_delivers mtu small room some
    exact ⟨p.advance, packets, bodies, sent, delivers, rfl, VP8Payloader.advance_pictureId p⟩
  · rename_i none
    exact VP8Payloader.payloadWith_no_room _ (by omega)

end WebTransport.VP8

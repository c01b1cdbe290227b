import WebTransport.VP8.Descriptor
import WebTransport.VP8.RoundTrip

/-! The C++ class `VP8Depacketizer` around a `VP8Packet`. The packet stores each field as
soon as it is read, so a payload that ends inside its descriptor leaves a mixture of its
own fields and those of the packet before. -/
namespace WebTransport.VP8

open Loop BigEndian

namespace VP8Packet

variable (p : VP8Packet) (payload : List UInt8)

/-- The stages that found their octets have stored them. -/
def stopped : VP8Packet :=
  if payload.length < pictureIDStart payload then p.withFirst payload
  else if payload.length < tl0picIdxStart payload then (p.withFirst payload).withX payload
  else if payload.length < tidStart payload then ((p.withFirst payload).withX payload).withPictureID payload
  else (((p.withFirst payload).withX payload).withPictureID payload).withTL0PICIDX payload

/-- The fields that such a walk stores had the payload's values before. -/
@[mk_iff holds_iff]
structure Holds : Prop where
  first : p.x = (descriptor payload).x ∧ p.n = (descriptor payload).n ∧ p.s = (descriptor payload).s ∧
    p.pid = (descriptor payload).pid
  extension : pictureIDStart payload ≤ payload.length → p.i = (descriptor payload).i ∧
    p.l = (descriptor payload).l ∧ p.t = (descriptor payload).t ∧ p.k = (descriptor payload).k
  pictureId : tl0picIdxStart payload ≤ payload.length → p.pictureId = (descriptor payload).pictureId
  tl0picIdx : tidStart payload ≤ payload.length → p.tl0picIdx = (descriptor payload).tl0picIdx

variable {p payload}

/-- Two stages store different fields, so both leave the object as it is when one after the other does. -/
theorem stopped_eq_self : p.stopped payload = p ↔ p.Holds payload := by
  have sizes := le_descriptorSize payload
  obtain ⟨⟩ := p
  unfold stopped
  split
  · rename_i short
    have none : ¬ pictureIDStart payload ≤ payload.length ∧ ¬ tl0picIdxStart payload ≤ payload.length ∧
        ¬ tidStart payload ≤ payload.length := by omega
    simp [holds_iff, withFirst, none, eq_comm]
  split
  · rename_i extended short
    have none : pictureIDStart payload ≤ payload.length ∧ ¬ tl0picIdxStart payload ≤ payload.length ∧
        ¬ tidStart payload ≤ payload.length := by omega
    simp [holds_iff, withFirst, withX, none, eq_comm, and_assoc]
  split
  · rename_i extended identified short
    have none : pictureIDStart payload ≤ payload.length ∧ tl0picIdxStart payload ≤ payload.length ∧
        ¬ tidStart payload ≤ payload.length := by omega
    simp [holds_iff, withFirst, withX, withPictureID, none, eq_comm, and_assoc]
  · rename_i extended identified indexed
    have all : pictureIDStart payload ≤ payload.length ∧ tl0picIdxStart payload ≤ payload.length ∧
        tidStart payload ≤ payload.length := by omega
    simp [holds_iff, withFirst, withX, withPictureID, withTL0PICIDX, all, eq_comm, and_assoc]

theorem octet_stops {rest : UInt8 → Except (Stop VP8Packet) ρ}
    (later : ∀ b, Finishes (fun _ => True) (fun q => q = p) (rest b)) :
    Finishes (fun _ => True) (fun q => q = p)
      (if payload.length ≤ index then .error (.early p) else do
        let b ← checked (readAt payload index)
        rest b) := by
  apply Finishes.check
  · exact fun _ => rfl
  · intro more
    exact Finishes.read (readAt_of_lt (Nat.not_le.mp more)) (later _)

theorem parseFirst_stops : Finishes (fun _ => True) (fun q => q = p) (p.parseFirst payload index) :=
  octet_stops fun _ => trivial

theorem parseX_stops : Finishes (fun _ => True) (fun q => q = p) (p.parseX payload index) := by
  unfold parseX
  split
  · exact octet_stops fun _ => trivial
  · trivial

theorem parsePictureID_stops : Finishes (fun _ => True) (fun q => q = p) (p.parsePictureID payload index) := by
  unfold parsePictureID
  split
  · apply octet_stops
    intro b
    split
    · exact octet_stops fun _ => trivial
    · trivial
  · trivial

theorem parseTL0PICIDX_stops : Finishes (fun _ => True) (fun q => q = p) (p.parseTL0PICIDX payload index) := by
  unfold parseTL0PICIDX
  split
  · exact octet_stops fun _ => trivial
  · trivial

theorem parseTID_stops : Finishes (fun _ => True) (fun q => q = p) (p.parseTID payload index) := by
  unfold parseTID
  split
  · exact octet_stops fun _ => trivial
  · trivial

/-- The walk over a payload that is too short leaves what the stages before the end have stored. -/
theorem parseDescriptor_finishes (some : payload ≠ []) :
    Finishes (fun r => descriptorSize payload ≤ payload.length ∧ r = (descriptor payload, descriptorSize payload))
      (fun q => payload.length < descriptorSize payload ∧ q = p.stopped payload) (p.parseDescriptor payload) := by
  have sizes := le_descriptorSize payload
  have one : 1 ≤ payload.length := List.length_pos_iff.mpr some
  apply Finishes.bind ((parseFirst_ends payload p).finishes parseFirst_stops fun _ short => absurd one short)
  rintro _ ⟨inside, rfl⟩
  apply Finishes.bind ((parseX_ends payload (p.withFirst payload) rfl inside).finishes parseX_stops ?_)
  · rintro _ ⟨inside, rfl⟩
    apply Finishes.bind ((parsePictureID_ends payload
      ((p.withFirst payload).withX payload) rfl inside).finishes parsePictureID_stops ?_)
    · rintro _ ⟨inside, rfl⟩
      apply Finishes.bind ((parseTL0PICIDX_ends payload
        (((p.withFirst payload).withX payload).withPictureID payload) rfl inside).finishes parseTL0PICIDX_stops ?_)
      · rintro _ ⟨inside, rfl⟩
        have last := parseTID_ends payload
          ((((p.withFirst payload).withX payload).withPictureID payload).withTL0PICIDX payload) rfl rfl inside
        rw [with_descriptor] at last
        apply last.finishes parseTID_stops
        rintro _ short rfl
        refine ⟨by omega, ?_⟩
        rw [stopped, if_neg (by omega), if_neg (by omega), if_neg (by omega)]
      · rintro _ short rfl
        refine ⟨by omega, ?_⟩
        rw [stopped, if_neg (by omega), if_neg (by omega), if_pos (by omega)]
    · rintro _ short rfl
      refine ⟨by omega, ?_⟩
      rw [stopped, if_neg (by omega), if_pos (by omega)]
  · rintro _ short rfl
    refine ⟨by omega, ?_⟩
    rw [stopped, if_pos (by omega)]

theorem unmarshal_outcome (some : payload ≠ []) (output : List UInt8) :
    (descriptorSize payload ≤ payload.length ∧
      p.unmarshal payload output = .ok (.ok, descriptor payload, payload.drop (descriptorSize payload))) ∨
    (payload.length < descriptorSize payload ∧
      p.unmarshal payload output = .ok (.shortPacket, p.stopped payload, output)) := by
  rcases (parseDescriptor_finishes some).outcome with ⟨_, -, fits, -⟩ | ⟨_, run, short, rfl⟩
  · exact .inl ⟨fits, p.unmarshal_of_le payload some fits output⟩
  · have nonempty : payload.length ≠ 0 := fun none => some (List.length_eq_zero_iff.mp none)
    refine .inr ⟨short, ?_⟩
    rw [unmarshal, if_neg nonempty, run]

end VP8Packet

namespace Native

structure VP8Depacketizer where
  packet : VP8Packet := {}
  deriving DecidableEq, Repr

namespace VP8Depacketizer

variable (d : VP8Depacketizer) (packet : List UInt8)

def unmarshal (payload : List UInt8) : Except Fault (Bool × VP8Depacketizer × List UInt8) :=
  if packet.length = 0 then .ok (false, d, payload)
  else do
    let (err, p, payload) ← d.packet.unmarshal packet payload
    if err ≠ .ok then .ok (false, ⟨p⟩, payload)
    else .ok (true, ⟨p⟩, payload)

def getPictureID : UInt16 := d.packet.pictureId

def isKeyFrame : Bool := d.packet.s == 1 && d.packet.pid == 0

/-- A payload is accepted when it holds its descriptor; otherwise the packet is left where the walk stopped. -/
theorem unmarshal_eq (some : packet ≠ []) (payload : List UInt8) :
    d.unmarshal packet payload =
      if descriptorSize packet ≤ packet.length then
        .ok (true, ⟨descriptor packet⟩, packet.drop (descriptorSize packet))
      else .ok (false, ⟨d.packet.stopped packet⟩, payload) := by
  have nonempty : packet.length ≠ 0 := fun none => some (List.length_eq_zero_iff.mp none)
  rcases d.packet.unmarshal_outcome some payload with ⟨fits, run⟩ | ⟨short, run⟩
  · simp [unmarshal, nonempty, run, fits]
  · simp [unmarshal, nonempty, run, Nat.not_le.mpr short]

/-- Every getter gives what it gave before, and the output is as it was. -/
structure Undisturbed (before after : VP8Depacketizer) (output left : List UInt8) : Prop where
  pictureID : after.getPictureID = before.getPictureID
  keyFrame : after.isKeyFrame = before.isKeyFrame
  getters : after.packet = before.packet
  output : left = output

/-- The output of a rejected payload is as it was, but the packet only where it held already
what the walk has stored before its end. -/
theorem unmarshal_rejected (output : List UInt8) :
    ∃ accepted after left, d.unmarshal packet output = .ok (accepted, after, left) ∧
      (accepted = false →
        (Undisturbed d after output left ↔ packet = [] ∨ d.packet.Holds packet)) := by
  by_cases empty : packet = []
  · subst empty
    exact ⟨false, d, output, rfl, fun _ => iff_of_true ⟨rfl, rfl, rfl, rfl⟩ (.inl rfl)⟩
  rw [d.unmarshal_eq packet empty]
  split
  · exact ⟨_, _, _, rfl, fun rejected => absurd rejected (by decide)⟩
  · refine ⟨_, _, _, rfl, fun _ => ?_⟩
    rw [or_iff_right empty, ← VP8Packet.stopped_eq_self]
    constructor
    · exact fun undisturbed => undisturbed.getters
    · intro same
      rw [same]
      exact ⟨rfl, rfl, rfl, rfl⟩

/-- A key frame's first packet, then a payload that announces an extension and ends. -/
theorem unmarshal_rejected_disturbs : ∃ keyed stopped : VP8Depacketizer,
    unmarshal {} [0x10, 0x00] [] = .ok (true, keyed, [0x00]) ∧
    keyed.unmarshal [0x80] [] = .ok (false, stopped, []) ∧
    keyed.isKeyFrame = true ∧ stopped.isKeyFrame = false ∧ ¬ Undisturbed keyed stopped [] [] := by
  refine ⟨⟨{ s := 1 }⟩, ⟨{ x := 1 }⟩, by decide, by decide, by decide, by decide, ?_⟩
  intro undisturbed
  exact absurd undisturbed.keyFrame (by decide)

theorem isKeyFrame_ofPacket (some : packet ≠ []) (output : List UInt8) : ∃ accepted after left,
    d.unmarshal packet output = .ok (accepted, after, left) ∧
      (after.isKeyFrame = true ↔ (descriptor packet).s = 1 ∧ (descriptor packet).pid = 0) := by
  rw [d.unmarshal_eq packet some]
  split
  · exact ⟨_, _, _, rfl, by simp [isKeyFrame]⟩
  · refine ⟨_, _, _, rfl, ?_⟩
    have stored : (d.packet.stopped packet).s = (descriptor packet).s ∧
        (d.packet.stopped packet).pid = (descriptor packet).pid := by
      unfold VP8Packet.stopped
      split
      · exact ⟨rfl, rfl⟩
      split
      · exact ⟨rfl, rfl⟩
      split <;> exact ⟨rfl, rfl⟩
    simp [isKeyFrame, stored]

variable (p : VP8Payloader)

theorem header_head (first : Bool) : ∃ b rest, p.header first = b :: rest ∧
    b &&& 0x10 = (if first then 0x10 else 0) ∧ b &&& 0x07 = 0 := by
  have plain : VP8Payloader.basic first &&& 0x10 = (if first then 0x10 else 0) ∧
      VP8Payloader.basic first &&& 0x07 = 0 := by cases first <;> decide
  have extended : (VP8Payloader.basic first ||| 0x80) &&& 0x10 = (if first then 0x10 else 0) ∧
      (VP8Payloader.basic first ||| 0x80) &&& 0x07 = 0 := by cases first <;> decide
  unfold VP8Payloader.header
  split
  · split
    · exact ⟨_, _, rfl, plain⟩
    split <;> exact ⟨_, _, rfl, extended⟩
  · exact ⟨_, _, rfl, plain⟩

/-- The flags of a packet tell its position and nothing about the frame. -/
theorem descriptor_packet (first last : Bool) (fragment : List UInt8) :
    (descriptor (p.packet first last fragment)).s = (if first then 1 else 0) ∧
      (descriptor (p.packet first last fragment)).pid = 0 := by
  obtain ⟨b, rest, format, start, partition⟩ := header_head p first
  have head : octet (p.packet first last fragment) 0 = b := by
    rw [VP8Payloader.packet, format]
    rfl
  have s : (descriptor (p.packet first last fragment)).s = (b &&& 0x10) >>> 4 := by
    rw [descriptor, head, bit_s]
  have pid : (descriptor (p.packet first last fragment)).pid = b &&& 0x07 := by
    rw [descriptor, head, low_pid]
  rw [s, pid, start, partition]
  cases first <;> decide

theorem isKeyFrame_packet (first last : Bool) (fragment output : List UInt8) : ∃ accepted after left,
    d.unmarshal (p.packet first last fragment) output = .ok (accepted, after, left) ∧
      after.isKeyFrame = first := by
  have some : p.packet first last fragment ≠ [] := by
    obtain ⟨b, rest, format, -⟩ := header_head p first
    simp [VP8Payloader.packet, format]
  obtain ⟨accepted, after, left, run, flags⟩ := isKeyFrame_ofPacket d _ some output
  refine ⟨accepted, after, left, run, ?_⟩
  obtain ⟨s, pid⟩ := descriptor_packet p first last fragment
  rw [s, pid] at flags
  cases first
  · exact Bool.eq_false_iff.mpr fun keyFrame => absurd (flags.mp keyFrame).1 (by decide)
  · exact flags.mpr ⟨rfl, rfl⟩

/-- What a VP8 frame says of itself: the lowest bit of its first byte is 0 in a key frame. -/
def keyed : List UInt8 → Bool
  | [] => false
  | b :: _ => b &&& 0x01 == 0

/-- The packet that `isKeyFrame` reports is the first, whatever the frame is: the answer is right
for all packets of the key frames, and for none of the others' first packets. -/
theorem isKeyFrame_exact (mtu : UInt16) (frame : List UInt8) (room : p.usingHeaderSize < mtu.toNat) :
    ∃ q packets, p.payload mtu frame = .ok (q, packets) ∧
      ((∀ (i : Nat) (packet : List UInt8), packets[i]? = some packet →
        ∀ (d : VP8Depacketizer) (output : List UInt8), ∃ accepted after left,
          d.unmarshal packet output = .ok (accepted, after, left) ∧
            (after.isKeyFrame = true ↔ i = 0 ∧ keyed frame = true)) ↔
      frame = [] ∨ keyed frame = true) := by
  by_cases empty : frame = []
  · subst empty
    exact ⟨p, [], rfl, iff_of_true (by simp) (.inl rfl)⟩
  obtain ⟨fragments, run, splits⟩ := VP8Payloader.payloadWith_room mtu.toNat (Int.ofNat_lt.mpr room) empty
  refine ⟨_, _, run, ?_⟩
  rw [or_iff_right empty]
  constructor
  · intro right
    obtain ⟨fragment, rest, rfl⟩ := List.exists_cons_of_ne_nil (splits.ne_nil empty)
    rw [Fragment.decorate_cons] at right
    obtain ⟨_, after, _, answered, correct⟩ := right 0 _ rfl {} []
    obtain ⟨_, after', _, same, first⟩ := isKeyFrame_packet {} p true rest.isEmpty fragment []
    obtain ⟨-, rfl, -⟩ : _ = _ ∧ after = after' ∧ _ = _ := by simpa [answered] using same
    exact (correct.mp first).2
  · intro key i packet sent d output
    rw [Fragment.getElem?_decorate, Option.map_eq_some_iff] at sent
    obtain ⟨fragment, -, rfl⟩ := sent
    obtain ⟨accepted, after, left, answered, first⟩ := isKeyFrame_packet d p (true && i == 0)
      (i + 1 == fragments.length) fragment output
    refine ⟨accepted, after, left, answered, ?_⟩
    simp [first, key]

/-- A new payloader with an ordinary `mtu`, and a key frame. -/
theorem isKeyFrame_exact_key : ({} : VP8Payloader).usingHeaderSize < (1200 : UInt16).toNat ∧
    ∃ q packets, ({} : VP8Payloader).payload 1200 [0x9C] = .ok (q, packets) ∧
      ∀ (i : Nat) (packet : List UInt8), packets[i]? = some packet →
        ∀ (d : VP8Depacketizer) (output : List UInt8), ∃ accepted after left,
          d.unmarshal packet output = .ok (accepted, after, left) ∧
            (after.isKeyFrame = true ↔ i = 0 ∧ keyed [0x9C] = true) := by
  refine ⟨by decide, ?_⟩
  obtain ⟨q, packets, run, correct⟩ := isKeyFrame_exact {} 1200 [0x9C] (by decide)
  exact ⟨q, packets, run, correct.mpr (by decide)⟩

/-- An inter frame of one byte, reported as a key frame. -/
theorem isKeyFrame_inter : ∃ q after, ({} : VP8Payloader).payload 1200 [0x01] = .ok (q, [[0x10, 0x01]]) ∧
    unmarshal {} [0x10, 0x01] [] = .ok (true, after, [0x01]) ∧ after.isKeyFrame = true ∧
    keyed [0x01] = false :=
  ⟨⟨false, 1⟩, ⟨{ s := 1 }⟩, by decide, by decide, by decide, by decide⟩

end VP8Depacketizer

end Native

end WebTransport.VP8

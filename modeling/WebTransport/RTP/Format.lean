import WebTransport.RTP.Packet

/-! Which buffers `Unmarshal` accepts, and what it reads from them. The offsets are those
of the wire format; a byte outside the buffer counts as zero. -/
namespace WebTransport.RTP

open Loop BigEndian

def byteAt (buffer : List UInt8) (index : Nat) : UInt8 := buffer.getD index 0

def halfOf (buffer : List UInt8) (index : Nat) : UInt16 := join16 (byteAt buffer index) (byteAt buffer (index + 1))

def wordOf (buffer : List UInt8) (index : Nat) : UInt32 :=
  join32 (byteAt buffer index) (byteAt buffer (index + 1)) (byteAt buffer (index + 2)) (byteAt buffer (index + 3))

variable (buffer : List UInt8)

def csrcCount : Nat := (byteAt buffer 0 &&& 0x0F).toNat
def hasPadding : Bool := ((byteAt buffer 0 >>> 5) &&& 0x01) != 0
def hasExtension : Bool := ((byteAt buffer 0 >>> 4) &&& 0x01) != 0

def csrcEnd : Nat := 12 + csrcCount buffer * 4

def payloadStart : Nat :=
  if hasExtension buffer then csrcEnd buffer + 4 + (halfOf buffer (csrcEnd buffer + 2)).toNat * 4
  else csrcEnd buffer

/-- Everything announced fits, and a padding count is between one and what is left. -/
structure WellFormed : Prop where
  space : payloadStart buffer ≤ buffer.length
  padding : hasPadding buffer = true → payloadStart buffer < buffer.length →
    byteAt buffer (buffer.length - 1) ≠ 0 ∧
      (byteAt buffer (buffer.length - 1)).toNat ≤ buffer.length - payloadStart buffer

/-- The padding count that is stored. It is the last byte, if there is one behind the header. -/
def paddingCount : UInt8 :=
  if hasPadding buffer = true ∧ payloadStart buffer < buffer.length then byteAt buffer (buffer.length - 1) else 0

def bodySize : Nat := buffer.length - payloadStart buffer - (paddingCount buffer).toNat

def bodyOf : List UInt8 := (buffer.drop (payloadStart buffer)).take (bodySize buffer)

def wordStarts : List Nat := 4 :: 8 :: (List.range (csrcCount buffer)).map (12 + · * 4)

theorem csrcEnd_le_payloadStart : csrcEnd buffer ≤ payloadStart buffer := by
  unfold payloadStart
  split
  · omega
  · exact Nat.le_refl _

variable {buffer}

theorem readAt_byteAt (inside : index < buffer.length) : readAt buffer index = .ok (byteAt buffer index) := by
  simp [byteAt, inside]

theorem halfAt_halfOf (inside : index + 2 ≤ buffer.length) :
    RTPPacket.halfAt buffer index = .ok (halfOf buffer index) := by
  unfold RTPPacket.halfAt
  rw [readAt_byteAt (by omega), ok_bind, readAt_byteAt (by omega), ok_bind]
  rfl

namespace RTPPacket

variable {Word : Type} (toWord : UInt32 → Word) (p : RTPPacket Word)

theorem wordAt_wordOf (inside : index + 4 ≤ buffer.length) :
    wordAt toWord buffer index = .ok (toWord (wordOf buffer index)) := by
  unfold wordAt
  rw [readAt_byteAt (by omega), ok_bind, readAt_byteAt (by omega), ok_bind, readAt_byteAt (by omega), ok_bind,
    readAt_byteAt (by omega), ok_bind]
  rfl

theorem csrcsAt_wordOf (count index : Nat) (inside : index + count * 4 ≤ buffer.length) :
    csrcsAt toWord buffer count index =
      .ok ((List.range count).map fun k => toWord (wordOf buffer (index + k * 4))) := by
  induction count generalizing index with
  | zero => rfl
  | succ count ih =>
    unfold csrcsAt
    rw [wordAt_wordOf toWord (by omega), ok_bind, ih (index + 4) (by omega), ok_bind, List.range_succ_eq_map]
    simp only [List.map_cons, List.map_map, Nat.zero_mul, Nat.add_zero, Except.ok.injEq, List.cons.injEq, true_and]
    apply List.map_congr_left
    intro k _
    simp only [Function.comp, Nat.succ_mul]
    rw [Nat.add_assoc, Nat.add_comm 4]

def words : List Word := p.timestamp :: p.ssrc :: p.csrcs

variable (buffer)

def withHeader : RTPPacket Word := { p with
  version := (byteAt buffer 0 >>> 6) &&& 0x03
  padding := hasPadding buffer
  extension := hasExtension buffer
  csrcCount := byteAt buffer 0 &&& 0x0F
  marker := ((byteAt buffer 1 >>> 7) &&& 0x01) != 0
  payloadType := byteAt buffer 1 &&& 0x7F
  sequenceNumber := halfOf buffer 2
  timestamp := toWord (wordOf buffer 4)
  ssrc := toWord (wordOf buffer 8)
  csrcs := (List.range (RTP.csrcCount buffer)).map fun k => toWord (wordOf buffer (12 + k * 4))
  extensionValue := none
  payload := none
  payloadSize := 0 }

def withExtension : RTPPacket Word :=
  if hasExtension buffer then { p with
    extensionHeaderId := halfOf buffer (csrcEnd buffer)
    extensionLength := halfOf buffer (csrcEnd buffer + 2)
    extensionValue :=
      some ((buffer.drop (csrcEnd buffer + 4)).take ((halfOf buffer (csrcEnd buffer + 2)).toNat * 4)) }
  else p

def withPadding : RTPPacket Word := { p with paddingSize := paddingCount buffer }

def withBody : RTPPacket Word :=
  if 0 < bodySize buffer then { p with payload := some (bodyOf buffer), payloadSize := bodySize buffer } else p

/-- Everything but an extension's id and length is stored anew. -/
def parsed : RTPPacket Word := (((p.withHeader buffer toWord).withExtension buffer).withPadding buffer).withBody buffer

theorem withExtension_padding : (p.withExtension buffer).padding = p.padding := by
  unfold withExtension
  split <;> rfl

section Reused

variable {p} {q : RTPPacket Word}

theorem withHeader_same (p q : RTPPacket Word) : SameHeader (p.withHeader buffer toWord) (q.withHeader buffer toWord) :=
  ⟨_, _, _, rfl⟩

theorem withExtension_same (same : SameHeader p q) : SameHeader (p.withExtension buffer) (q.withExtension buffer) := by
  obtain ⟨_, _, _, rfl⟩ := same
  unfold withExtension
  split <;> exact ⟨_, _, _, rfl⟩

theorem withPadding_same (same : SameHeader p q) : SameBuffer (p.withPadding buffer) (q.withPadding buffer) := by
  obtain ⟨_, _, _, rfl⟩ := same
  exact ⟨_, _, rfl⟩

theorem withBody_same (same : SameBuffer p q) : SameBuffer (p.withBody buffer) (q.withBody buffer) := by
  obtain ⟨_, _, rfl⟩ := same
  unfold withBody
  split <;> exact ⟨_, _, rfl⟩

theorem parsed_same (p q : RTPPacket Word) : SameBuffer (p.parsed buffer toWord) (q.parsed buffer toWord) := by
  apply withBody_same
  apply withPadding_same
  apply withExtension_same
  exact withHeader_same buffer toWord p q

end Reused

theorem words_parsed :
    (p.parsed buffer toWord).words = (wordStarts buffer).map fun index => toWord (wordOf buffer index) := by
  have kept : (p.parsed buffer toWord).words = (p.withHeader buffer toWord).words := by
    unfold parsed withBody withExtension
    split <;> split <;> rfl
  rw [kept]
  simp only [words, withHeader, wordStarts, List.map_cons, List.map_map]
  rfl

theorem parseHeader_ends : Ends (csrcEnd buffer ≤ buffer.length)
    (fun r => r = (p.withHeader buffer toWord, csrcEnd buffer)) (p.parseHeader toWord buffer) := by
  have order : ¬ buffer.length < 12 ∧ ¬ buffer.length < csrcEnd buffer ∧ True ↔
      csrcEnd buffer ≤ buffer.length := by
    unfold csrcEnd
    rw [and_true]
    omega
  refine Ends.congr (Ends.check fun long => ?_) order
  refine Ends.read (readAt_byteAt (by omega)) (Ends.read (readAt_byteAt (by omega)) ?_)
  refine Ends.read (halfAt_halfOf (by omega)) ?_
  refine Ends.read (wordAt_wordOf toWord (by omega)) (Ends.read (wordAt_wordOf toWord (by omega)) ?_)
  refine Ends.check fun room => ?_
  have fits : 12 + RTP.csrcCount buffer * 4 ≤ buffer.length := Nat.not_lt.mp room
  refine Ends.read (csrcsAt_wordOf toWord (RTP.csrcCount buffer) 12 fits) ?_
  exact Ends.ok trivial rfl

theorem parseExtension_ends (extension : p.extension = hasExtension buffer) (fits : csrcEnd buffer ≤ buffer.length) :
    Ends (payloadStart buffer ≤ buffer.length) (fun r => r = (p.withExtension buffer, payloadStart buffer))
      (p.parseExtension buffer (csrcEnd buffer)) := by
  unfold parseExtension payloadStart withExtension
  rw [extension]
  by_cases present : hasExtension buffer = true
  · rw [if_pos present, if_pos present, if_pos present]
    have order : ¬ buffer.length < csrcEnd buffer + 4 ∧
        ¬ buffer.length < csrcEnd buffer + 4 + (halfOf buffer (csrcEnd buffer + 2)).toNat * 4 ∧ True ↔
        csrcEnd buffer + 4 + (halfOf buffer (csrcEnd buffer + 2)).toNat * 4 ≤ buffer.length := by
      rw [and_true]
      omega
    refine Ends.congr (Ends.check fun long => ?_) order
    refine Ends.read (halfAt_halfOf (by omega)) (Ends.read (halfAt_halfOf (by omega)) ?_)
    refine Ends.check fun room => ?_
    have inside : csrcEnd buffer + 4 + (halfOf buffer (csrcEnd buffer + 2)).toNat * 4 ≤ buffer.length :=
      Nat.not_lt.mp room
    refine Ends.read (slice_of_le inside) ?_
    exact Ends.ok trivial (Prod.ext rfl (Nat.add_assoc _ _ _).symm)
  · rw [if_neg present, if_neg present, if_neg present]
    exact Ends.ok fits rfl

theorem parsePadding_ends (padding : p.padding = hasPadding buffer) :
    Ends (hasPadding buffer = true → payloadStart buffer < buffer.length →
        byteAt buffer (buffer.length - 1) ≠ 0 ∧
          (byteAt buffer (buffer.length - 1)).toNat ≤ buffer.length - payloadStart buffer)
      (fun r => r = (p.withPadding buffer, bodySize buffer)) (p.parsePadding buffer (payloadStart buffer)) := by
  unfold parsePadding withPadding bodySize paddingCount
  rw [padding]
  by_cases counted : hasPadding buffer = true ∧ payloadStart buffer < buffer.length
  · rw [if_pos counted, if_pos ⟨counted.1, by omega⟩]
    refine Ends.read (readAt_byteAt (by omega)) ?_
    refine Ends.congr (Ends.check fun valid => Ends.ok trivial rfl) ?_
    simp only [not_or, Nat.not_lt, and_true]
    constructor
    · intro valid _ _
      exact valid
    · intro valid
      exact valid counted.1 counted.2
  · have none : ¬ (hasPadding buffer = true ∧ 0 < buffer.length - payloadStart buffer) :=
      fun both => counted ⟨both.1, Nat.lt_of_sub_pos both.2⟩
    rw [if_neg counted, if_neg none]
    exact Ends.ok (fun set more => absurd ⟨set, more⟩ counted) rfl

theorem bodySize_le : bodySize buffer ≤ buffer.length - payloadStart buffer := Nat.sub_le _ _

theorem storePayload_ends (space : payloadStart buffer ≤ buffer.length) :
    Ends True (fun q => q = p.withBody buffer) (p.storePayload buffer (payloadStart buffer) (bodySize buffer)) := by
  have inside : payloadStart buffer + bodySize buffer ≤ buffer.length := by
    have := bodySize_le buffer
    omega
  unfold storePayload withBody
  by_cases some : 0 < bodySize buffer
  · rw [if_pos some, if_pos some]
    exact Ends.read (slice_of_le inside) (Ends.ok trivial rfl)
  · rw [if_neg some, if_neg some]
    exact Ends.ok trivial rfl

/-- The well-formed buffers and no others are parsed to the end. -/
theorem parse_parsed : Ends (WellFormed buffer) (fun q => q = p.parsed buffer toWord) (p.parse toWord buffer) := by
  have order : csrcEnd buffer ≤ buffer.length ∧ payloadStart buffer ≤ buffer.length ∧
      (hasPadding buffer = true → payloadStart buffer < buffer.length →
        byteAt buffer (buffer.length - 1) ≠ 0 ∧
          (byteAt buffer (buffer.length - 1)).toNat ≤ buffer.length - payloadStart buffer) ∧ True ↔
      WellFormed buffer := by
    constructor
    · rintro ⟨-, space, padding, -⟩
      exact ⟨space, padding⟩
    · intro form
      exact ⟨Nat.le_trans (csrcEnd_le_payloadStart buffer) form.space, form.space, form.padding, trivial⟩
  refine Ends.congr ?_ order
  refine Ends.bind (p.parseHeader_ends buffer toWord) ?_
  rintro fits _ rfl
  refine Ends.bind ((p.withHeader buffer toWord).parseExtension_ends buffer rfl fits) ?_
  rintro space _ rfl
  have padding : ((p.withHeader buffer toWord).withExtension buffer).padding = hasPadding buffer :=
    withExtension_padding buffer _
  refine Ends.bind (parsePadding_ends buffer _ padding) ?_
  rintro - _ rfl
  exact storePayload_ends buffer _ space

theorem parse_safe : Safe (fun _ => True) (p.parse toWord buffer) :=
  (p.parse_parsed buffer toWord).safe fun _ _ _ => trivial

theorem parse_alike (q : RTPPacket Word) : Alike SameBuffer (p.parse toWord buffer) (q.parse toWord buffer) := by
  apply (Alike.of_ends (p.parse_parsed buffer toWord) (q.parse_parsed buffer toWord)).imp
  rintro _ _ ⟨rfl, rfl⟩
  exact parsed_same buffer toWord p q

theorem parse_ends : Ends (WellFormed buffer)
    (fun q => q.words = (wordStarts buffer).map fun index => toWord (wordOf buffer index))
    (p.parse toWord buffer) := by
  apply (p.parse_parsed buffer toWord).imp
  rintro _ rfl
  exact p.words_parsed buffer toWord

end RTPPacket

end WebTransport.RTP

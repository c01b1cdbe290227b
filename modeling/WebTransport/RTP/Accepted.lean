import WebTransport.Theory.Machine
import WebTransport.RTP.Format

/-! What an accepted buffer leaves in the object. Its parts add up to the buffer, except
that a padding bit with nothing behind the header counts no padding. All fields are stored
anew but the id and the length of an extension, which a buffer without one does not touch. -/
namespace WebTransport.RTP

open Loop BigEndian Machine

namespace RTPPacket

variable (p : RTPPacket UInt32) (buffer : List UInt8)

theorem unmarshal_parsed : ∃ accepted q, p.unmarshal buffer = .ok (accepted, q) ∧
    (accepted = true ↔ WellFormed buffer) ∧ (accepted = true → q = p.parsed buffer id) := by
  unfold unmarshal unmarshalWith
  rcases (p.parse_parsed buffer id).outcome with ⟨q, run, form, same⟩ | ⟨q, run, broken⟩
  · rw [run]
    exact ⟨true, q, rfl, iff_of_true rfl form, fun _ => same⟩
  · rw [run]
    exact ⟨false, q, rfl, iff_of_false Bool.false_ne_true broken, fun never => by cases never⟩

end RTPPacket

section Parts

variable {buffer : List UInt8}

theorem csrcCount_toNat (buffer : List UInt8) : (byteAt buffer 0 &&& 0x0F).toNat = csrcCount buffer := rfl

/-- A count that is stored is a byte of padding at least. -/
theorem WellFormed.paddingCount_iff (form : WellFormed buffer) (more : payloadStart buffer < buffer.length) :
    hasPadding buffer = true ↔ 1 ≤ (paddingCount buffer).toNat ∧ paddingCount buffer = byteAt buffer (buffer.length - 1) := by
  unfold paddingCount
  constructor
  · intro set
    have some := (form.padding set more).1
    rw [if_pos ⟨set, more⟩]
    refine ⟨Nat.one_le_iff_ne_zero.mpr fun none => some ?_, rfl⟩
    exact UInt8.toNat_inj.mp none
  · rintro ⟨some, -⟩
    by_contra clear
    rw [if_neg fun both => clear both.1] at some
    exact absurd some (by decide)

theorem WellFormed.paddingCount_le (form : WellFormed buffer) :
    (paddingCount buffer).toNat ≤ buffer.length - payloadStart buffer := by
  unfold paddingCount
  by_cases counted : hasPadding buffer = true ∧ payloadStart buffer < buffer.length
  · rw [if_pos counted]
    exact (form.padding counted.1 counted.2).2
  · rw [if_neg counted]
    exact Nat.zero_le _

theorem WellFormed.sizes (form : WellFormed buffer) :
    buffer.length = payloadStart buffer + bodySize buffer + (paddingCount buffer).toNat := by
  have space := form.space
  have padding := form.paddingCount_le
  unfold bodySize
  omega

end Parts

def RTPPacket.headerSize (q : RTPPacket UInt32) : Nat :=
  12 + 4 * q.csrcCount.toNat + if q.extension then 4 + 4 * q.extensionLength.toNat else 0

/-- The object describes its buffer: the flags and counts are those of the header, the sizes
add up, the payload is the part behind the header, and the padding count is the last byte
exactly when the padding bit is set, if anything follows the header at all. -/
structure Describes (buffer : List UInt8) (q : RTPPacket UInt32) : Prop where
  padding : q.padding = hasPadding buffer
  extension : q.extension = hasExtension buffer
  csrcCount : q.csrcCount.toNat = csrcCount buffer
  csrcs : q.csrcs.length = q.csrcCount.toNat
  sizes : buffer.length = q.headerSize + q.payloadSize + q.paddingSize.toNat
  payload : q.payload.getD [] = (buffer.drop q.headerSize).take q.payloadSize
  counted : q.headerSize < buffer.length →
    (q.padding = true ↔ 1 ≤ q.paddingSize.toNat ∧ q.paddingSize = byteAt buffer (buffer.length - 1))

namespace RTPPacket

variable (p : RTPPacket UInt32) (buffer : List UInt8)

/-- The last two stages touch nothing of the header. -/
theorem parsed_header : (p.parsed buffer id).padding = hasPadding buffer ∧
    (p.parsed buffer id).extension = hasExtension buffer ∧ (p.parsed buffer id).csrcCount = byteAt buffer 0 &&& 0x0F ∧
    (p.parsed buffer id).csrcs.length = RTP.csrcCount buffer := by
  have kept : (p.parsed buffer id).padding = hasPadding buffer ∧
      (p.parsed buffer id).extension = hasExtension buffer ∧
      (p.parsed buffer id).csrcCount = byteAt buffer 0 &&& 0x0F ∧
      (p.parsed buffer id).csrcs = (p.withHeader buffer id).csrcs := by
    unfold parsed withBody withExtension
    split <;> split <;> exact ⟨rfl, rfl, rfl, rfl⟩
  obtain ⟨padding, extension, count, csrcs⟩ := kept
  refine ⟨padding, extension, count, ?_⟩
  rw [csrcs]
  simp [withHeader]

theorem parsed_headerSize : (p.parsed buffer id).headerSize = payloadStart buffer := by
  obtain ⟨-, extension, count, -⟩ := p.parsed_header buffer
  unfold headerSize payloadStart
  rw [extension, count, csrcCount_toNat]
  by_cases present : hasExtension buffer = true
  · have length : (p.parsed buffer id).extensionLength = halfOf buffer (csrcEnd buffer + 2) := by
      unfold parsed withBody withExtension
      rw [if_pos present]
      split <;> rfl
    rw [if_pos present, if_pos present, length, csrcEnd]
    omega
  · rw [if_neg present, if_neg present, csrcEnd]
    omega

theorem parsed_sizes : (p.parsed buffer id).payloadSize = bodySize buffer ∧
    (p.parsed buffer id).paddingSize = paddingCount buffer ∧ (p.parsed buffer id).payload.getD [] = bodyOf buffer := by
  unfold parsed withBody
  by_cases some : 0 < bodySize buffer
  · rw [if_pos some]
    exact ⟨rfl, rfl, rfl⟩
  · have none : bodySize buffer = 0 := Nat.eq_zero_of_not_pos some
    rw [if_neg some, bodyOf, none, List.take_zero]
    unfold withPadding withExtension
    split <;> exact ⟨rfl, rfl, rfl⟩

theorem describes_parsed (form : WellFormed buffer) : Describes buffer (p.parsed buffer id) := by
  obtain ⟨padding, extension, count, csrcs⟩ := p.parsed_header buffer
  obtain ⟨size, paddingSize, bytes⟩ := p.parsed_sizes buffer
  have start := p.parsed_headerSize buffer
  have number : (p.parsed buffer id).csrcCount.toNat = RTP.csrcCount buffer := by rw [count, csrcCount_toNat]
  constructor
  · exact padding
  · exact extension
  · exact number
  · rw [csrcs, number]
  · rw [start, size, paddingSize]
    exact form.sizes
  · rw [bytes, start, size, bodyOf]
  · intro more
    rw [start] at more
    rw [padding, paddingSize]
    exact form.paddingCount_iff more

end RTPPacket

/-- Every call reads inside the buffer, and when it accepts the object describes the buffer. -/
theorem acceptance_sound (p : RTPPacket UInt32) (buffer : List UInt8) :
    ∃ accepted q, p.unmarshal buffer = .ok (accepted, q) ∧ (accepted = true → Describes buffer q) := by
  obtain ⟨accepted, q, run, form, same⟩ := p.unmarshal_parsed buffer
  refine ⟨accepted, q, run, fun yes => ?_⟩
  rw [same yes]
  exact p.describes_parsed buffer (form.mp yes)

/-- A header alone with the padding bit set: accepted, with no padding counted. -/
theorem padding_bit_uncounted :
    (RTPPacket.new.unmarshal [0xA0, 96, 0, 1, 0, 0, 0, 1, 0, 0, 0, 1]).map
        (fun r => (r.1, r.2.padding, r.2.paddingSize, r.2.payloadSize)) = .ok (true, true, 0, 0) ∧
    ¬ ∀ (p : RTPPacket UInt32) (buffer : List UInt8) (q : RTPPacket UInt32), p.unmarshal buffer = .ok (true, q) →
      (q.padding = true ↔ 1 ≤ q.paddingSize.toNat ∧ q.paddingSize = byteAt buffer (buffer.length - 1)) := by
  have outcome : (RTPPacket.new.unmarshal [0xA0, 96, 0, 1, 0, 0, 0, 1, 0, 0, 0, 1]).map
      (fun r => (r.1, r.2.padding, r.2.paddingSize, r.2.payloadSize)) = .ok (true, true, 0, 0) := by decide +kernel
  refine ⟨outcome, fun always => ?_⟩
  obtain ⟨accepted, q, run, -, -⟩ := RTPPacket.new.unmarshal_parsed [0xA0, 96, 0, 1, 0, 0, 0, 1, 0, 0, 0, 1]
  rw [run] at outcome
  obtain ⟨rfl, fields⟩ := Prod.mk.inj (Except.ok.inj outcome)
  obtain ⟨set, sizes⟩ := Prod.mk.inj fields
  have counted := ((always _ _ q run).mp set).1
  rw [(Prod.mk.inj sizes).1] at counted
  exact absurd counted (by decide)

/-- The extension id and length that a call with this buffer stores. Only a buffer with the
extension bit that reaches to the end of the extension's header stores any, and it does so
whether or not it is accepted. -/
def storedExtension (buffer : List UInt8) : Option (UInt16 × UInt16) :=
  if hasExtension buffer = true ∧ csrcEnd buffer + 4 ≤ buffer.length then
    some (halfOf buffer (csrcEnd buffer), halfOf buffer (csrcEnd buffer + 2))
  else none

/-- The last ones stored in a history of buffers; a new object has zeros. -/
def lastExtension (history : List (List UInt8)) : UInt16 × UInt16 :=
  (history.filterMap storedExtension).getLast?.getD (0, 0)

theorem lastExtension_concat (history : List (List UInt8)) (buffer : List UInt8) :
    lastExtension (history ++ [buffer]) = (storedExtension buffer).getD (lastExtension history) := by
  unfold lastExtension
  rw [List.filterMap_append]
  cases stored : storedExtension buffer with
  | none => simp [stored]
  | some value => simp [stored]

namespace RTPPacket

variable (p : RTPPacket UInt32) (buffer : List UInt8)

def extensionFields (q : RTPPacket UInt32) : UInt16 × UInt16 := (q.extensionHeaderId, q.extensionLength)

theorem parseHeader_finishes : Finishes
    (fun r => r.1.extensionFields = p.extensionFields ∧ r.1.extension = hasExtension buffer ∧ r.2 = csrcEnd buffer ∧
      csrcEnd buffer ≤ buffer.length)
    (fun s => s.extensionFields = (storedExtension buffer).getD p.extensionFields) (p.parseHeader id buffer) := by
  have none (short : buffer.length < csrcEnd buffer) : storedExtension buffer = none := by
    apply if_neg
    rintro ⟨-, long⟩
    omega
  have least : 12 ≤ csrcEnd buffer := by
    unfold csrcEnd
    omega
  refine Finishes.check (fun short => by rw [none (by omega)]; rfl) fun long => ?_
  refine Finishes.read (readAt_byteAt (by omega)) (Finishes.read (readAt_byteAt (by omega)) ?_)
  refine Finishes.read (halfAt_halfOf (by omega)) ?_
  refine Finishes.read (wordAt_wordOf id (by omega)) (Finishes.read (wordAt_wordOf id (by omega)) ?_)
  refine Finishes.check (fun short => by rw [none short]; rfl) fun room => ?_
  have fits : 12 + RTP.csrcCount buffer * 4 ≤ buffer.length := Nat.not_lt.mp room
  refine Finishes.read (csrcsAt_wordOf id (RTP.csrcCount buffer) 12 fits) ?_
  exact Finishes.ok ⟨rfl, rfl, rfl, fits⟩

theorem parseExtension_finishes (extension : p.extension = hasExtension buffer) (fits : csrcEnd buffer ≤ buffer.length) :
    Finishes (fun r => r.1.extensionFields = (storedExtension buffer).getD p.extensionFields ∧ r.2 ≤ buffer.length)
    (fun s => s.extensionFields = (storedExtension buffer).getD p.extensionFields)
    (p.parseExtension buffer (csrcEnd buffer)) := by
  unfold parseExtension storedExtension
  rw [extension]
  by_cases present : hasExtension buffer = true
  · rw [if_pos present]
    refine Finishes.check (fun short => ?_) fun long => ?_
    · rw [if_neg fun both => by omega]
      rfl
    · rw [if_pos ⟨present, Nat.not_lt.mp long⟩]
      refine Finishes.read (halfAt_halfOf (by omega)) (Finishes.read (halfAt_halfOf (by omega)) ?_)
      refine Finishes.check (fun short => rfl) fun room => ?_
      have inside : csrcEnd buffer + 4 + (halfOf buffer (csrcEnd buffer + 2)).toNat * 4 ≤ buffer.length :=
        Nat.not_lt.mp room
      refine Finishes.read (slice_of_le inside) (Finishes.ok ⟨rfl, ?_⟩)
      simp only
      omega
  · rw [if_neg present, if_neg fun both => present both.1]
    exact Finishes.ok ⟨rfl, fits⟩

theorem parsePadding_finishes (headerSize : Nat) (inside : headerSize ≤ buffer.length) : Finishes
    (fun r => r.1.extensionFields = p.extensionFields ∧ headerSize + r.2 ≤ buffer.length)
    (fun s => s.extensionFields = p.extensionFields) (p.parsePadding buffer headerSize) := by
  unfold parsePadding
  simp only
  split
  · refine Finishes.read (readAt_byteAt (by omega)) (Finishes.check (fun _ => rfl) fun _ => Finishes.ok ⟨rfl, ?_⟩)
    simp only
    omega
  · refine Finishes.ok ⟨rfl, ?_⟩
    simp only
    omega

theorem storePayload_finishes (headerSize payloadSize : Nat) (inside : headerSize + payloadSize ≤ buffer.length) :
    Finishes (fun q => q.extensionFields = p.extensionFields) (fun s => s.extensionFields = p.extensionFields)
      (p.storePayload buffer headerSize payloadSize) := by
  unfold storePayload
  split
  · exact Finishes.read (slice_of_le inside) (Finishes.ok rfl)
  · exact Finishes.ok rfl

theorem parse_finishes : Finishes
    (fun q => q.extensionFields = (storedExtension buffer).getD p.extensionFields)
    (fun s => s.extensionFields = (storedExtension buffer).getD p.extensionFields) (p.parse id buffer) := by
  refine Finishes.bind (p.parseHeader_finishes buffer) ?_
  rintro ⟨a, _⟩ ⟨header, extension, rfl, fits⟩
  simp only at header extension
  rw [← header]
  refine Finishes.bind (a.parseExtension_finishes buffer extension fits) ?_
  rintro ⟨b, headerSize⟩ ⟨stored, inside⟩
  simp only at stored
  rw [← stored]
  refine Finishes.bind (b.parsePadding_finishes buffer headerSize inside) ?_
  rintro ⟨c, payloadSize⟩ ⟨kept, room⟩
  simp only at kept
  rw [← kept]
  exact c.storePayload_finishes buffer headerSize payloadSize room

/-- A call, accepted or not, leaves the stored id and length, or those that were there. -/
theorem unmarshal_extensionFields (run : p.unmarshal buffer = .ok (accepted, q)) :
    q.extensionFields = (storedExtension buffer).getD p.extensionFields := by
  unfold unmarshal unmarshalWith at run
  rcases (p.parse_finishes buffer).outcome with ⟨r, parsing, stored⟩ | ⟨r, parsing, stored⟩
  all_goals
    rw [parsing] at run
    obtain ⟨-, rfl⟩ := Prod.mk.inj (Except.ok.inj run)
    exact stored

def again (p : RTPPacket UInt32) (buffer : List UInt8) : Except Fault (RTPPacket UInt32 × Bool) := do
  let (accepted, p) ← p.unmarshal buffer
  .ok (p, accepted)

theorem run_extensionFields (history : List (List UInt8)) :
    ∃ p results, runM again new history = .ok (p, results) ∧ p.extensionFields = lastExtension history := by
  induction history using List.reverseRecOn with
  | nil => exact ⟨new, [], rfl, rfl⟩
  | append_singleton history buffer ih =>
    obtain ⟨p, results, run, fields⟩ := ih
    obtain ⟨accepted, q, call, -, -⟩ := p.unmarshal_parsed buffer
    have now : p.again buffer = .ok (q, accepted) := by rw [again, call]; rfl
    refine ⟨q, _, runM_append_ok run (runM_cons_ok now (runM_nil _)), ?_⟩
    rw [p.unmarshal_extensionFields buffer call, fields, lastExtension_concat]

theorem parsed_eq_iff (p q : RTPPacket UInt32) (buffer : List UInt8) : p.parsed buffer id = q.parsed buffer id ↔
    hasExtension buffer = true ∨ p.extensionFields = q.extensionFields := by
  unfold parsed withBody withPadding withExtension extensionFields
  by_cases present : hasExtension buffer = true
  · simp [present, withHeader]
  · split <;> simp [present, withHeader]

end RTPPacket

/-- After a history of calls on one object the buffer leaves it, if it is accepted, as it
leaves a new object. -/
def Traceless (history : List (List UInt8)) (buffer : List UInt8) : Prop :=
  ∃ p results accepted q q', runM RTPPacket.again RTPPacket.new history = .ok (p, results) ∧
    p.unmarshal buffer = .ok (accepted, q) ∧ RTPPacket.new.unmarshal buffer = .ok (accepted, q') ∧
    (accepted = true → q = q')

/-- A reused object shows no trace of earlier buffers exactly when the buffer is rejected, has
an extension of its own, or the last extension stored before it had id and length zero. -/
theorem traceless_iff (history : List (List UInt8)) (buffer : List UInt8) : Traceless history buffer ↔
    (WellFormed buffer → hasExtension buffer = true ∨ lastExtension history = (0, 0)) := by
  obtain ⟨p, results, run, fields⟩ := RTPPacket.run_extensionFields history
  obtain ⟨accepted, q, call, form, same⟩ := p.unmarshal_parsed buffer
  obtain ⟨accepted', q', call', form', same'⟩ := RTPPacket.new.unmarshal_parsed buffer
  obtain rfl : accepted = accepted' := Bool.eq_iff_iff.mpr (form.trans form'.symm)
  have equal := RTPPacket.parsed_eq_iff p RTPPacket.new buffer
  rw [fields] at equal
  constructor
  · rintro ⟨_, _, _, _, _, run', one, other, alike⟩ whole
    obtain ⟨rfl, rfl⟩ := Prod.mk.inj (Except.ok.inj (run.symm.trans run'))
    obtain ⟨rfl, rfl⟩ := Prod.mk.inj (Except.ok.inj (call.symm.trans one))
    obtain ⟨-, rfl⟩ := Prod.mk.inj (Except.ok.inj (call'.symm.trans other))
    have yes := form.mpr whole
    apply equal.mp
    rw [← same yes, ← same' yes, alike yes]
  · intro clean
    refine ⟨p, results, accepted, q, q', run, call, call', fun yes => ?_⟩
    rw [same yes, same' yes]
    exact equal.mpr (clean (form.mp yes))

def extendedBuffer : List UInt8 := [0x90, 96, 0, 1, 0, 0, 0, 1, 0, 0, 0, 1, 0xBE, 0xDE, 0, 0, 0xAA]
def plainBuffer : List UInt8 := [0x80, 96, 0, 2, 0, 0, 0, 1, 0, 0, 0, 1, 0xAA]

/-- The second packet has no extension and still shows the id of the first. -/
theorem extension_id_kept :
    (runM RTPPacket.again RTPPacket.new [extendedBuffer, plainBuffer]).map
        (fun r => (r.2, r.1.extension, r.1.extensionHeaderId)) = .ok ([true, true], false, 0xBEDE) ∧
    (RTPPacket.new.again plainBuffer).map (fun r => (r.2, r.1.extension, r.1.extensionHeaderId)) =
      .ok (true, false, 0) ∧ ¬ Traceless [extendedBuffer] plainBuffer := by
  have reused : (runM RTPPacket.again RTPPacket.new [extendedBuffer, plainBuffer]).map
      (fun r => (r.2, r.1.extension, r.1.extensionHeaderId)) = .ok ([true, true], false, 0xBEDE) := by decide +kernel
  have fresh : (RTPPacket.new.again plainBuffer).map (fun r => (r.2, r.1.extension, r.1.extensionHeaderId)) =
      .ok (true, false, 0) := by decide +kernel
  refine ⟨reused, fresh, ?_⟩
  rintro ⟨p, results, accepted, q, q', run, call, call', same⟩
  have now : p.again plainBuffer = .ok (q, accepted) := by rw [RTPPacket.again, call]; rfl
  have now' : RTPPacket.new.again plainBuffer = .ok (q', accepted) := by rw [RTPPacket.again, call']; rfl
  have both : runM RTPPacket.again RTPPacket.new ([extendedBuffer] ++ [plainBuffer]) = .ok (q, results ++ [accepted]) :=
    runM_append_ok run (runM_cons_ok now (runM_nil q))
  rw [show [extendedBuffer, plainBuffer] = [extendedBuffer] ++ [plainBuffer] from rfl, both] at reused
  rw [now'] at fresh
  obtain ⟨yes, fields⟩ := Prod.mk.inj (Except.ok.inj fresh)
  obtain ⟨-, fields'⟩ := Prod.mk.inj (Except.ok.inj reused)
  have zero : q'.extensionHeaderId = 0 := (Prod.mk.inj fields).2
  have kept : q.extensionHeaderId = 0xBEDE := (Prod.mk.inj fields').2
  rw [same yes, zero] at kept
  exact absurd kept (by decide)

end WebTransport.RTP

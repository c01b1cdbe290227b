import WebTransport.H264.Bounded
import WebTransport.H264.RoundTrip

/-! What the packets tell about the units. A fragment keeps all of a header but its top
bit, so a unit that is always fragmented is known up to that bit. Two mtus are enough: at
three almost everything is fragmented, at 65535 almost nothing. -/
namespace WebTransport.H264

open Loop Fragment

/-- Units that no packet can tell apart with STAP-A disabled. -/
inductive Alike : List UInt8 → List UInt8 → Prop where
  | refl (unit : List UInt8) : Alike unit unit
  | top : 65535 ≤ rest.length → header &&& 0x7F = header' &&& 0x7F → Alike (header :: rest) (header' :: rest)

theorem Alike.length (alike : Alike a b) : a.length = b.length := by
  cases alike with
  | refl => rfl
  | top => rfl

theorem Alike.eq_of_short (alike : Alike a b) (short : a.length ≤ 65535) : a = b := by
  cases alike with
  | refl => rfl
  | top long => simp only [List.length_cons] at short; omega

theorem Alike.tail (alike : Alike a b) : a.tail = b.tail := by
  cases alike with
  | refl => rfl
  | top => rfl

theorem Alike.header (alike : Alike (a :: rest) (b :: rest')) : a &&& 0x7F = b &&& 0x7F := by
  cases alike with
  | refl => rfl
  | top _ same => exact same

theorem fuaPacket_inj (same : fuaPacket header first last fragment = fuaPacket header' first' last' fragment') :
    header &&& 0x7F = header' &&& 0x7F ∧ last = last' ∧ fragment = fragment' := by
  obtain ⟨indicator, tail⟩ := List.cons.inj same
  obtain ⟨fuHeaders, data⟩ := List.cons.inj tail
  refine ⟨?_, ?_, data⟩
  · rw [← fuaPacket_header header first last, indicator, fuHeaders, fuaPacket_header]
  · rw [Bool.eq_iff_iff, ← fuHeader_end header first last, fuHeaders, fuHeader_end]

/-- The End bit marks where the fragments of a unit stop, whatever follows. -/
theorem decorate_inj (fragments fragments' : List (List UInt8)) (some : fragments ≠ []) (some' : fragments' ≠ [])
    (same : decorate (fuaPacket header) first fragments ++ more =
      decorate (fuaPacket header') first' fragments' ++ more') :
    header &&& 0x7F = header' &&& 0x7F ∧ fragments = fragments' ∧ more = more' := by
  induction fragments generalizing fragments' first first' with
  | nil => exact absurd rfl some
  | cons fragment rest ih =>
    obtain ⟨fragment', rest', rfl⟩ := List.exists_cons_of_ne_nil some'
    rw [decorate_cons, decorate_cons, List.cons_append, List.cons_append] at same
    obtain ⟨packets, others⟩ := List.cons.inj same
    obtain ⟨headers, last, rfl⟩ := fuaPacket_inj packets
    cases rest with
    | nil =>
      obtain rfl := List.isEmpty_iff.mp last.symm
      exact ⟨headers, rfl, others⟩
    | cons next rest =>
      have nonempty : rest' ≠ [] := by
        rintro rfl
        cases last
      obtain ⟨-, rfl, rfl⟩ := ih rest' (List.cons_ne_nil _ _) nonempty others
      exact ⟨headers, rfl, rfl⟩

inductive Sent (mtu : UInt16) : List (List UInt8) → List (List UInt8) → Prop where
  | nil : Sent mtu [] []
  | cons : sendNALU mtu nalu = .ok group → Sent mtu rest more → Sent mtu (nalu :: rest) (group ++ more)

def nonempty (units : List (List UInt8)) : List (List UInt8) := units.filter (· ≠ [])

@[simp] theorem nonempty_nil : nonempty [] = [] := rfl
@[simp] theorem nonempty_empty (rest : List (List UInt8)) : nonempty ([] :: rest) = nonempty rest := rfl

theorem nonempty_cons (some : unit ≠ []) (rest : List (List UInt8)) :
    nonempty (unit :: rest) = unit :: nonempty rest := by simp [nonempty, some]

theorem emitUnits_disabled (p : H264Payloader) (disabled : p.disableStapa = true) (room : 3 ≤ mtu.toNat)
    (units : List (List UInt8)) :
    ∃ packets, p.emitUnits mtu units = .ok (p, packets) ∧ Sent mtu (nonempty units) packets := by
  induction units with
  | nil => exact ⟨[], rfl, .nil⟩
  | cons nalu rest ih =>
    obtain ⟨more, emitted, sent⟩ := ih
    rw [H264Payloader.emitUnits_cons]
    cases nalu with
    | nil =>
      rw [p.emitNALU_nil, ok_bind]
      simp only [emitted, ok_bind, List.nil_append]
      exact ⟨more, rfl, sent⟩
    | cons header tail =>
      obtain ⟨group, now, -⟩ := (sendNALU_respects_iff mtu (header :: tail)).mpr (.inl room)
      rw [emitNALU_disabled p disabled mtu now, ok_bind]
      simp only [emitted, ok_bind]
      rw [nonempty_cons (List.cons_ne_nil _ _)]
      exact ⟨group ++ more, rfl, .cons now sent⟩

theorem sendNALU_whole (fits : nalu.length ≤ mtu.toNat) : sendNALU mtu nalu = .ok [nalu] := if_pos fits

theorem alike_long (room : 3 ≤ mtu.toNat) (long : mtu.toNat < (header :: rest).length)
    (long' : mtu.toNat < (header' :: rest').length)
    (sent : sendNALU mtu (header :: rest) = .ok group) (sent' : sendNALU mtu (header' :: rest') = .ok group')
    (same : group ++ more = group' ++ more') :
    header &&& 0x7F = header' &&& 0x7F ∧ rest = rest' ∧ more = more' := by
  obtain ⟨fragments, run, some, joined⟩ := sendNALU_fragments room long
  obtain ⟨fragments', run', some', joined'⟩ := sendNALU_fragments room long'
  obtain rfl := Except.ok.inj (run.symm.trans sent)
  obtain rfl := Except.ok.inj (run'.symm.trans sent')
  obtain ⟨headers, rfl, others⟩ := decorate_inj fragments fragments' some some' same
  exact ⟨headers, joined.symm.trans joined', others⟩

/-- At an mtu of 65535 a unit of at most three bytes is not confused with a longer one. -/
theorem short_not_long (some : unit ≠ []) (short : unit.length ≤ 3) (long : 3 < unit'.length)
    (sent : sendNALU 65535 unit = .ok group) (sent' : sendNALU 65535 unit' = .ok group') :
    group ++ more ≠ group' ++ more' := by
  have wide : UInt16.toNat 65535 = 65535 := rfl
  rw [sendNALU_whole (by omega)] at sent
  obtain rfl := Except.ok.inj sent
  intro same
  obtain ⟨header, rest, rfl⟩ := List.exists_cons_of_ne_nil (List.length_pos_iff.mp (by omega : 0 < unit'.length))
  by_cases fits : (header :: rest).length ≤ UInt16.toNat 65535
  · rw [sendNALU_whole fits] at sent'
    obtain rfl := Except.ok.inj sent'
    obtain ⟨rfl, -⟩ := List.cons.inj same
    omega
  · obtain ⟨first, others, run, length⟩ := sendNALU_first (by decide) (Nat.lt_of_not_le fits)
    obtain rfl := Except.ok.inj (run.symm.trans sent')
    obtain ⟨rfl, -⟩ := List.cons.inj same
    omega

/-- One unit on either side: they are alike, and so is what remains at both mtus. -/
theorem alike_step (some : unit ≠ []) (some' : unit' ≠ [])
    (narrow : sendNALU 3 unit = .ok a) (narrow' : sendNALU 3 unit' = .ok a') (same : a ++ as = a' ++ as')
    (wide : sendNALU 65535 unit = .ok b) (wide' : sendNALU 65535 unit' = .ok b') (same' : b ++ bs = b' ++ bs') :
    Alike unit unit' ∧ as = as' ∧ bs = bs' := by
  have three : UInt16.toNat 3 = 3 := rfl
  have most : UInt16.toNat 65535 = 65535 := rfl
  by_cases short : unit.length ≤ 3
  · by_cases short' : unit'.length ≤ 3
    · rw [sendNALU_whole (by omega)] at narrow narrow' wide wide'
      obtain rfl := Except.ok.inj narrow
      obtain rfl := Except.ok.inj narrow'
      obtain rfl := Except.ok.inj wide
      obtain rfl := Except.ok.inj wide'
      obtain ⟨rfl, others⟩ := List.cons.inj same
      exact ⟨.refl _, others, (List.cons.inj same').2⟩
    · exact absurd same' (short_not_long some short (by omega) wide wide')
  by_cases short' : unit'.length ≤ 3
  · exact absurd same'.symm (short_not_long some' short' (by omega) wide' wide)
  obtain ⟨header, rest, rfl⟩ := List.exists_cons_of_ne_nil some
  obtain ⟨header', rest', rfl⟩ := List.exists_cons_of_ne_nil some'
  obtain ⟨headers, rfl, others⟩ := alike_long (by decide) (by omega) (by omega) narrow narrow' same
  have lengths : (header' :: rest).length = (header :: rest).length := rfl
  by_cases fits : (header :: rest).length ≤ 65535
  · rw [sendNALU_whole (by omega)] at wide wide'
    obtain rfl := Except.ok.inj wide
    obtain rfl := Except.ok.inj wide'
    obtain ⟨units, later⟩ := List.cons.inj same'
    exact ⟨units ▸ .refl _, others, later⟩
  · obtain ⟨-, -, later⟩ := alike_long (by decide) (by omega) (by omega) wide wide' same'
    rw [List.length_cons] at fits
    exact ⟨.top (by omega) headers, others, later⟩

/-- The packets at these two mtus determine the units as far as packets can. -/
theorem alike_of_sent (units units' : List (List UInt8)) (some : ∀ unit ∈ units, unit ≠ [])
    (some' : ∀ unit ∈ units', unit ≠ [])
    (narrow : Sent 3 units as) (narrow' : Sent 3 units' as') (same : as = as')
    (wide : Sent 65535 units bs) (wide' : Sent 65535 units' bs') (same' : bs = bs') :
    List.Forall₂ Alike units units' := by
  induction narrow generalizing units' as' bs bs' with
  | nil =>
    cases narrow' with
    | nil => exact .nil
    | cons sent =>
      have more := sendNALU_ne_nil (by decide) (some' _ List.mem_cons_self) sent
      exact absurd (List.append_eq_nil_iff.mp same.symm).1 more
  | cons sent _ ih =>
    obtain ⟨first, others⟩ := List.forall_mem_cons.mp some
    cases narrow' with
    | nil => exact absurd (List.append_eq_nil_iff.mp same).1 (sendNALU_ne_nil (by decide) first sent)
    | cons sent' narrow' =>
      obtain ⟨first', others'⟩ := List.forall_mem_cons.mp some'
      cases wide with
      | cons full wide =>
        cases wide' with
        | cons full' wide' =>
          obtain ⟨alike, rest, rest'⟩ := alike_step first first' sent sent' same full full' same'
          exact .cons alike (ih _ others others' narrow' rest wide wide' rest')

end WebTransport.H264

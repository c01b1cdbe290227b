import WebTransport.Theory.Machine

/-! Incremental decoding of a self-delimiting format. A receiver keeps the bytes it
cannot decode yet and retries when more arrive; how the bytes were cut into arrivals
changes neither what is decoded nor what is kept. -/
namespace Framing

variable {β α : Type}

/-- A decoder of one item. More input never changes an item already recognised. -/
structure Decoder (β α : Type) where
  next : List β → Option (α × List β)
  shrinks : ∀ {xs a rest}, next xs = some (a, rest) → rest.length < xs.length
  stable : ∀ {xs a rest} more, next xs = some (a, rest) → next (xs ++ more) = some (a, rest ++ more)

structure Codec (β α : Type) extends Decoder β α where
  encode : α → List β
  decodes : ∀ a rest, next (encode a ++ rest) = some (a, rest)

variable (d : Decoder β α)

def drainFuel : Nat → List β → List α × List β
  | 0, xs => ([], xs)
  | fuel + 1, xs =>
    match d.next xs with
    | none => ([], xs)
    | some (a, rest) => (a :: (drainFuel fuel rest).1, (drainFuel fuel rest).2)

/-- All items at the front of the input, and the rest that decodes no further. -/
def drain (xs : List β) : List α × List β := drainFuel d xs.length xs

variable {d}

theorem drainFuel_enough (enough : xs.length ≤ fuel) : drainFuel d fuel xs = drain d xs := by
  have stable : ∀ n m (ys : List β), ys.length ≤ n → ys.length ≤ m →
      drainFuel d n ys = drainFuel d m ys := by
    intro n
    induction n with
    | zero =>
      intro m ys small _
      have empty : d.next ys = none := by
        cases h : d.next ys with
        | none => rfl
        | some p => obtain ⟨a, rest⟩ := p; have := d.shrinks h; omega
      cases m <;> simp [drainFuel, empty]
    | succ n ih =>
      intro m ys small small'
      cases h : d.next ys with
      | none => cases m <;> simp [drainFuel, h]
      | some p =>
        obtain ⟨a, rest⟩ := p
        have shorter := d.shrinks h
        obtain ⟨m, rfl⟩ : ∃ k, m = k + 1 := ⟨m - 1, by omega⟩
        simp only [drainFuel, h, ih m rest (by omega) (by omega)]
  exact stable _ _ xs enough (Nat.le_refl _)

theorem drain_none (h : d.next xs = none) : drain d xs = ([], xs) := by
  unfold drain
  cases xs.length <;> simp [drainFuel, h]

theorem drain_some (h : d.next xs = some (a, rest)) :
    drain d xs = (a :: (drain d rest).1, (drain d rest).2) := by
  have shorter := d.shrinks h
  unfold drain
  obtain ⟨n, hn⟩ : ∃ n, xs.length = n + 1 := ⟨xs.length - 1, by omega⟩
  simp only [hn, drainFuel, h, drainFuel_enough (d := d) (show rest.length ≤ n by omega)]
  rfl

theorem next_drain (xs : List β) : d.next (drain d xs).2 = none := by
  induction size : xs.length using Nat.strongRecOn generalizing xs with
  | _ n ih =>
    cases h : d.next xs with
    | none => rw [drain_none h]; exact h
    | some p =>
      obtain ⟨a, rest⟩ := p
      rw [drain_some h]
      exact ih rest.length (size ▸ d.shrinks h) rest rfl

/-- Draining what arrives in two parts is draining the first part, then its rest
joined to the second. -/
theorem drain_append (xs more : List β) :
    drain d (xs ++ more) =
      ((drain d xs).1 ++ (drain d ((drain d xs).2 ++ more)).1,
        (drain d ((drain d xs).2 ++ more)).2) := by
  induction size : xs.length using Nat.strongRecOn generalizing xs with
  | _ n ih =>
    cases h : d.next xs with
    | none => simp [drain_none h]
    | some p =>
      obtain ⟨a, rest⟩ := p
      rw [drain_some h, drain_some (d.stable more h), ih rest.length (size ▸ d.shrinks h) rest rfl]
      simp

def receive (d : Decoder β α) (pending chunk : List β) : List β × List α :=
  ((drain d (pending ++ chunk)).2, (drain d (pending ++ chunk)).1)

/-- Any segmentation gives the items and the rest of the joined input. -/
theorem run_receive (stuck : d.next pending = none) (chunks : List (List β)) :
    Machine.run (receive d) pending chunks =
      ((drain d (pending ++ chunks.flatten)).2, (drain d (pending ++ chunks.flatten)).1) := by
  induction chunks generalizing pending with
  | nil => simp [drain_none stuck]
  | cons chunk rest ih =>
    rw [Machine.run_cons, receive, ih (next_drain _), List.flatten_cons, ← List.append_assoc,
      drain_append (pending ++ chunk)]

variable {c : Codec β α}

theorem drain_encode (items : List α) (rest : List β) :
    drain c.toDecoder ((items.map c.encode).flatten ++ rest) =
      (items ++ (drain c.toDecoder rest).1, (drain c.toDecoder rest).2) := by
  induction items with
  | nil => simp
  | cons a items ih =>
    rw [List.map_cons, List.flatten_cons, List.append_assoc, drain_some (c.decodes a _), ih]
    simp

/-- Where the decoder recognises nothing but encodings, every input is the encoding of what
is drained from it and the rest. -/
theorem split_drain (exact : ∀ {xs a rest}, c.next xs = some (a, rest) → xs = c.encode a ++ rest) (xs : List β) :
    xs = ((drain c.toDecoder xs).1.map c.encode).flatten ++ (drain c.toDecoder xs).2 := by
  induction size : xs.length using Nat.strongRecOn generalizing xs with
  | _ n ih =>
    cases h : c.next xs with
    | none => rw [drain_none h]; rfl
    | some p =>
      obtain ⟨a, rest⟩ := p
      rw [drain_some h, List.map_cons, List.flatten_cons, List.append_assoc,
        ← ih rest.length (size ▸ c.shrinks h) rest rfl]
      exact exact h

/-- Part of an encoded item is not an item. -/
theorem next_of_partial (part : front ++ back = c.encode a) (missing : back ≠ []) :
    c.next front = none := by
  cases h : c.next front with
  | none => rfl
  | some p =>
    obtain ⟨b, rest⟩ := p
    have whole := c.stable back h
    have exact := c.decodes a []
    rw [part] at whole
    rw [List.append_nil, whole] at exact
    simp only [Option.some.injEq, Prod.mk.injEq, List.append_eq_nil_iff] at exact
    exact absurd exact.2.2 missing

/-- What has been received of an encoded list: some whole items, then a part of the
next one that is not whole. -/
structure Received (c : Codec β α) (items : List α) (bytes : List β) (whole : Nat)
    (pending : List β) : Prop where
  bound : whole ≤ items.length
  bytes_eq : bytes = ((items.take whole).map c.encode).flatten ++ pending
  partial_item : ∀ a, items[whole]? = some a → ∃ missing, missing ≠ [] ∧ pending ++ missing = c.encode a
  finished : items[whole]? = none → pending = []

/-- Every prefix of the encoding of a list is received in exactly this sense. -/
theorem received_of_prefix (nonempty : ∀ a, c.encode a ≠ []) (items : List α)
    (arrived : bytes ++ unsent = (items.map c.encode).flatten) :
    ∃ whole pending, Received c items bytes whole pending := by
  induction items generalizing bytes with
  | nil =>
    obtain ⟨rfl, _⟩ := List.append_eq_nil_iff.mp arrived
    exact ⟨0, [], ⟨Nat.le_refl _, rfl, by simp, fun _ => rfl⟩⟩
  | cons a items ih =>
    rw [List.map_cons, List.flatten_cons] at arrived
    rcases List.append_eq_append_iff.mp arrived with ⟨missing, part, _⟩ | ⟨extra, rfl, tail⟩
    · by_cases none : missing = []
      · subst none
        refine ⟨1, [], ⟨by simp, by simpa using part.symm, ?_, fun _ => rfl⟩⟩
        intro b _
        exact ⟨c.encode b, nonempty b, rfl⟩
      · refine ⟨0, bytes, ⟨by simp, rfl, ?_, by simp⟩⟩
        intro b first
        obtain rfl : a = b := by simpa using first
        exact ⟨missing, none, part.symm⟩
    · obtain ⟨whole, pending, got⟩ := ih tail.symm
      refine ⟨whole + 1, pending, ⟨by simpa using got.bound, ?_, ?_, ?_⟩⟩
      · simp [got.bytes_eq]
      · simpa using got.partial_item
      · simpa using got.finished

/-- Draining a received prefix gives exactly its whole items and keeps the part. -/
theorem drain_received (empty : c.next [] = none) (got : Received c items bytes whole pending) :
    drain c.toDecoder bytes = (items.take whole, pending) := by
  have stuck : c.next pending = none := by
    cases h : items[whole]? with
    | none => rw [got.finished h]; exact empty
    | some a =>
      obtain ⟨missing, some, part⟩ := got.partial_item a h
      exact next_of_partial part some
  rw [got.bytes_eq, drain_encode, drain_none stuck]
  simp

end Framing

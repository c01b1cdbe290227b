import Mathlib.Tactic.Common

/-! Ranges `[start, next)` laid end to end. Such ranges partition the indices that they
run through, and the pieces that they cut out of a list join to that part of it. -/
namespace Ranges

/-- Nonempty ranges that follow one another from `first` to `last`. -/
inductive Tiles (start next : κ → Nat) (first : Nat) : Nat → List κ → Prop where
  | none : Tiles start next first first []
  | append : Tiles start next first (start c) cs → start c < next c →
      Tiles start next first (next c) (cs ++ [c])

variable {start next : κ → Nat} {first last : Nat} {cs : List κ}

theorem Tiles.le (tiles : Tiles start next first last cs) : first ≤ last := by
  induction tiles with
  | none => exact Nat.le_refl first
  | append _ forward ih => omega

theorem Tiles.bounds (tiles : Tiles start next first last cs) (member : c ∈ cs) :
    first ≤ start c ∧ start c < next c ∧ next c ≤ last := by
  induction tiles with
  | none => cases member
  | append before forward ih =>
    rcases List.mem_append.mp member with earlier | newest
    · obtain ⟨low, inside, high⟩ := ih earlier
      exact ⟨low, inside, by omega⟩
    · obtain rfl := List.mem_singleton.mp newest
      exact ⟨before.le, forward, Nat.le_refl _⟩

theorem Tiles.consecutive (tiles : Tiles start next first last cs) :
    cs.map start ++ [last] = first :: cs.map next := by
  induction tiles with
  | none => rfl
  | append _ _ ih => simp [ih]

/-- Every index on the way lies in exactly one range. -/
theorem Tiles.once (tiles : Tiles start next first last cs) (low : first ≤ i) (high : i < last) :
    ∃! c, c ∈ cs ∧ start c ≤ i ∧ i < next c := by
  induction tiles with
  | none => omega
  | @append c cs before forward ih =>
    by_cases earlier : i < start c
    · obtain ⟨d, ⟨member, inside⟩, only⟩ := ih earlier
      refine ⟨d, ⟨List.mem_append_left _ member, inside⟩, ?_⟩
      rintro e ⟨memberE, insideE⟩
      rcases List.mem_append.mp memberE with old | newest
      · exact only e ⟨old, insideE⟩
      · obtain rfl := List.mem_singleton.mp newest
        omega
    · refine ⟨c, ⟨by simp, by omega, high⟩, ?_⟩
      rintro e ⟨memberE, insideE⟩
      rcases List.mem_append.mp memberE with old | newest
      · have := before.bounds old
        omega
      · exact List.mem_singleton.mp newest

def piece (items : List α) (start next : Nat) : List α := (items.drop start).take (next - start)

theorem piece_join (items : List α) (low : first ≤ middle) (high : middle ≤ last) :
    piece items first middle ++ piece items middle last = piece items first last := by
  obtain ⟨one, rfl⟩ := Nat.exists_eq_add_of_le low
  obtain ⟨two, rfl⟩ := Nat.exists_eq_add_of_le high
  have whole : first + one + two - first = one + two := by omega
  simp only [piece, whole, List.take_add, List.drop_drop, Nat.add_sub_cancel_left]

theorem Tiles.pieces (tiles : Tiles start next first last cs) (items : List α) :
    (cs.map fun c => piece items (start c) (next c)).flatten = piece items first last := by
  induction tiles with
  | none => simp [piece]
  | append before forward ih =>
    rw [List.map_append, List.flatten_append, ih, List.map_singleton, List.flatten_singleton]
    exact piece_join items before.le (Nat.le_of_lt forward)

end Ranges

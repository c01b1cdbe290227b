import Mathlib.Data.Fintype.EquivFin
import Mathlib.Logic.Relation

/-! Objects that hold references to each other. What keeps exactly the objects that are
referred to keeps what can be reached from outside, and the cycles with all that hangs on
them. -/
namespace References

open Relation

abbrev Graph := Nat → Option (List Nat)

def Refers (g : Graph) (holder o : Nat) : Prop := ∃ members, g holder = some members ∧ o ∈ members

def Reaches (g : Graph) (roots : List Nat) (o : Nat) : Prop := ∃ r ∈ roots, ReflTransGen (Refers g) r o

/-- Reached from some objects, or from a cycle of living ones. -/
def Supported (g : Graph) (roots : List Nat) (o : Nat) : Prop :=
  Reaches g roots o ∨ ∃ c, TransGen (Refers g) c c ∧ ReflTransGen (Refers g) c o

variable {g g' : Graph} {roots roots' : List Nat}

theorem Refers.mono (kept : ∀ o members, g' o = some members → g o = some members) (refers : Refers g' holder o) :
    Refers g holder o := by
  obtain ⟨members, alive, there⟩ := refers
  exact ⟨members, kept holder members alive, there⟩

theorem Reaches.mono (kept : ∀ o members, g' o = some members → g o = some members)
    (rooted : ∀ r ∈ roots', r ∈ roots) (reaches : Reaches g' roots' o) : Reaches g roots o := by
  obtain ⟨r, root, path⟩ := reaches
  exact ⟨r, rooted r root, ReflTransGen.mono (fun _ _ => Refers.mono kept) _ _ path⟩

theorem Supported.mono (kept : ∀ o members, g' o = some members → g o = some members)
    (supported : Supported g' roots o) : Supported g roots o := by
  have refers : ∀ holder o, Refers g' holder o → Refers g holder o := fun _ _ => Refers.mono kept
  rcases supported with reached | ⟨c, cycle, path⟩
  · exact .inl (reached.mono kept fun _ => id)
  · exact .inr ⟨c, TransGen.mono refers _ _ cycle, ReflTransGen.mono refers _ _ path⟩

/-- What is supported has its support from outside, or from something that is. -/
theorem Supported.held (supported : Supported g roots o) :
    o ∈ roots ∨ ∃ holder, Supported g roots holder ∧ Refers g holder o := by
  rcases supported with ⟨r, root, path⟩ | ⟨c, cycle, path⟩
  · rcases path.cases_tail with rfl | ⟨holder, before, last⟩
    · exact .inl root
    · exact .inr ⟨holder, .inl ⟨r, root, before⟩, last⟩
  · obtain ⟨holder, before, last⟩ := TransGen.tail'_iff.mp (cycle.trans_left path)
    exact .inr ⟨holder, .inr ⟨c, cycle, before⟩, last⟩

/-- The references of an object are not needed to reach it. -/
theorem Reaches.around (elsewhere : ∀ a, a ≠ o → g' a = g a) (reaches : Reaches g roots o) :
    Reaches g' roots o := by
  obtain ⟨r, root, path⟩ := reaches
  refine ⟨r, root, ?_⟩
  clear root
  induction path using ReflTransGen.head_induction_on with
  | refl => exact .refl
  | @head a b first _ ih =>
    by_cases here : a = o
    · subst here
      exact .refl
    · obtain ⟨members, alive, there⟩ := first
      exact .head ⟨members, (elsewhere a here).trans alive, there⟩ ih

/-- References are only to living objects, and everything alive is referred to. -/
structure Exact (g : Graph) (roots : List Nat) : Prop where
  bound : ∃ size, ∀ o, (g o).isSome → o < size
  rootsAlive : r ∈ roots → (g r).isSome
  membersAlive : Refers g holder o → (g o).isSome
  held : (g o).isSome → o ∈ roots ∨ ∃ holder, Refers g holder o

theorem Refers.alive (refers : Refers g holder o) : (g holder).isSome := by
  obtain ⟨members, alive, _⟩ := refers
  rw [alive]
  rfl

/-- The way back from an object ends outside, unless it comes to a cycle. -/
theorem Exact.supported (exact : Exact g roots) (alive : (g o).isSome) : Supported g roots o := by
  by_contra unsupported
  obtain ⟨size, bound⟩ := exact.bound
  -- Back from the object there is no cycle, so there is a first object, which is held by none.
  let Back := { a : Fin size // ReflTransGen (Refers g) a.val o }
  have finite : Finite Back := Finite.of_injective (fun a : Back => a.val) Subtype.val_injective
  let before (a b : Back) : Prop := TransGen (Refers g) a.val b.val
  have trans : IsTrans Back before := ⟨fun a b c => TransGen.trans⟩
  have irrefl : Std.Irrefl before := ⟨fun a cycle => unsupported (.inr ⟨a.val, cycle, a.property⟩)⟩
  have founded : WellFounded before := Finite.wellFounded_of_trans_of_irrefl before
  have reached : ∀ a : Back, (g a.val).isSome → Reaches g roots a.val := by
    intro a
    induction a using founded.induction with
    | _ a ih =>
      intro alive
      rcases exact.held alive with root | ⟨holder, refers⟩
      · exact ⟨a.val, root, .refl⟩
      · let earlier : Back := ⟨⟨holder, bound holder refers.alive⟩, .head refers a.property⟩
        obtain ⟨r, root, path⟩ := ih earlier (.single refers) refers.alive
        exact ⟨r, root, path.tail refers⟩
  exact unsupported (.inl (reached ⟨⟨o, bound o alive⟩, .refl⟩ alive))

theorem Exact.alive_iff (exact : Exact g roots) (o : Nat) : (g o).isSome ↔ Supported g roots o := by
  refine ⟨exact.supported, fun supported => ?_⟩
  rcases supported.held with root | ⟨holder, _, refers⟩
  · exact exact.rootsAlive root
  · exact exact.membersAlive refers

end References

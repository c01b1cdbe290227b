import WebTransport.Theory.References

/-! `QuicheReferenceCountedImpl`: objects that count the pointers to them, some of which are
members of other objects. A destructor does nothing else than destroy the members. -/
namespace WebTransport.Platform

open References

inductive Misuse where
  -- a call on an object that was deleted, or on a member of it
  | deleted
  | tooDeep
  deriving DecidableEq, Repr

structure Object where
  refCount : Int
  members : List (Option Nat)
  deriving DecidableEq, Repr

/-- Deleted objects leave their place. -/
abbrev Objects := List (Option Object)

def addReference (objects : Objects) : Option Nat → Except Misuse Objects
  | none => .ok objects
  | some o =>
    match objects[o]? with
    | some (some object) => .ok (objects.set o (some { object with refCount := object.refCount + 1 }))
    | _ => .error .deleted

/-- `RemoveReference` of a pointer with this `object_`, but for the last assignment. The fuel
is for the nested deletions. -/
def removeReference : Nat → Objects → Option Nat → Except Misuse Objects
  | _, objects, none => .ok objects
  | 0, _, some _ => .error .tooDeep
  | fuel + 1, objects, some o =>
    match objects[o]? with
    | some (some object) =>
      let newCount := object.refCount - 1
      -- members are destroyed from the last to the first
      if newCount = 0 then object.members.reverse.foldlM (removeReference fuel) (objects.set o none)
      else .ok (objects.set o (some { object with refCount := newCount }))
    | _ => .error .deleted

def Object.setMember (i : Nat) (target : Option Nat) (object : Object) : Object :=
  { object with members := object.members.set i target }

def setMember (objects : Objects) (o i : Nat) (target : Option Nat) : Objects :=
  objects.modify o (Option.map (Object.setMember i target))

def targets (pointers : List (Option Nat)) : List Nat := pointers.flatMap Option.toList

/-- The references of pointers to these objects are removed, one after another; the members
of an object that dies come before the rest. -/
inductive Removal : Objects → List Nat → Objects → Prop where
  | done : Removal objects [] objects
  | less (there : objects[o]? = some (some object)) (more : object.refCount - 1 ≠ 0)
      (later : Removal (objects.set o (some { object with refCount := object.refCount - 1 })) list final) :
      Removal objects (o :: list) final
  | bury (there : objects[o]? = some (some object)) (last : object.refCount - 1 = 0)
      (later : Removal (objects.set o none) (targets object.members.reverse ++ list) final) :
      Removal objects (o :: list) final

variable {objects objects' final middle : Objects} {refs list : List Nat}
variable {object : Object} {slot : Option Object} {o m : Nat}

def refCount? (objects : Objects) (o : Nat) : Option Int := objects[o]?.join.map Object.refCount

def members? (objects : Objects) (o : Nat) : Option (List (Option Nat)) := objects[o]?.join.map Object.members

def slotTargets (slot : Option Object) : List Nat := targets ((slot.map Object.members).getD [])

def held (objects : Objects) : List Nat := objects.flatMap slotTargets

/-- The pointers to an object: members, and some that are not. -/
def total (objects : Objects) (refs : List Nat) (o : Nat) : Nat := refs.count o + (held objects).count o

def graph (objects : Objects) : Graph := fun o => (members? objects o).map targets

def expected (pointers : Nat) : Option Int := if pointers = 0 then none else some pointers

/-- Every object that is pointed to is alive and counts its pointers, and no other is. -/
def Counted (objects : Objects) (refs : List Nat) : Prop :=
  ∀ o, refCount? objects o = expected (total objects refs o)

theorem expected_some {count : Int} : expected n = some count ↔ 0 < n ∧ count = n := by
  unfold expected
  split <;> grind

theorem isSome_expected : (expected n).isSome ↔ 0 < n := by
  unfold expected
  split <;> simp <;> omega

theorem refCount?_some : refCount? objects o = some count ↔
    ∃ object, objects[o]? = some (some object) ∧ object.refCount = count := by
  simp [refCount?, Option.join_eq_some_iff]

theorem members?_some : members? objects o = some members ↔
    ∃ object, objects[o]? = some (some object) ∧ object.members = members := by
  simp [members?, Option.join_eq_some_iff]

theorem isSome_members? : (members? objects o).isSome ↔ (refCount? objects o).isSome := by
  simp [members?, refCount?]

theorem Counted.alive_iff (counted : Counted objects refs) (o : Nat) :
    (members? objects o).isSome ↔ 0 < total objects refs o := by
  rw [isSome_members?, counted, isSome_expected]

theorem Counted.found (counted : Counted objects refs) (pointed : 0 < total objects refs o) :
    ∃ object, objects[o]? = some (some object) ∧ object.refCount = (total objects refs o : Int) := by
  rw [← refCount?_some, counted, expected_some]
  exact ⟨pointed, rfl⟩

theorem graph_some : graph objects o = some found ↔ ∃ members, members? objects o = some members ∧
    targets members = found := by
  simp [graph]

theorem count_flatMap_set {α : Type} {items : List α} {x : α} (f : α → List Nat) (there : items[i]? = some x)
    (y : α) (o : Nat) :
    ((items.set i y).flatMap f).count o + (f x).count o = (items.flatMap f).count o + (f y).count o := by
  obtain ⟨inside, rfl⟩ := List.getElem?_eq_some_iff.mp there
  have whole := List.take_append_drop i items
  rw [List.drop_eq_getElem_cons inside] at whole
  rw [List.set_eq_take_append_cons_drop, if_pos inside]
  conv_rhs => rw [← whole]
  simp only [List.flatMap_append, List.flatMap_cons, List.count_append]
  omega

theorem total_set (there : objects[o]? = some slot) (new : Option Object) (refs : List Nat) (a : Nat) :
    total (objects.set o new) refs a + (slotTargets slot).count a =
      total objects refs a + (slotTargets new).count a := by
  have counts : ((objects.set o new).flatMap slotTargets).count a + (slotTargets slot).count a =
      (objects.flatMap slotTargets).count a + (slotTargets new).count a :=
    count_flatMap_set slotTargets there new a
  simp only [total, held]
  omega

theorem total_append (objects : Objects) (refs refs' : List Nat) (a : Nat) :
    total objects (refs ++ refs') a = refs.count a + total objects refs' a := by
  rw [total, List.count_append, total, Nat.add_assoc]

theorem place_set (there : objects[o]? = some slot) (new : Option Object) (a : Nat) :
    (objects.set o new)[a]? = if a = o then some new else objects[a]? := by
  obtain ⟨inside, -⟩ := List.getElem?_eq_some_iff.mp there
  rw [List.getElem?_set]
  by_cases same : o = a
  · subst same
    simp [inside]
  · simp [same, Ne.symm same]

theorem members?_recount (there : objects[o]? = some (some object)) (count : Int) :
    members? (objects.set o (some { object with refCount := count })) = members? objects := by
  funext a
  rw [members?, members?, place_set there]
  split
  next same => subst same; rw [there]; rfl
  next => rfl

theorem graph_recount (there : objects[o]? = some (some object)) (count : Int) :
    graph (objects.set o (some { object with refCount := count })) = graph objects := by
  funext a
  rw [graph, graph, members?_recount there]

theorem members?_bury (there : objects[o]? = some slot) :
    members? (objects.set o none) a = if a = o then none else members? objects a := by
  rw [members?, place_set there]
  split <;> rfl

/-- Only one object has another count, and another number of pointers. -/
theorem Counted.set (counted : Counted objects refs) (there : objects[o]? = some slot) {new : Option Object}
    (here : new.map Object.refCount = expected (total (objects.set o new) refs' o))
    (others : ∀ a, a ≠ o → total (objects.set o new) refs' a = total objects refs a) :
    Counted (objects.set o new) refs' := by
  intro a
  rw [refCount?, place_set there]
  split
  next same => subst same; exact here
  next other => rw [others a other]; exact counted a

theorem total_recount (there : objects[o]? = some (some object)) (count : Int) (refs : List Nat) (a : Nat) :
    total (objects.set o (some { object with refCount := count })) refs a = total objects refs a := by
  have changed := total_set there (some { object with refCount := count }) refs a
  simpa [slotTargets] using changed

theorem Counted.less (counted : Counted objects (o :: refs)) (there : objects[o]? = some (some object))
    (more : object.refCount - 1 ≠ 0) :
    Counted (objects.set o (some { object with refCount := object.refCount - 1 })) refs := by
  have count : refCount? objects o = some object.refCount := refCount?_some.mpr ⟨object, there, rfl⟩
  rw [counted, expected_some, total, List.count_cons_self] at count
  refine counted.set there ?_ fun a other => ?_
  · rw [total_recount there, Option.map_some, eq_comm, expected_some, total]
    dsimp only
    omega
  · rw [total_recount there, total, total, List.count_cons_of_ne (Ne.symm other)]

/-- Without its last pointer nothing points to an object. -/
theorem Counted.nobody (counted : Counted objects (o :: refs)) (there : objects[o]? = some (some object))
    (last : object.refCount - 1 = 0) : total objects refs o = 0 := by
  have count : refCount? objects o = some object.refCount := refCount?_some.mpr ⟨object, there, rfl⟩
  rw [counted, expected_some, total, List.count_cons_self] at count
  rw [total]
  omega

/-- It dies, and its members are pointers of nobody. -/
theorem Counted.bury (counted : Counted objects (o :: refs)) (there : objects[o]? = some (some object))
    (last : object.refCount - 1 = 0) :
    Counted (objects.set o none) (targets object.members.reverse ++ refs) := by
  have totals (a : Nat) :
      total (objects.set o none) (targets object.members.reverse ++ refs) a = total objects refs a := by
    have changed := total_set there none refs a
    have reversed : (targets object.members.reverse).count a = (targets object.members).count a :=
      ((List.reverse_perm object.members).flatMap_right _).count_eq a
    simp only [slotTargets, Option.map_some, Option.getD_some, Option.map_none, Option.getD_none, targets,
      List.flatMap_nil, List.count_nil] at changed reversed
    rw [total_append, targets, reversed]
    omega
  refine counted.set there ?_ fun a other => ?_
  · rw [totals, counted.nobody there last]
    rfl
  · rw [totals, total, total, List.count_cons_of_ne (Ne.symm other)]

theorem total_pos : 0 < total objects refs o ↔ o ∈ refs ∨ ∃ holder, Refers (graph objects) holder o := by
  rw [total, Nat.add_pos_iff_pos_or_pos, List.count_pos_iff, List.count_pos_iff, held, List.mem_flatMap]
  refine or_congr_right ⟨?_, ?_⟩
  · rintro ⟨slot, member, there⟩
    obtain ⟨holder, place⟩ := List.mem_iff_getElem?.mp member
    cases slot with
    | none => simp [slotTargets, targets] at there
    | some object =>
      exact ⟨holder, _, graph_some.mpr ⟨_, members?_some.mpr ⟨object, place, rfl⟩, rfl⟩, there⟩
  · rintro ⟨holder, _, found, there⟩
    obtain ⟨_, here, rfl⟩ := graph_some.mp found
    obtain ⟨object, place, rfl⟩ := members?_some.mp here
    exact ⟨some object, List.mem_of_getElem? place, there⟩

/-- With all pointers counted, the living objects are those that are supported. -/
theorem Counted.exact (counted : Counted objects refs) : Exact (graph objects) refs := by
  have alive (a : Nat) : (graph objects a).isSome ↔ 0 < total objects refs a := by
    rw [graph, Option.isSome_map, counted.alive_iff]
  refine ⟨⟨objects.length, ?_⟩, ?_, ?_, ?_⟩
  · intro a here
    obtain ⟨_, found⟩ := Option.isSome_iff_exists.mp here
    obtain ⟨_, living, -⟩ := graph_some.mp found
    obtain ⟨object, place, -⟩ := members?_some.mp living
    exact (List.getElem?_eq_some_iff.mp place).1
  · exact fun there => (alive _).mpr (total_pos.mpr (.inl there))
  · exact fun here => (alive _).mpr (total_pos.mpr (.inr ⟨_, here⟩))
  · exact fun here => total_pos.mp ((alive _).mp here)

theorem Counted.supported_iff (counted : Counted objects refs) (o : Nat) :
    (members? objects o).isSome ↔ Supported (graph objects) refs o := by
  rw [← counted.exact.alive_iff, graph, Option.isSome_map]

def Left (objects' objects : Objects) : Prop :=
  ∀ o members, members? objects' o = some members → members? objects o = some members

theorem Left.graph (left : Left objects' objects) (o : Nat) (found : List Nat)
    (here : Platform.graph objects' o = some found) : Platform.graph objects o = some found := by
  obtain ⟨members, place, same⟩ := graph_some.mp here
  exact graph_some.mpr ⟨members, left o members place, same⟩

def living (objects : Objects) : Nat := objects.countP Option.isSome

theorem living_set (there : objects[o]? = some (some object)) (new : Object) :
    living (objects.set o (some new)) = living objects := by
  obtain ⟨inside, here⟩ := List.getElem?_eq_some_iff.mp there
  have positive : 0 < living objects := List.countP_pos_iff.mpr ⟨_, List.mem_of_getElem? there, rfl⟩
  rw [living, List.countP_set inside, here]
  simp only [Option.isSome_some, if_true]
  rw [living] at positive ⊢
  omega

theorem living_bury (there : objects[o]? = some (some object)) :
    living (objects.set o none) + 1 = living objects := by
  obtain ⟨inside, here⟩ := List.getElem?_eq_some_iff.mp there
  have positive : 0 < living objects := List.countP_pos_iff.mpr ⟨_, List.mem_of_getElem? there, rfl⟩
  rw [living, List.countP_set inside, here]
  simp only [Option.isSome_some, if_true, Option.isSome_none, Bool.false_eq_true, if_false]
  rw [living] at positive ⊢
  omega

namespace Removal

theorem split (first : List Nat) {second : List Nat} (removal : Removal objects (first ++ second) final) :
    ∃ middle, Removal objects first middle ∧ Removal middle second final := by
  generalize all : first ++ second = list at removal
  induction removal generalizing first with
  | done =>
    obtain ⟨rfl, rfl⟩ := List.append_eq_nil_iff.mp all
    exact ⟨_, .done, .done⟩
  | @less objects o object list final there more later ih =>
    cases first with
    | nil =>
      rw [List.nil_append] at all
      exact ⟨objects, .done, all ▸ .less there more later⟩
    | cons a rest =>
      obtain ⟨rfl, rfl⟩ := List.cons.inj all
      obtain ⟨middle, before, behind⟩ := ih rest rfl
      exact ⟨middle, .less there more before, behind⟩
  | @bury objects o object list final there last later ih =>
    cases first with
    | nil =>
      rw [List.nil_append] at all
      exact ⟨objects, .done, all ▸ .bury there last later⟩
    | cons a rest =>
      obtain ⟨rfl, rfl⟩ := List.cons.inj all
      obtain ⟨middle, before, behind⟩ := ih _ (List.append_assoc _ rest second)
      exact ⟨middle, .bury there last before, behind⟩

theorem living_le (removal : Removal objects list final) : living final ≤ living objects := by
  induction removal with
  | done => exact Nat.le_refl _
  | less there _ _ ih => exact Nat.le_trans ih (Nat.le_of_eq (living_set there _))
  | bury there _ _ ih =>
    have fewer := living_bury there
    omega

theorem left (removal : Removal objects list final) : Left final objects := by
  induction removal with
  | done => exact fun _ _ => id
  | less there _ _ ih =>
    intro a members here
    rw [← members?_recount there]
    exact ih a members here
  | bury there _ _ ih =>
    intro a members here
    have before := ih a members here
    rw [members?_bury there] at before
    split at before
    · cases before
    · exact before

theorem removeMembers (each : ∀ {objects o final}, Removal objects [o] final → living objects ≤ fuel →
      Platform.removeReference fuel objects (some o) = .ok final)
    (members : List (Option Nat)) (removal : Removal objects (targets members) final) (few : living objects ≤ fuel) :
    members.foldlM (Platform.removeReference fuel) objects = .ok final := by
  induction members generalizing objects with
  | nil =>
    cases removal
    rfl
  | cons member rest ih =>
    cases member with
    | none =>
      have skipped : Platform.removeReference fuel objects none = .ok objects := by cases fuel <;> rfl
      rw [List.foldlM_cons, skipped]
      exact ih removal few
    | some m =>
      obtain ⟨middle, first, later⟩ := split [m] removal
      rw [List.foldlM_cons, each first few]
      exact ih later (Nat.le_trans first.living_le few)

/-- Fuel for each living object is enough: each nested deletion is of one of them. -/
theorem removeReference (removal : Removal objects [o] final) (few : living objects ≤ fuel) :
    Platform.removeReference fuel objects (some o) = .ok final := by
  induction fuel generalizing objects o final with
  | zero =>
    cases removal with
    | less there _ _ | bury there _ _ =>
      have fewer := living_bury there
      omega
  | succ fuel ih =>
    cases removal with
    | less there more later =>
      cases later
      simp [Platform.removeReference, there, more]
    | @bury _ _ object _ _ there last later =>
      rw [List.append_nil] at later
      have fewer := living_bury there
      have members := removeMembers ih object.members.reverse later (by omega)
      simpa [Platform.removeReference, there, last] using members

end Removal

/-- Pointers that are counted can be removed, and then are not counted any more. -/
theorem Counted.removal (counted : Counted objects (list ++ refs)) :
    ∃ final, Removal objects list final ∧ Counted final refs := by
  generalize number : living objects = n
  induction n using Nat.strongRecOn generalizing objects list with
  | ind n fewer =>
    induction list generalizing objects with
    | nil => exact ⟨objects, .done, counted⟩
    | cons o rest ih =>
      rw [List.cons_append] at counted
      obtain ⟨object, there, -⟩ := counted.found (o := o) (by rw [total, List.count_cons_self]; omega)
      by_cases last : object.refCount - 1 = 0
      · have less := living_bury there
        have buried := counted.bury there last
        rw [← List.append_assoc] at buried
        obtain ⟨final, removal, after⟩ := fewer (living (objects.set o none)) (by omega) buried rfl
        exact ⟨final, .bury there last removal, after⟩
      · obtain ⟨final, removal, after⟩ := ih (counted.less there last) ((living_set there _).trans number)
        exact ⟨final, .less there last removal, after⟩

/-- Objects with a pointer that is not removed, or with a member of one such, stay alive. -/
theorem Removal.keeps (removal : Removal objects list final) (counted : Counted objects (list ++ refs))
    (Kept : Nat → Prop)
    (support : ∀ o, Kept o → o ∈ refs ∨ ∃ holder, Kept holder ∧ Refers (graph objects) holder o)
    (o : Nat) (kept : Kept o) : (members? final o).isSome := by
  induction removal with
  | done =>
    rw [counted.alive_iff, total_pos]
    exact (support o kept).imp_right fun ⟨holder, _, refers⟩ => ⟨holder, refers⟩
  | less there more _ ih =>
    refine ih (counted.less there more) fun a kept => ?_
    rw [graph_recount there]
    exact support a kept
  | @bury objects dying object list final there last _ ih =>
    rw [List.cons_append] at counted
    have buried := counted.bury there last
    rw [← List.append_assoc] at buried
    have others (a : Nat) (kept : Kept a) : a ≠ dying := by
      rintro rfl
      have pointed : 0 < total objects (list ++ refs) a := by
        rw [total_pos, List.mem_append]
        rcases support a kept with outside | ⟨holder, _, refers⟩
        · exact .inl (.inr outside)
        · exact .inr ⟨holder, refers⟩
      exact Nat.ne_of_gt pointed (counted.nobody there last)
    refine ih buried fun a kept => (support a kept).imp_right ?_
    rintro ⟨holder, keeper, members, alive, member⟩
    refine ⟨holder, keeper, members, ?_, member⟩
    rw [graph, members?_bury there, if_neg (others holder keeper)]
    exact alive

/-- So the objects that are supported without the removed pointers stay alive, and no others. -/
theorem Removal.alive_iff (removal : Removal objects list final) (counted : Counted objects (list ++ refs))
    (after : Counted final refs) (o : Nat) : (members? final o).isSome ↔ Supported (graph objects) refs o := by
  constructor
  · intro alive
    exact ((after.supported_iff o).mp alive).mono removal.left.graph
  · exact removal.keeps counted _ (fun a supported => supported.held) o

theorem members?_setMember (objects : Objects) (o i : Nat) (target : Option Nat) (a : Nat) :
    members? (setMember objects o i target) a =
      if a = o then (members? objects a).map (·.set i target) else members? objects a := by
  simp only [members?, setMember, List.getElem?_modify]
  by_cases same : o = a
  · subst same
    cases objects[o]? with
    | none => simp
    | some slot => cases slot <;> simp [Object.setMember]
  · simp [same, Ne.symm same]

theorem refCount?_setMember (objects : Objects) (o i : Nat) (target : Option Nat) :
    refCount? (setMember objects o i target) = refCount? objects := by
  funext a
  simp only [refCount?, setMember, List.getElem?_modify]
  split
  · cases objects[a]? with
    | none => rfl
    | some slot => cases slot <;> rfl
  · simp

theorem setMember_set (objects : Objects) (o i a : Nat) (target : Option Nat) (slot : Option Object) :
    setMember (objects.set a slot) o i target =
      (setMember objects o i target).set a (if a = o then slot.map (Object.setMember i target) else slot) := by
  refine List.ext_getElem? fun b => ?_
  simp only [setMember, List.getElem?_modify, List.getElem?_set, List.length_modify]
  by_cases here : a = b
  · subst here
    simp only [if_true, eq_comm (a := o)]
    split <;> split <;> simp
  · simp [here]

theorem getElem?_setMember (there : objects[a]? = some (some object)) (o i : Nat) (target : Option Nat) :
    (setMember objects o i target)[a]? = some (some (if a = o then object.setMember i target else object)) := by
  simp only [setMember, List.getElem?_modify, there, eq_comm (a := o)]
  split <;> rfl

/-- What a removal does not delete it does not look at either. -/
theorem Removal.setMember (removal : Removal objects list final) (alive : (members? final o).isSome)
    (i : Nat) (target : Option Nat) :
    Removal (setMember objects o i target) list (setMember final o i target) := by
  induction removal with
  | done => exact .done
  | @less objects a object list final there more later ih =>
    have next := ih alive
    rw [setMember_set] at next
    by_cases here : a = o
    · refine .less (getElem?_setMember there o i target) ?_ ?_
      · rw [if_pos here]
        exact more
      · simpa [here, Object.setMember] using next
    · refine .less (getElem?_setMember there o i target) ?_ ?_
      · rw [if_neg here]
        exact more
      · simpa [here] using next
  | @bury objects a object list final there last later ih =>
    have other : a ≠ o := by
      rintro rfl
      obtain ⟨members, here⟩ := Option.isSome_iff_exists.mp alive
      have before := later.left a members here
      rw [members?_bury there, if_pos rfl] at before
      cases before
    have next := ih alive
    rw [setMember_set, if_neg other] at next
    have place := getElem?_setMember there o i target
    rw [if_neg other] at place
    exact .bury place last next

theorem Removal.option {target : Option Nat} (removal : Removal objects target.toList final) :
    Platform.removeReference (objects.length + 1) objects target = .ok final := by
  cases target with
  | none =>
    cases removal
    rfl
  | some o => exact Removal.removeReference removal (Nat.le_succ_of_le List.countP_le_length)

theorem setMember_eq (there : objects[o]? = some (some object)) (i : Nat) (target : Option Nat) :
    setMember objects o i target = objects.set o (some (object.setMember i target)) := by
  refine List.ext_getElem? fun a => ?_
  rw [place_set there]
  simp only [setMember, List.getElem?_modify]
  split
  next same => subst same; simp [there]
  next other => simp [Ne.symm other]

end WebTransport.Platform

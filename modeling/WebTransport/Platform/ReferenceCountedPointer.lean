import WebTransport.Platform.ReferenceCounted
import WebTransport.Theory.Machine

/-! `QuicheReferenceCountedPointerImpl`. Pointers are members of objects, or numbered in the
order of their construction. A new object has null pointers for members, since to initialize
one is to assign to it. -/
namespace WebTransport.Platform

open References

/-- A destroyed pointer is `none`, a null pointer `some none`. -/
structure Heap where
  objects : Objects := []
  pointers : List (Option (Option Nat)) := []
  deriving DecidableEq, Repr

inductive Place where
  | pointer (p : Nat)
  | member (o i : Nat)
  deriving DecidableEq, Repr

/-- An expression for a pointer: members of members, from one that is not a member. -/
structure Path where
  pointer : Nat
  members : List Nat := []
  deriving DecidableEq, Repr

namespace Heap

variable (h : Heap)

def load : Place → Option (Option Nat)
  | .pointer p => h.pointers[p]?.join
  | .member o i => h.objects[o]?.join.bind (·.members[i]?)

def put (target : Option Nat) : Place → Heap
  | .pointer p => { h with pointers := h.pointers.set p (some target) }
  | .member o i => { h with objects := setMember h.objects o i target }

def store (place : Place) (target : Option Nat) : Except Misuse Heap :=
  match h.load place with
  | some _ => .ok (h.put target place)
  | none => .error .deleted

def follow : Place → List Nat → Option Place
  | place, [] => some place
  | place, i :: members =>
    match h.load place with
    | some (some o) => follow (.member o i) members
    | _ => none

def locate (path : Path) : Option (Place × Option Nat) := do
  let place ← h.follow (.pointer path.pointer) path.members
  .some (place, ← h.load place)

def construct (object : Option Nat) : Heap := { h with pointers := h.pointers ++ [some object] }

def newObject (members : Nat) : Heap × Nat :=
  ({ h with objects := h.objects ++ [some ⟨1, List.replicate members none⟩] }, h.objects.length)

def addReference (object : Option Nat) : Except Misuse Heap := do
  .ok { h with objects := ← Platform.addReference h.objects object }

def removeReference (object : Option Nat) : Except Misuse Heap := do
  .ok { h with objects := ← Platform.removeReference (h.objects.length + 1) h.objects object }

def assignObject (place : Place) (newObject : Option Nat) : Except Misuse Heap :=
  match h.load place with
  | none => .error .deleted
  | some object => do (← h.removeReference object).store place newObject

end Heap

inductive Operation where
  | default
  | raw (members : Nat)
  | copy (source : Path)
  | move (source : Path)
  | moveConverting (source : Path)
  | copyAssign (target source : Path)
  | moveAssign (target source : Path)
  | moveAssignConverting (target source : Path)
  | rawAssign (target : Path) (members : Nat)
  | nullAssign (target : Path)
  | destroy (p : Nat)
  deriving DecidableEq, Repr

namespace Heap

variable (h : Heap)

/-- Operations on pointers that are not there, and paths over null pointers, are no
programs: nothing happens. -/
def step : Operation → Except Misuse Heap
  | .default => .ok (h.construct none)
  | .raw members =>
    let (h, o) := h.newObject members
    .ok (h.construct (some o))
  | .copy source =>
    match h.locate source with
    | none => .ok h
    | some (_, object) => (h.construct object).addReference object
  | .move source =>
    match h.locate source with
    | none => .ok h
    | some (other, object) => (h.construct object).store other none
  | .moveConverting source =>
    match h.locate source with
    | none => .ok h
    | some (other, object) => do
      let h ← (h.construct object).addReference object
      h.assignObject other none
  | .copyAssign target source =>
    match h.locate target, h.locate source with
    | some (place, _), some (_, newObject) => do
      let h ← h.assignObject place newObject
      h.addReference newObject
    | _, _ => .ok h
  | .moveAssign target source =>
    match h.locate target, h.locate source with
    | some (place, _), some (other, newObject) => do
      let h ← h.assignObject place newObject
      h.store other none
    | _, _ => .ok h
  | .moveAssignConverting target source =>
    match h.locate target, h.locate source with
    | some (place, _), some (other, newObject) =>
      -- of different types, so not one pointer
      if place = other then .ok h
      else do
        let h ← h.assignObject place newObject
        let h ← h.addReference newObject
        h.assignObject other none
    | _, _ => .ok h
  | .rawAssign target members =>
    match h.locate target with
    | none => .ok h
    | some (place, _) =>
      let (h, o) := h.newObject members
      h.assignObject place (some o)
  | .nullAssign target =>
    match h.locate target with
    | none => .ok h
    | some (place, _) => h.assignObject place none
  | .destroy p =>
    match h.load (.pointer p) with
    | none => .ok h
    | some object => do
      let h ← h.removeReference object
      .ok { h with pointers := h.pointers.set p none }

def run (operations : List Operation) : Except Misuse Heap := operations.foldlM step {}

end Heap

variable {objects final : Objects} {object : Object} {o : Nat}

def Place.owner? : Place → Option Nat
  | .pointer _ => none
  | .member o _ => some o

namespace Heap

def outside (h : Heap) : List Nat := h.pointers.flatMap fun pointer => pointer.join.toList

def Sound (h : Heap) : Prop := Counted h.objects h.outside

variable {h after next : Heap} {place other : Place} {old new target : Option Nat} {extra : List Nat}

theorem load_member (h : Heap) (o i : Nat) : h.load (.member o i) = (members? h.objects o).bind (·[i]?) := by
  rw [load, members?]
  cases h.objects[o]?.join <;> rfl

theorem load_place (there : h.load (.member o i) = some old) :
    ∃ object, h.objects[o]? = some (some object) ∧ object.members[i]? = some old := by
  rw [load_member, Option.bind_eq_some_iff] at there
  obtain ⟨_, here, found⟩ := there
  obtain ⟨object, place, rfl⟩ := members?_some.mp here
  exact ⟨object, place, found⟩

theorem refCount?_put (h : Heap) (new : Option Nat) (place : Place) :
    refCount? (h.put new place).objects = refCount? h.objects := by
  cases place with
  | pointer p => rfl
  | member o i => exact refCount?_setMember h.objects o i new

theorem load_put (there : h.load place = some old) (new : Option Nat) (other : Place) :
    (h.put new place).load other = if other = place then some new else h.load other := by
  cases place with
  | pointer p =>
    cases other with
    | member a j => rw [if_neg (by simp)]; rfl
    | pointer q =>
      obtain ⟨inside, -⟩ := List.getElem?_eq_some_iff.mp (Option.join_eq_some_iff.mp there)
      simp only [put, load, List.getElem?_set, Place.pointer.injEq, eq_comm (a := q)]
      split
      next => simp
      next => rfl
  | member o i =>
    cases other with
    | pointer q => rw [if_neg (by simp)]; rfl
    | member a j =>
      simp only [load_member, put, members?_setMember, Place.member.injEq]
      rw [load_member, Option.bind_eq_some_iff] at there
      obtain ⟨members, here, found⟩ := there
      obtain ⟨inside, -⟩ := List.getElem?_eq_some_iff.mp found
      by_cases same : a = o
      · subst same
        simp only [here, if_true, true_and, Option.map_some, Option.bind_some, List.getElem?_set, eq_comm (a := j)]
        split
        next same => subst same; simp
        next => rfl
      · simp [same]

theorem total_put (there : h.load place = some old) (new : Option Nat) (a : Nat) :
    total (h.put new place).objects (h.put new place).outside a + old.toList.count a =
      total h.objects h.outside a + new.toList.count a := by
  cases place with
  | pointer p =>
    have changed := count_flatMap_set (fun pointer : Option (Option Nat) => pointer.join.toList)
      (Option.join_eq_some_iff.mp there) (some new) a
    simp only [Option.join_some] at changed
    simp only [total, put, outside]
    omega
  | member o i =>
    obtain ⟨object, here, found⟩ := load_place there
    have changed := total_set here (some (object.setMember i new)) h.outside a
    have members := count_flatMap_set Option.toList found new a
    rw [← setMember_eq here] at changed
    simp only [slotTargets, targets, Option.map_some, Option.getD_some, Object.setMember] at changed
    simp only [put, outside] at changed ⊢
    omega

theorem counted_put (there : h.load place = some old) (new : Option Nat) (extra : List Nat) :
    Counted (h.put new place).objects (old.toList ++ (extra ++ (h.put new place).outside)) ↔
      Counted h.objects (new.toList ++ (extra ++ h.outside)) := by
  refine forall_congr' fun a => ?_
  rw [refCount?_put]
  have same : total (h.put new place).objects (old.toList ++ (extra ++ (h.put new place).outside)) a =
      total h.objects (new.toList ++ (extra ++ h.outside)) a := by
    have changed := total_put there new a
    simp only [total_append]
    omega
  rw [same]

theorem put_put (h : Heap) (old new : Option Nat) (place : Place) :
    (h.put old place).put new place = h.put new place := by
  cases place with
  | pointer p => simp [put]
  | member o i =>
    simp only [put, Heap.mk.injEq, and_true]
    refine List.ext_getElem? fun a => ?_
    simp only [setMember, List.getElem?_modify]
    split
    · cases h.objects[a]? with
      | none => rfl
      | some slot => cases slot <;> simp [Object.setMember]
    · simp

theorem put_load (there : h.load place = some old) : h.put old place = h := by
  cases place with
  | pointer p =>
    have same := (List.getElem?_eq_some_iff.mp (Option.join_eq_some_iff.mp there)).2
    simp [put, ← same]
  | member o i =>
    obtain ⟨object, here, found⟩ := load_place there
    have same := (List.getElem?_eq_some_iff.mp found).2
    have unchanged : object.setMember i old = object := by simp [Object.setMember, ← same]
    have place := (List.getElem?_eq_some_iff.mp here).2
    simp [put, setMember_eq here, unchanged, ← place]

theorem store_ok (there : h.load place = some old) (new : Option Nat) :
    h.store place new = .ok (h.put new place) := by
  rw [store, there]

/-- The objects that stay alive without the pointer at this place. -/
def Keeps (h : Heap) (place : Place) (o : Nat) : Prop :=
  Supported (graph (h.put none place).objects) (h.put none place).outside o

/-- The heap without one of its pointers, and with some more that are not in it yet. -/
structure Without (h : Heap) (place : Place) (extra : List Nat) (after : Heap) : Prop where
  counted : Counted after.objects (extra ++ after.outside)
  pointers : after.pointers = (h.put none place).pointers
  left : Left after.objects (h.put none place).objects
  there : after.load place = some none
  alive_iff : ∀ o, (members? after.objects o).isSome ↔
    Supported (graph (h.put none place).objects) (extra ++ (h.put none place).outside) o

theorem Without.load_some (without : Without h place extra after) :
    after.load other = some target ↔ (h.put none place).load other = some target ∧
      ∀ o, other.owner? = some o → (members? after.objects o).isSome := by
  cases other with
  | pointer p =>
    simp only [load, without.pointers, Place.owner?]
    simp
  | member o i =>
    simp only [load_member, Place.owner?, Option.some.injEq, forall_eq', Option.bind_eq_some_iff]
    constructor
    · rintro ⟨members, here, found⟩
      exact ⟨⟨members, without.left o members here, found⟩, by rw [here]; rfl⟩
    · rintro ⟨⟨members, before, found⟩, alive⟩
      obtain ⟨members', here⟩ := Option.isSome_iff_exists.mp alive
      obtain rfl := Option.some.inj (before.symm.trans (without.left o members' here))
      exact ⟨members, here, found⟩

/-- The place of a pointer is not deleted with what it pointed to. -/
theorem owner_supported (extra : List Nat)
    (reached : ∀ o, place.owner? = some o → Reaches (graph h.objects) (extra ++ h.outside) o)
    (owner : place.owner? = some o) :
    Supported (graph (h.put none place).objects) (extra ++ (h.put none place).outside) o := by
  cases place with
  | pointer p => cases owner
  | member a i =>
    obtain rfl := Option.some.inj owner
    refine .inl (Reaches.around (fun b other => ?_) (reached a rfl))
    rw [graph, graph, put, members?_setMember, if_neg other]

theorem assignObject_ok (extra : List Nat) (counted : Counted h.objects (extra ++ h.outside))
    (there : h.load place = some old)
    (owner : ∀ o, place.owner? = some o →
      Supported (graph (h.put none place).objects) (extra ++ (h.put none place).outside) o) (new : Option Nat) :
    ∃ after, h.assignObject place new = .ok (after.put new place) ∧ Without h place extra after := by
  have cleared := (counted_put there none extra).mpr counted
  obtain ⟨final, removal, left⟩ := cleared.removal
  have alive := removal.alive_iff cleared left
  have stays : ∀ o, place.owner? = some o → (members? final o).isSome :=
    fun o mine => (alive o).mpr (owner o mine)
  let after : Heap := ⟨final, (h.put none place).pointers⟩
  have emptied : (h.put none place).load place = some none := by rw [load_put there, if_pos rfl]
  have here : after.load place = some none := by
    cases place with
    | pointer p => exact emptied
    | member o i =>
      obtain ⟨members, living⟩ := Option.isSome_iff_exists.mp (stays o rfl)
      rw [load_member, removal.left o members living] at emptied
      rw [load_member, living]
      exact emptied
  refine ⟨after, ?_, left, rfl, removal.left, here, alive⟩
  have actual : Removal h.objects old.toList (after.put old place).objects ∧
      (after.put old place).pointers = h.pointers := by
    have whole : (h.put none place).put old place = h := by rw [put_put, put_load there]
    cases place with
    | pointer p =>
      have pointers : ((h.put none (.pointer p)).put old (.pointer p)).pointers = h.pointers :=
        congrArg Heap.pointers whole
      exact ⟨removal, pointers⟩
    | member o i =>
      refine ⟨?_, rfl⟩
      have framed := removal.setMember (stays o rfl) i old
      rwa [show setMember (h.put none (.member o i)).objects o i old = h.objects from congrArg Heap.objects whole]
        at framed
  have removed : h.removeReference old = .ok (after.put old place) := by
    rw [Heap.removeReference, actual.1.option]
    exact congrArg Except.ok (congrArg₂ Heap.mk rfl actual.2.symm)
  have stored := store_ok (h := after.put old place) (by rw [load_put here, if_pos rfl]) new
  rw [assignObject, there]
  simp only [removed, bind, Except.bind]
  rw [stored, put_put]

def Fine (result : Except Misuse Heap) : Prop := ∃ next, result = .ok next ∧ next.Sound

theorem addReference_some (there : h.objects[o]? = some (some object)) : h.addReference (some o) =
    .ok { h with objects := h.objects.set o (some { object with refCount := object.refCount + 1 }) } := by
  simp [Heap.addReference, Platform.addReference, there, bind, Except.bind]

theorem addReference_ok {n : Nat → Nat} (counts : ∀ o, refCount? h.objects o = expected (n o))
    (more : ∀ o, total h.objects h.outside o = n o + target.toList.count o)
    (alive : ∀ o, target = some o → 0 < n o) : Fine (h.addReference target) := by
  cases target with
  | none =>
    refine ⟨h, rfl, fun o => ?_⟩
    rw [counts, more, Option.toList_none, List.count_nil, Nat.add_zero]
  | some o =>
    have count := counts o
    obtain ⟨object, there, same⟩ := refCount?_some.mp (count.trans (expected_some.mpr ⟨alive o rfl, rfl⟩))
    refine ⟨_, addReference_some there, fun a => ?_⟩
    have now := more a
    rw [refCount?, place_set there, total_recount there]
    change _ = expected (total h.objects h.outside a)
    rw [now]
    split
    next same' =>
      subst same'
      rw [Option.toList_some, List.count_singleton_self, Option.join_some, Option.map_some, eq_comm, expected_some]
      dsimp only
      omega
    next other =>
      rw [Option.toList_some, List.count_singleton, if_neg (by simpa using Ne.symm other), Nat.add_zero]
      exact counts a

theorem addReference_deleted (gone : refCount? h.objects o = none) : h.addReference (some o) = .error .deleted := by
  have lost : Platform.addReference h.objects (some o) = .error .deleted := by
    rw [Platform.addReference]
    split
    next object place => simp [refCount?, place] at gone
    next => rfl
  rw [Heap.addReference, lost]
  rfl

theorem addReference_frame (h : Heap) (target : Option Nat) : h.addReference target = .error .deleted ∨
    ∃ next, h.addReference target = .ok next ∧ next.pointers = h.pointers ∧
      members? next.objects = members? h.objects := by
  cases target with
  | none => exact .inr ⟨h, rfl, rfl, rfl⟩
  | some o =>
    cases count : refCount? h.objects o with
    | none => exact .inl (addReference_deleted count)
    | some count' =>
      obtain ⟨object, there, -⟩ := refCount?_some.mp count
      exact .inr ⟨_, addReference_some there, rfl, members?_recount there (object.refCount + 1)⟩

theorem load_congr (pointers : next.pointers = h.pointers) (members : members? next.objects = members? h.objects)
    (place : Place) : next.load place = h.load place := by
  cases place with
  | pointer p => rw [load, load, pointers]
  | member o i => rw [load_member, load_member, members]

theorem addReference_loads (fine : Fine (h.addReference target)) :
    ∃ next, h.addReference target = .ok next ∧ next.Sound ∧ ∀ place, next.load place = h.load place := by
  obtain ⟨next, added, sound⟩ := fine
  rcases addReference_frame h target with failed | ⟨_, same, pointers, members⟩
  · cases failed.symm.trans added
  · cases same.symm.trans added
    exact ⟨next, added, sound, load_congr pointers members⟩

theorem load_alive (there : h.load place = some old) (owner : place.owner? = some o) :
    (members? h.objects o).isSome := by
  cases place with
  | pointer p => cases owner
  | member a i =>
    obtain rfl := Option.some.inj owner
    rw [load_member, Option.bind_eq_some_iff] at there
    obtain ⟨members, here, -⟩ := there
    rw [here]
    rfl

theorem load_pointed (there : h.load place = some (some o)) : 0 < total h.objects h.outside o := by
  have counts := total_put there none o
  rw [Option.toList_some, List.count_singleton_self] at counts
  simp only [Option.toList_none, List.count_nil] at counts
  omega

/-- One of two pointers with the same target becomes null. -/
theorem assignObject_shared (sound : h.Sound) (there : h.load place = some target) (also : h.load other = some target)
    (apart : place ≠ other) : Fine (h.assignObject other none) := by
  cases target with
  | none =>
    have same : h.assignObject other none = .ok h := by
      rw [assignObject, also]
      exact (store_ok also none).trans (congrArg Except.ok (put_load also))
    exact ⟨h, same, sound⟩
  | some o =>
    have cleared : Counted (h.put none other).objects (o :: (h.put none other).outside) :=
      (counted_put also none []).mpr sound
    have pointed : 0 < total (h.put none other).objects (h.put none other).outside o := by
      have still : (h.put none other).load place = some (some o) := by
        rw [load_put also, if_neg apart]
        exact there
      exact load_pointed still
    obtain ⟨object, here, count⟩ := cleared.found (o := o) (by rw [total, List.count_cons_self]; omega)
    rw [total, List.count_cons_self] at count
    rw [total] at pointed
    have less := cleared.less here (by omega)
    have emptied : (h.put none other).load other = some none := by rw [load_put also, if_pos rfl]
    obtain ⟨after, assigned, without⟩ := assignObject_ok [] sound also (fun owner mine => by
      rw [← graph_recount here, List.nil_append, ← less.supported_iff, members?_recount here]
      exact load_alive emptied mine) none
    exact ⟨_, assigned, by rw [put_load without.there]; exact without.counted⟩

theorem load_reached (reached : ∀ o, place.owner? = some o → Reaches (graph h.objects) h.outside o)
    (there : h.load place = some (some o)) : Reaches (graph h.objects) h.outside o := by
  cases place with
  | pointer p =>
    have member := List.mem_of_getElem? (Option.join_eq_some_iff.mp there)
    exact ⟨o, List.mem_flatMap.mpr ⟨_, member, List.mem_singleton.mpr rfl⟩, .refl⟩
  | member a i =>
    obtain ⟨r, root, path⟩ := reached a rfl
    obtain ⟨object, here, found⟩ := load_place there
    have members : graph h.objects a = some (targets object.members) :=
      graph_some.mpr ⟨_, members?_some.mpr ⟨object, here, rfl⟩, rfl⟩
    have refers : o ∈ targets object.members :=
      List.mem_flatMap.mpr ⟨_, List.mem_of_getElem? found, List.mem_singleton.mpr rfl⟩
    exact ⟨r, root, path.tail ⟨_, members, refers⟩⟩

theorem follow_reached {found : Place} {members : List Nat} (place : Place)
    (reached : ∀ o, place.owner? = some o → Reaches (graph h.objects) h.outside o)
    (followed : h.follow place members = some found) :
    ∀ o, found.owner? = some o → Reaches (graph h.objects) h.outside o := by
  induction members generalizing place with
  | nil =>
    obtain rfl := Option.some.inj followed
    exact reached
  | cons i rest ih =>
    rw [follow] at followed
    split at followed
    next a there =>
      refine ih (.member a i) (fun b owner => ?_) followed
      obtain rfl := Option.some.inj owner
      exact load_reached reached there
    next => cases followed

/-- The places of a program are reached from its pointers. -/
theorem locate_some {path : Path} (located : h.locate path = some (place, target)) : h.load place = some target ∧
    ∀ o, place.owner? = some o → Reaches (graph h.objects) h.outside o := by
  rw [locate, Option.bind_eq_bind, Option.bind_eq_some_iff] at located
  obtain ⟨found, followed, loaded⟩ := located
  obtain ⟨value, there, same⟩ := Option.bind_eq_some_iff.mp loaded
  obtain ⟨rfl, rfl⟩ := Prod.mk.inj (Option.some.inj same)
  exact ⟨there, follow_reached (.pointer path.pointer) (by simp [Place.owner?]) followed⟩

theorem sound_of_totals (counted : Counted after.objects after.outside)
    (counts : refCount? next.objects = refCount? after.objects)
    (same : ∀ o, total next.objects next.outside o = total after.objects after.outside o) : next.Sound := by
  intro o
  rw [counts, same]
  exact counted o

theorem total_construct (h : Heap) (target : Option Nat) (o : Nat) :
    total (h.construct target).objects (h.construct target).outside o =
      total h.objects h.outside o + target.toList.count o := by
  have more : (h.construct target).outside = h.outside ++ target.toList := by simp [outside, construct]
  rw [more]
  simp only [total, construct, List.count_append]
  omega

theorem load_construct (there : h.load place = some old) (new : Option Nat) :
    (h.construct new).load place = some old ∧ (h.construct new).load (.pointer h.pointers.length) = some new ∧
      Place.pointer h.pointers.length ≠ place := by
  refine ⟨?_, by simp [load, construct], ?_⟩
  · cases place with
    | member o i => exact there
    | pointer p =>
      obtain ⟨inside, -⟩ := List.getElem?_eq_some_iff.mp (Option.join_eq_some_iff.mp there)
      rw [load, construct, List.getElem?_append_left inside]
      exact there
  · rintro rfl
    simp [load] at there

theorem fine_default (sound : h.Sound) : Fine (h.step .default) := by
  refine ⟨h.construct none, rfl, sound_of_totals sound rfl fun o => ?_⟩
  rw [total_construct]
  rfl

theorem fine_copy (sound : h.Sound) (source : Path) : Fine (h.step (.copy source)) := by
  cases located : h.locate source with
  | none => exact ⟨h, by simp only [step, located], sound⟩
  | some found =>
    obtain ⟨other, target⟩ := found
    have there := (locate_some located).1
    simp only [step, located]
    refine addReference_ok (h := h.construct target) sound (total_construct h target) ?_
    rintro o rfl
    exact load_pointed there

theorem fine_move (sound : h.Sound) (source : Path) : Fine (h.step (.move source)) := by
  cases located : h.locate source with
  | none => exact ⟨h, by simp only [step, located], sound⟩
  | some found =>
    obtain ⟨other, target⟩ := found
    have there := (load_construct (locate_some located).1 target).1
    simp only [step, located]
    refine ⟨_, store_ok there none, sound_of_totals sound (refCount?_put _ none other) fun o => ?_⟩
    have moved := total_put there none o
    have more := total_construct h target o
    simp only [Option.toList_none, List.count_nil] at moved
    omega

theorem fine_moveConverting (sound : h.Sound) (source : Path) : Fine (h.step (.moveConverting source)) := by
  cases located : h.locate source with
  | none => exact ⟨h, by simp only [step, located], sound⟩
  | some found =>
    obtain ⟨other, target⟩ := found
    have there := (locate_some located).1
    obtain ⟨still, here, apart⟩ := load_construct there target
    obtain ⟨next, added, sound', loads⟩ := addReference_loads (addReference_ok (h := h.construct target) sound
      (total_construct h target) (by rintro o rfl; exact load_pointed there))
    obtain ⟨last, moved, sound''⟩ :=
      assignObject_shared sound' ((loads _).trans here) ((loads _).trans still) apart
    refine ⟨last, ?_, sound''⟩
    simp only [step, located, added, bind, Except.bind]
    exact moved

theorem counted_newObject (sound : h.Sound) (members : Nat) :
    Counted (h.newObject members).1.objects ([h.objects.length] ++ (h.newObject members).1.outside) := by
  have fresh : total h.objects h.outside h.objects.length = 0 := by
    have count := sound h.objects.length
    rw [refCount?, List.getElem?_eq_none (Nat.le_refl _)] at count
    have none := isSome_expected (n := total h.objects h.outside h.objects.length)
    rw [← count] at none
    simp at none
    exact none
  have totals (o : Nat) :
      total (h.newObject members).1.objects ([h.objects.length] ++ (h.newObject members).1.outside) o =
        [h.objects.length].count o + total h.objects h.outside o := by
    rw [total_append]
    have nulls : (List.replicate members (none : Option Nat)).flatMap Option.toList = [] := by simp
    simp [total, newObject, held, slotTargets, targets, outside, nulls]
  intro o
  rw [totals]
  by_cases new : o = h.objects.length
  · subst new
    rw [fresh, List.count_singleton_self]
    simp [refCount?, newObject, expected]
  · rw [List.count_singleton, if_neg (by simpa using Ne.symm new), Nat.zero_add, ← sound o]
    rcases Nat.lt_or_gt_of_ne new with before | behind
    · rw [refCount?, refCount?, newObject, List.getElem?_append_left before]
    · rw [refCount?, refCount?, newObject, List.getElem?_eq_none (by simp; omega), List.getElem?_eq_none (by omega)]

theorem fine_raw (sound : h.Sound) (members : Nat) : Fine (h.step (.raw members)) := by
  refine ⟨_, rfl, fun o => ?_⟩
  have counted := counted_newObject sound members o
  rw [total_construct]
  rw [total_append, Nat.add_comm] at counted
  exact counted

theorem assignObject_located (sound : h.Sound) {path : Path} (located : h.locate path = some (place, old))
    (new : Option Nat) :
    ∃ after, h.assignObject place new = .ok (after.put new place) ∧ Without h place [] after := by
  obtain ⟨there, reached⟩ := locate_some located
  exact assignObject_ok [] sound there (fun o owner => owner_supported [] reached owner) new

/-- The new target was counted before. -/
theorem Without.sound (without : Without h place new.toList after) : (after.put new place).Sound := by
  have counted := (counted_put without.there new []).mpr
  rw [List.nil_append, List.nil_append, Option.toList_none, List.nil_append] at counted
  exact counted without.counted

theorem fine_null (sound : h.Sound) {target : Path} (located : h.locate target = some (place, old)) :
    Fine (h.assignObject place none) := by
  obtain ⟨after, assigned, without⟩ := assignObject_located sound located none
  exact ⟨_, assigned, without.sound⟩

theorem fine_rawAssign (sound : h.Sound) (target : Path) (members : Nat) :
    Fine (h.step (.rawAssign target members)) := by
  cases located : h.locate target with
  | none => exact ⟨h, by simp only [step, located], sound⟩
  | some found =>
    obtain ⟨place, old⟩ := found
    obtain ⟨there, reached⟩ := locate_some located
    have kept (o : Nat) (members' : List (Option Nat)) (here : members? h.objects o = some members') :
        members? (h.newObject members).1.objects o = some members' := by
      obtain ⟨object, place, rfl⟩ := members?_some.mp here
      obtain ⟨inside, -⟩ := List.getElem?_eq_some_iff.mp place
      exact members?_some.mpr ⟨object, (List.getElem?_append_left inside).trans place, rfl⟩
    have still : (h.newObject members).1.load place = some old := by
      cases place with
      | pointer p => exact there
      | member o i =>
        rw [load_member, Option.bind_eq_some_iff] at there ⊢
        obtain ⟨members', here, found⟩ := there
        exact ⟨members', kept o members' here, found⟩
    obtain ⟨after, assigned, without⟩ := assignObject_ok [_] (counted_newObject sound members) still
      (fun o owner => owner_supported [_] (fun a mine => (reached a mine).mono (Left.graph kept)
        fun r root => List.mem_append_right _ root) owner) (some h.objects.length)
    exact ⟨_, by simp only [step, located]; exact assigned, without.sound⟩

theorem fine_destroy (sound : h.Sound) (p : Nat) : Fine (h.step (.destroy p)) := by
  cases there : h.load (.pointer p) with
  | none => exact ⟨h, by simp only [step, there], sound⟩
  | some old =>
    obtain ⟨final, removal, counted⟩ := ((counted_put there none []).mpr sound).removal
    have gone : (h.put none (.pointer p)).outside = outside ⟨final, h.pointers.set p none⟩ := by
      simp [outside, put, List.flatMap_def, List.map_set]
    rw [gone] at counted
    refine ⟨⟨final, h.pointers.set p none⟩, ?_, counted⟩
    have actual : Removal h.objects old.toList final := removal
    simp only [step, there, Heap.removeReference, actual.option, bind, Except.bind]

/-- An object must not go with the old target of an assignment: neither the new target, which
is counted only after that, nor the object whose member is moved from. -/
def Allowed (h : Heap) : Operation → Prop
  | .copyAssign target source => ∀ place old other o, h.locate target = some (place, old) →
      h.locate source = some (other, some o) → h.Keeps place o
  | .moveAssign target source | .moveAssignConverting target source => ∀ place old other new o,
      h.locate target = some (place, old) → h.locate source = some (other, new) → other.owner? = some o →
      h.Keeps place o
  | _ => True

theorem fine_copyAssign (sound : h.Sound) {target source : Path} (allowed : h.Allowed (.copyAssign target source)) :
    Fine (h.step (.copyAssign target source)) := by
  cases located : h.locate target with
  | none => exact ⟨h, by simp only [step, located], sound⟩
  | some found =>
    cases read : h.locate source with
    | none => exact ⟨h, by simp only [step, located, read], sound⟩
    | some found' =>
      obtain ⟨place, old⟩ := found
      obtain ⟨other, new⟩ := found'
      obtain ⟨after, assigned, without⟩ := assignObject_located sound located new
      simp only [step, located, read, assigned, bind, Except.bind]
      refine addReference_ok (n := total after.objects after.outside) (fun o => ?_) (fun o => ?_) ?_
      · rw [refCount?_put]
        exact without.counted o
      · exact total_put without.there new o
      · rintro o rfl
        exact (without.counted.alive_iff o).mp ((without.alive_iff o).mpr (allowed place old other o located read))

theorem copyAssign_deleted (sound : h.Sound) {target source : Path}
    (refused : ¬h.Allowed (.copyAssign target source)) : h.step (.copyAssign target source) = .error .deleted := by
  simp only [Allowed, not_forall] at refused
  obtain ⟨place, old, other, o, located, read, unsupported⟩ := refused
  obtain ⟨after, assigned, without⟩ := assignObject_located sound located (some o)
  have gone : refCount? (after.put (some o) place).objects o = none := by
    rw [refCount?_put, ← Option.not_isSome_iff_eq_none, ← isSome_members?, without.alive_iff]
    exact unsupported
  simp only [step, located, read, assigned, bind, Except.bind]
  exact addReference_deleted gone

/-- Where a move finds the pointer that it moves from. -/
theorem Without.load_other (without : Without h place [] after) (there : h.load place = some old)
    (reads : h.load other = some new) (kept : ∀ o, other.owner? = some o → h.Keeps place o) :
    (after.put new place).load other = some new := by
  rw [load_put without.there]
  split
  next => rfl
  next apart =>
    rw [without.load_some, load_put there, if_neg apart]
    exact ⟨reads, fun o owner => (without.alive_iff o).mpr (kept o owner)⟩

theorem Without.load_gone (without : Without h place [] after)
    (reached : ∀ o, place.owner? = some o → Reaches (graph h.objects) h.outside o)
    (owner : other.owner? = some o) (unsupported : ¬h.Keeps place o) (new : Option Nat) :
    place ≠ other ∧ (after.put new place).load other = none := by
  have apart : place ≠ other := by
    rintro rfl
    exact unsupported (owner_supported [] reached owner)
  refine ⟨apart, ?_⟩
  rw [load_put without.there, if_neg (Ne.symm apart), Option.eq_none_iff_forall_ne_some]
  intro value there
  exact unsupported ((without.alive_iff o).mp ((without.load_some.mp there).2 o owner))

theorem fine_moveAssign (sound : h.Sound) {target source : Path} (allowed : h.Allowed (.moveAssign target source)) :
    Fine (h.step (.moveAssign target source)) := by
  cases located : h.locate target with
  | none => exact ⟨h, by simp only [step, located], sound⟩
  | some found =>
    cases read : h.locate source with
    | none => exact ⟨h, by simp only [step, located, read], sound⟩
    | some found' =>
      obtain ⟨place, old⟩ := found
      obtain ⟨other, new⟩ := found'
      obtain ⟨after, assigned, without⟩ := assignObject_located sound located new
      have here := without.load_other (locate_some located).1 (locate_some read).1
        fun o owner => allowed place old other new o located read owner
      simp only [step, located, read, assigned, bind, Except.bind]
      refine ⟨_, store_ok here none, sound_of_totals without.counted ?_ fun o => ?_⟩
      · rw [refCount?_put, refCount?_put]
      · have first := total_put without.there new o
        have second := total_put here none o
        simp only [Option.toList_none, List.count_nil] at first second
        omega

theorem fine_moveAssignConverting (sound : h.Sound) {target source : Path}
    (allowed : h.Allowed (.moveAssignConverting target source)) :
    Fine (h.step (.moveAssignConverting target source)) := by
  cases located : h.locate target with
  | none => exact ⟨h, by simp only [step, located], sound⟩
  | some found =>
    cases read : h.locate source with
    | none => exact ⟨h, by simp only [step, located, read], sound⟩
    | some found' =>
      obtain ⟨place, old⟩ := found
      obtain ⟨other, new⟩ := found'
      by_cases apart : place = other
      · exact ⟨h, by simp only [step, located, read, apart, if_true], sound⟩
      obtain ⟨after, assigned, without⟩ := assignObject_located sound located new
      have here := without.load_other (locate_some located).1 (locate_some read).1
        fun o owner => allowed place old other new o located read owner
      have pointed : ∀ o, new = some o → 0 < total after.objects after.outside o := by
        rintro o rfl
        rw [load_put without.there, if_neg (Ne.symm apart)] at here
        exact load_pointed here
      obtain ⟨next, added, sound', loads⟩ := addReference_loads (addReference_ok (h := after.put new place)
        (fun o => by rw [refCount?_put]; exact without.counted o) (total_put without.there new) pointed)
      obtain ⟨last, moved, sound''⟩ := assignObject_shared sound'
        ((loads place).trans (by rw [load_put without.there, if_pos rfl])) ((loads other).trans here) apart
      refine ⟨last, ?_, sound''⟩
      simp only [step, located, read, apart, if_false, assigned, added, bind, Except.bind]
      exact moved

theorem moveAssign_deleted (sound : h.Sound) {target source : Path}
    (refused : ¬h.Allowed (.moveAssign target source)) : h.step (.moveAssign target source) = .error .deleted ∧
      h.step (.moveAssignConverting target source) = .error .deleted := by
  simp only [Allowed, not_forall] at refused
  obtain ⟨place, old, other, new, o, located, read, owner, unsupported⟩ := refused
  obtain ⟨after, assigned, without⟩ := assignObject_located sound located new
  obtain ⟨apart, gone⟩ := without.load_gone (locate_some located).2 owner unsupported new
  constructor
  · simp only [step, located, read, assigned, bind, Except.bind, store, gone]
  · simp only [step, located, read, apart, if_false, assigned, bind, Except.bind]
    rcases addReference_frame (after.put new place) new with failed | ⟨next, added, pointers, members⟩
    · rw [failed]
    · rw [added]
      simp only [assignObject, load_congr pointers members, gone]

theorem fine_step (sound : h.Sound) (operation : Operation) (allowed : h.Allowed operation) :
    Fine (h.step operation) := by
  cases operation with
  | default => exact fine_default sound
  | raw members => exact fine_raw sound members
  | copy source => exact fine_copy sound source
  | move source => exact fine_move sound source
  | moveConverting source => exact fine_moveConverting sound source
  | copyAssign target source => exact fine_copyAssign sound allowed
  | moveAssign target source => exact fine_moveAssign sound allowed
  | moveAssignConverting target source => exact fine_moveAssignConverting sound allowed
  | rawAssign target members => exact fine_rawAssign sound target members
  | nullAssign target =>
    cases located : h.locate target with
    | none => exact ⟨h, by simp only [step, located], sound⟩
    | some found => simpa only [step, located] using fine_null sound located
  | destroy p => exact fine_destroy sound p

theorem step_deleted (sound : h.Sound) {operation : Operation} (refused : ¬h.Allowed operation) :
    h.step operation = .error .deleted := by
  cases operation with
  | copyAssign target source => exact copyAssign_deleted sound refused
  | moveAssign target source => exact (moveAssign_deleted sound refused).1
  | moveAssignConverting target source => exact (moveAssign_deleted sound refused).2
  | _ => exact (refused trivial).elim

theorem step_ok_iff (sound : h.Sound) (operation : Operation) :
    (∃ next, h.step operation = .ok next) ↔ h.Allowed operation := by
  constructor
  · rintro ⟨next, ok⟩
    by_contra refused
    cases ok.symm.trans (step_deleted sound refused)
  · intro allowed
    obtain ⟨next, ok, -⟩ := fine_step sound operation allowed
    exact ⟨next, ok⟩

theorem step_error (sound : h.Sound) {operation : Operation} (failed : h.step operation = .error misuse) :
    misuse = .deleted := by
  have refused : ¬h.Allowed operation := by
    intro allowed
    obtain ⟨next, ok, -⟩ := fine_step sound operation allowed
    cases ok.symm.trans failed
  cases failed.symm.trans (step_deleted sound refused)
  rfl

theorem step_sound (sound : h.Sound) {operation : Operation} (ok : h.step operation = .ok next) : next.Sound := by
  obtain ⟨other, fine, sound'⟩ := fine_step sound operation ((step_ok_iff sound operation).mp ⟨next, ok⟩)
  cases fine.symm.trans ok
  exact sound'

theorem sound_empty : Sound {} := fun _ => rfl

theorem run_sound (ended : run operations = .ok h) : h.Sound :=
  Machine.foldlM_invariant Sound (fun _ _ _ sound ok => step_sound sound ok) sound_empty operations ended

end Heap

-- The holder of the second object goes with its only pointer, before its member is made null.
example : Heap.run [.raw 1, .raw 0, .copyAssign { pointer := 0, members := [0] } { pointer := 1 },
    .moveAssign { pointer := 0 } { pointer := 0, members := [0] }] = .error .deleted := rfl

-- An object with a pointer to itself outlives its last pointer from outside.
example : Heap.run [.raw 1, .copyAssign { pointer := 0, members := [0] } { pointer := 0 }, .destroy 0] =
    .ok ⟨[some ⟨1, [some 0]⟩], [none]⟩ := rfl

end WebTransport.Platform

import WebTransport.Theory.Machine
import Mathlib.Data.List.Basic

/-! Families of machines. An input drives one member, and the reactions of the application
may drive others from within. What one member does is a run of its own machine on the
inputs that it sees. -/
namespace Family

open Machine

variable {S E O : Type}

def own (j : Nat) (items : List (Nat × O)) : List O :=
  items.filterMap fun item => if item.1 = j then some item.2 else none

@[simp] theorem own_nil (j : Nat) : own j ([] : List (Nat × O)) = [] := rfl

@[simp] theorem own_append (j : Nat) (first second : List (Nat × O)) :
    own j (first ++ second) = own j first ++ own j second := List.filterMap_append

theorem own_cons (j : Nat) (item : Nat × O) (rest : List (Nat × O)) :
    own j (item :: rest) = (if item.1 = j then [item.2] else []) ++ own j rest := by
  by_cases mine : item.1 = j <;> simp [own, mine]

theorem own_tagged (i j : Nat) (items : List O) : own j (items.map (i, ·)) = if i = j then items else [] := by
  by_cases mine : i = j <;> simp [own, mine, List.filterMap_map]

/-- A reaction of one member, if there is such a member. -/
def act (i : Nat) (react : S → S × List O) (members : List S) : List S × List (Nat × O) :=
  match members[i]? with
  | some s => (members.set i (react s).1, (react s).2.map (i, ·))
  | none => (members, [])

/-- The same reaction of a member that may not be there. -/
def lift (react : S → S × List O) : Option S → Option S × List O
  | some s => (some (react s).1, (react s).2)
  | none => (none, [])

@[simp] theorem lift_some (react : S → S × List O) (s : S) : lift react (some s) = (some (react s).1, (react s).2) := rfl
@[simp] theorem lift_none (react : S → S × List O) : lift react none = (none, []) := rfl

def view (j : Nat) (result : List S × List (Nat × O)) : Option S × List O := (result.1[j]?, own j result.2)

theorem view_act (i j : Nat) (react : S → S × List O) (members : List S) : view j (act i react members) =
    if i = j then lift react members[j]? else (members[j]?, []) := by
  cases found : members[i]? with
  | none =>
    by_cases mine : i = j
    · subst mine
      simp [view, act, found]
    · simp [view, act, found, mine]
  | some s =>
    have inside := (List.getElem?_eq_some_iff.mp found).1
    by_cases mine : i = j
    · subst mine
      simp [view, act, own_tagged, inside]
    · simp [view, act, found, own_tagged, mine]

theorem act_getElem? (i j : Nat) (react : S → S × List O) (members : List S) :
    (act i react members).1[j]? = if i = j then (lift react members[j]?).1 else members[j]? := by
  have both := congrArg Prod.fst (view_act i j react members)
  rw [apply_ite Prod.fst] at both
  exact both

theorem own_act (i j : Nat) (react : S → S × List O) (members : List S) :
    own j (act i react members).2 = if i = j then (lift react members[j]?).2 else [] := by
  have both := congrArg Prod.snd (view_act i j react members)
  rw [apply_ite Prod.snd] at both
  exact both

theorem length_act (i : Nat) (react : S → S × List O) (members : List S) :
    (act i react members).1.length = members.length := by
  unfold act
  split <;> simp

section

variable {S E O T F P : Type} (step : S → E → S × List O)

/-- What a part sees of a run, when it sees some inputs of its own at each step. -/
def seen (sees : S → E → List F) : S → List E → List F
  | _, [] => []
  | s, input :: rest => sees s input ++ seen sees (step s input).1 rest

/-- What is seen may depend on the inputs alone. -/
theorem seen_flatMap (sees : E → List F) (s : S) (inputs : List E) :
    seen step (fun _ => sees) s inputs = inputs.flatMap sees := by
  induction inputs generalizing s with
  | nil => rfl
  | cons input rest ih => rw [seen, ih, List.flatMap_cons]

/-- Where each step looks to the part like a run on what it sees, so does the whole run. -/
theorem run_seen (part : S → T) (share : List O → List P) (alone : T → F → T × List P) (sees : S → E → List F)
    (nothing : share [] = []) (joins : ∀ first second, share (first ++ second) = share first ++ share second)
    (projects : ∀ s input, (part (step s input).1, share (step s input).2) = run alone (part s) (sees s input))
    (s : S) (inputs : List E) :
    (part (run step s inputs).1, share (run step s inputs).2) = run alone (part s) (seen step sees s inputs) := by
  induction inputs generalizing s with
  | nil => simp [seen, nothing]
  | cons input rest ih =>
    have now := projects s input
    have later := ih (step s input).1
    rw [seen, run_append, ← now, ← later, run_cons, joins]

end

section

variable (step : S → E → S × List O)

def stepAt (members : List S) (input : Nat × E) : List S × List (Nat × O) :=
  act input.1 (fun s => step s input.2) members

theorem run_lift (s : Option S) (inputs : List E) :
    run (fun s input => lift (fun s => step s input) s) s inputs = lift (fun s => run step s inputs) s := by
  induction inputs generalizing s with
  | nil => cases s <;> rfl
  | cons input rest ih =>
    rw [run_cons, ih]
    cases s <;> rfl

/-- Each member runs on its own inputs. -/
theorem view_run (j : Nat) (members : List S) (inputs : List (Nat × E)) :
    view j (run (stepAt step) members inputs) = lift (fun s => run step s (own j inputs)) members[j]? := by
  have projects (members : List S) (input : Nat × E) : view j (stepAt step members input) =
      run (fun s input => lift (fun s => step s input) s) members[j]? (own j [input]) := by
    rw [stepAt, view_act]
    by_cases mine : input.1 = j
    · simp [own, mine, run_cons]
    · simp [own, mine]
  have whole := run_seen (stepAt step) (fun members => members[j]?) (own j) _ _ rfl (own_append j) projects members inputs
  have separate : inputs.flatMap (fun input => own j [input]) = own j inputs := by
    rw [own, List.filterMap_eq_flatMap_toList]
    refine List.flatMap_congr fun input _ => ?_
    by_cases mine : input.1 = j <;> simp [own, mine]
  rw [seen_flatMap, separate, run_lift] at whole
  exact whole

theorem length_run (members : List S) (inputs : List (Nat × E)) :
    (run (stepAt step) members inputs).1.length = members.length :=
  run_invariant (fun others : List S => others.length = members.length)
    (fun others input same => (length_act input.1 _ others).trans same) rfl inputs

end

end Family

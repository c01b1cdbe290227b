import WebTransport.Theory.Machine

/-! Assembly of items into groups: each group ends with the first item that says so.
`gather` does it one item at a time, `Grouped` says what the result is. -/
namespace Grouping

variable {α : Type} (ends : α → Bool)

def gather (opened : List α) (item : α) : List α × List (List α) :=
  if ends item then ([], [opened ++ [item]]) else (opened ++ [item], [])

/-- Nothing but the last item ends the group. -/
def Complete (group : List α) : Prop :=
  ∃ front last, group = front ++ [last] ∧ (∀ item ∈ front, ends item = false) ∧ ends last = true

structure Grouped (items : List α) (groups : List (List α)) (opened : List α) : Prop where
  joined : groups.flatten ++ opened = items
  complete : ∀ group ∈ groups, Complete ends group
  unended : ∀ item ∈ opened, ends item = false

variable {ends}

theorem Grouped.empty : Grouped ends [] [] [] := ⟨rfl, by simp, by simp⟩

theorem Grouped.gather (h : Grouped ends items groups opened) (item : α) :
    Grouped ends (items ++ [item]) (groups ++ (gather ends opened item).2) (gather ends opened item).1 := by
  unfold Grouping.gather
  split
  · rename_i last
    refine ⟨by simp [← h.joined], ?_, by simp⟩
    rw [List.forall_mem_append, List.forall_mem_singleton]
    exact ⟨h.complete, opened, item, rfl, h.unended, last⟩
  · rename_i more
    refine ⟨by simp [← h.joined], by simpa using h.complete, ?_⟩
    rw [List.forall_mem_append, List.forall_mem_singleton]
    exact ⟨h.unended, by simpa using more⟩

theorem run_grouped (h : Grouped ends items groups opened) (more : List α) :
    Grouped ends (items ++ more) (groups ++ (Machine.run (Grouping.gather ends) opened more).2)
      (Machine.run (Grouping.gather ends) opened more).1 := by
  induction more generalizing items groups opened with
  | nil => simpa using h
  | cons item rest ih =>
    rw [Machine.run_cons, ← List.append_assoc, ← List.singleton_append, ← List.append_assoc]
    exact ih (h.gather item)

theorem run_quiet (opened items : List α) (quiet : ∀ item ∈ items, ends item = false) :
    Machine.run (Grouping.gather ends) opened items = (opened ++ items, []) := by
  induction items generalizing opened with
  | nil => simp
  | cons item rest ih =>
    obtain ⟨first, others⟩ := List.forall_mem_cons.mp quiet
    rw [Machine.run_cons]
    simp only [Grouping.gather, first, Bool.false_eq_true, if_false, ih (opened ++ [item]) others]
    simp

theorem run_complete (opened : List α) (complete : Complete ends group) :
    Machine.run (Grouping.gather ends) opened group = ([], [opened ++ group]) := by
  obtain ⟨front, last, rfl, quiet, marked⟩ := complete
  rw [Machine.run_concat, run_quiet opened front quiet]
  simp [Grouping.gather, marked]

/-- There is only one such division, and `gather` finds it. -/
theorem run_eq_iff (items : List α) : Machine.run (Grouping.gather ends) [] items = (opened, groups) ↔
    Grouped ends items groups opened := by
  constructor
  · intro run
    simpa [run] using run_grouped (.empty : Grouped ends [] [] []) items
  · rintro ⟨rfl, complete, unended⟩
    induction groups with
    | nil => simpa using run_quiet [] opened unended
    | cons group rest ih =>
      obtain ⟨first, others⟩ := List.forall_mem_cons.mp complete
      rw [List.flatten_cons, List.append_assoc, Machine.run_append, run_complete [] first, ih others]
      rfl

end Grouping

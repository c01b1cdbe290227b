import WebTransport.Theory.Loop

/-! Cutting a buffer into bounded fragments. The loop takes `min room remaining` items
per pass and wraps them in a packet that may depend on whether the fragment is the
first and whether it is the last. -/
namespace Fragment

open Loop

variable {α β : Type}

structure Cursor (α β : Type) where
  first : Bool
  remaining : List α
  packets : List β

def pass (room : Nat) (packet : Bool → Bool → List α → β) (s : Cursor α β) :
    Except Fault (Pass (Cursor α β) (List β)) :=
  if 0 < s.remaining.length then
    let size := min room s.remaining.length
    .ok (.again ⟨false, s.remaining.drop size,
      s.packets ++ [packet s.first (s.remaining.length == size) (s.remaining.take size)]⟩)
  else .ok (.leave s.packets)

/-- The whole loop. One pass per item and a final test are enough when a pass
advances at all. -/
def cut (room : Nat) (packet : Bool → Bool → List α → β) (data : List α) : Except Fault (List β) :=
  loop (pass room packet) (data.length + 1) ⟨true, data, []⟩

def decorate (packet : Bool → Bool → List α → β) (first : Bool) (fragments : List (List α)) :
    List β :=
  fragments.mapIdx fun i fragment => packet (first && i == 0) (i + 1 == fragments.length) fragment

variable {packet : Bool → Bool → List α → β} {room : Nat} {data : List α} {first : Bool}
  {fragments : List (List α)}

theorem pass_some {s : Cursor α β} (some : s.remaining ≠ []) :
    pass room packet s = .ok (.again ⟨false, s.remaining.drop (min room s.remaining.length),
      s.packets ++ [packet s.first (s.remaining.length == min room s.remaining.length)
        (s.remaining.take (min room s.remaining.length))]⟩) := by
  simp only [pass, List.length_pos_iff.mpr some, if_true]

theorem pass_empty {s : Cursor α β} (empty : s.remaining = []) :
    pass room packet s = .ok (.leave s.packets) := by simp [pass, empty]

@[simp] theorem decorate_nil (first : Bool) : decorate packet first [] = [] := rfl

@[simp] theorem decorate_cons (first : Bool) (fragment : List α) (rest : List (List α)) :
    decorate packet first (fragment :: rest) =
      packet first rest.isEmpty fragment :: decorate packet false rest := by
  cases rest with
  | nil => simp [decorate]
  | cons next rest => simp [decorate, List.mapIdx_cons]

@[simp] theorem length_decorate (first : Bool) (fragments : List (List α)) :
    (decorate packet first fragments).length = fragments.length := by simp [decorate]

theorem getElem?_decorate (first : Bool) (fragments : List (List α)) (i : Nat) :
    (decorate packet first fragments)[i]? = fragments[i]?.map fun fragment =>
      packet (first && i == 0) (i + 1 == fragments.length) fragment := by
  simp [decorate, List.getElem?_mapIdx]

theorem mem_decorate (member : wrapped ∈ decorate packet first fragments) :
    ∃ fragment ∈ fragments, ∃ isFirst isLast, wrapped = packet isFirst isLast fragment := by
  obtain ⟨i, inside⟩ := List.mem_iff_getElem?.mp member
  rw [getElem?_decorate, Option.map_eq_some_iff] at inside
  obtain ⟨fragment, found, rfl⟩ := inside
  exact ⟨fragment, List.mem_of_getElem? found, _, _, rfl⟩

/-- What the loop may produce from `data`: nonempty fragments of at most `room` items
that join to it. -/
structure Splits (room : Nat) (data : List α) (fragments : List (List α)) : Prop where
  joined : fragments.flatten = data
  bounded : ∀ fragment ∈ fragments, fragment ≠ [] ∧ fragment.length ≤ room

theorem Splits.ne_nil (splits : Splits room data fragments) (nonempty : data ≠ []) :
    fragments ≠ [] := by
  rintro rfl
  exact nonempty (by simpa using splits.joined.symm)

/-- Nothing is left to split exactly when the fragment before took everything. -/
theorem Splits.isEmpty_iff (splits : Splits room (data.drop size) fragments) (part : size ≤ data.length) :
    (data.length == size) = fragments.isEmpty := by
  have joined := congrArg List.length splits.joined
  rw [List.length_drop] at joined
  rw [Bool.eq_iff_iff, beq_iff_eq, List.isEmpty_iff]
  constructor
  · intro whole
    by_contra more
    obtain ⟨fragment, member⟩ := List.exists_mem_of_ne_nil _ more
    have filled := List.length_pos_iff.mpr (splits.bounded fragment member).1
    have within := (List.sublist_flatten_of_mem member).length_le
    omega
  · rintro rfl
    simp only [List.flatten_nil, List.length_nil] at joined
    omega

theorem loop_pass (positive : 0 < room) (data : List α) (first : Bool) (packets : List β)
    (enough : data.length < fuel) :
    ∃ fragments, loop (pass room packet) fuel ⟨first, data, packets⟩ =
      .ok (packets ++ decorate packet first fragments) ∧ Splits room data fragments := by
  induction fuel generalizing data first packets with
  | zero => omega
  | succ fuel ih =>
    by_cases empty : data = []
    · subst empty
      exact ⟨[], by rw [loop_leave (pass_empty rfl)]; simp, ⟨rfl, by simp⟩⟩
    · have some : 0 < data.length := List.length_pos_iff.mpr empty
      obtain ⟨fragments, run, splits⟩ := ih (data.drop (min room data.length)) false
        (packets ++ [packet first (data.length == min room data.length)
          (data.take (min room data.length))]) (by simp; omega)
      refine ⟨data.take (min room data.length) :: fragments, ?_, ?_, ?_⟩
      · rw [loop_again (pass_some empty), run]
        have last := splits.isEmpty_iff (Nat.min_le_right room data.length)
        simp [last]
      · simp [splits.joined]
      · intro fragment member
        rcases List.mem_cons.mp member with rfl | member
        · refine ⟨?_, by rw [List.length_take]; omega⟩
          rw [← List.length_pos_iff, List.length_take]
          omega
        · exact splits.bounded fragment member

/-- With room for at least one item the loop ends, and its packets wrap a splitting. -/
theorem cut_ok (positive : 0 < room) (data : List α) :
    ∃ fragments, cut room packet data = .ok (decorate packet true fragments) ∧
      Splits room data fragments := by
  simpa [cut] using loop_pass positive data true [] (Nat.lt_succ_self data.length)

/-- The first fragment takes as much as there is room for. -/
theorem cut_first (positive : 0 < room) (nonempty : data ≠ []) :
    ∃ rest, cut room packet data = .ok (packet true (data.length == min room data.length)
      (data.take (min room data.length)) :: rest) := by
  have some : 0 < data.length := List.length_pos_iff.mpr nonempty
  obtain ⟨fragments, run, -⟩ := loop_pass positive (data.drop (min room data.length)) false
    [packet true (data.length == min room data.length) (data.take (min room data.length))]
    (show (data.drop (min room data.length)).length < data.length by
      rw [List.length_drop]
      omega)
  refine ⟨decorate packet false fragments, ?_⟩
  unfold cut
  rw [loop_again (pass_some nonempty)]
  exact run

/-- Without room the loop sends empty packets for ever. -/
theorem cut_diverges (nonempty : data ≠ []) : ∀ fuel,
    loop (pass 0 packet) fuel ⟨first, data, packets⟩ = .error .diverges := by
  refine loop_diverges (fun s => s.remaining ≠ []) (fun s some => ?_) nonempty
  exact ⟨_, pass_some some, by simpa using some⟩

end Fragment

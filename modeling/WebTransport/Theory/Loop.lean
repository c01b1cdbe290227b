import Mathlib.Tactic.Common

/-! Fallible reads and while loops. A fragment of low-level code is a value of
`Except Fault`: a read or a copy outside its buffer is a fault, and a loop whose
fuel runs out reports that it has not ended. -/
namespace Loop

inductive Fault where
  | outOfBounds (index size : Nat)
  | diverges
  deriving DecidableEq, Repr

/-- `buffer[i]`, defined only inside the buffer. -/
def readAt (buffer : List α) (i : Nat) : Except Fault α :=
  match buffer[i]? with
  | some value => .ok value
  | none => .error (.outOfBounds i buffer.length)

/-- The source operand of a `memcpy` of `size` items from `buffer + offset`. -/
def slice (buffer : List α) (offset size : Nat) : Except Fault (List α) :=
  if offset + size ≤ buffer.length then .ok ((buffer.drop offset).take size)
  else .error (.outOfBounds (offset + size) buffer.length)

@[simp] theorem ok_bind (a : α) (f : α → Except ε β) : (Except.ok a >>= f) = f a := rfl
@[simp] theorem error_bind (e : ε) (f : α → Except ε β) : (Except.error e >>= f) = .error e := rfl
@[simp] theorem pure_eq_ok (a : α) : (pure a : Except ε α) = .ok a := rfl

/-- A sequence that succeeds succeeds in both parts. -/
theorem ok_of_bind {x : Except ε α} {f : α → Except ε β} (h : (x >>= f) = .ok b) :
    ∃ a, x = .ok a ∧ f a = .ok b := by
  cases x with
  | error e => cases h
  | ok a => exact ⟨a, rfl, h⟩

theorem readAt_of_getElem? {buffer : List α} (h : buffer[i]? = some value) :
    readAt buffer i = .ok value := by simp [readAt, h]

@[simp] theorem readAt_of_lt {buffer : List α} (h : i < buffer.length) :
    readAt buffer i = .ok buffer[i] := by simp [readAt, h]

@[simp] theorem readAt_zero (value : α) (rest : List α) : readAt (value :: rest) 0 = .ok value := rfl

theorem readAt_right (front : List α) {back : List α} (found : back[i]? = some value) :
    readAt (front ++ back) (front.length + i) = .ok value :=
  readAt_of_getElem? (by rw [List.getElem?_append_right (by omega), Nat.add_sub_cancel_left, found])

theorem slice_of_le {buffer : List α} (h : offset + size ≤ buffer.length) :
    slice buffer offset size = .ok ((buffer.drop offset).take size) := by simp [slice, h]

/-- A copy of exactly the middle part of a buffer. -/
theorem slice_middle (before middle after : List α) :
    slice (before ++ middle ++ after) before.length middle.length = .ok middle := by
  rw [slice_of_le (by simp)]
  simp

def store (buffer : List α) (offset : Nat) (source : List α) : Except Fault (List α) :=
  if offset + source.length ≤ buffer.length then
    .ok (buffer.take offset ++ source ++ buffer.drop (offset + source.length))
  else .error (.outOfBounds (offset + source.length) buffer.length)

theorem store_behind (written : List α) {source space : List α} (room : source.length ≤ space.length) :
    store (written ++ space) written.length source =
      .ok (written ++ source ++ space.drop source.length) := by
  unfold store
  rw [if_pos (by simpa using room), List.take_left, ← List.drop_drop, List.drop_left]

/-- One pass through a loop body: continue with a new state, or leave with a result. -/
inductive Pass (σ ρ : Type) where
  | again (state : σ)
  | leave (result : ρ)
  deriving DecidableEq, Repr

variable {σ ρ : Type}

/-- `while` with at most `fuel` passes. -/
def loop (body : σ → Except Fault (Pass σ ρ)) : Nat → σ → Except Fault ρ
  | 0, _ => .error .diverges
  | fuel + 1, s => do
    match ← body s with
    | .again next => loop body fuel next
    | .leave result => .ok result

variable {body : σ → Except Fault (Pass σ ρ)}

theorem loop_again (h : body s = .ok (.again next)) :
    loop body (fuel + 1) s = loop body fuel next := by simp [loop, h]

theorem loop_leave (h : body s = .ok (.leave result)) :
    loop body (fuel + 1) s = .ok result := by simp [loop, h]

/-- Total correctness: every pass from the invariant either leaves with the
postcondition or keeps the invariant and decreases the measure. -/
theorem loop_total (Inv : σ → Prop) (Post : ρ → Prop) (measure : σ → Nat)
    (pass : ∀ s, Inv s →
      (∃ next, body s = .ok (.again next) ∧ Inv next ∧ measure next < measure s) ∨
      (∃ result, body s = .ok (.leave result) ∧ Post result))
    (initial : Inv s) (enough : measure s < fuel) :
    ∃ result, loop body fuel s = .ok result ∧ Post result := by
  induction fuel generalizing s with
  | zero => omega
  | succ fuel ih =>
    rcases pass s initial with ⟨next, step, inv, smaller⟩ | ⟨result, step, post⟩
    · rw [loop_again step]
      exact ih inv (by omega)
    · exact ⟨result, loop_leave step, post⟩

/-- A loop whose every pass from the invariant continues never ends, at any fuel. -/
theorem loop_diverges (Inv : σ → Prop)
    (pass : ∀ s, Inv s → ∃ next, body s = .ok (.again next) ∧ Inv next) (initial : Inv s) :
    ∀ fuel, loop body fuel s = .error .diverges := by
  intro fuel
  induction fuel generalizing s with
  | zero => rfl
  | succ fuel ih =>
    obtain ⟨next, step, inv⟩ := pass s initial
    rw [loop_again step]
    exact ih inv

inductive Reached (body : σ → Except Fault (Pass σ ρ)) (start : σ) : σ → Prop
  | entry : Reached body start start
  | again (before : Reached body start s) (pass : body s = .ok (.again next)) : Reached body start next

theorem Reached.invariant (Inv : σ → Prop) (keeps : ∀ s next, Inv s → body s = .ok (.again next) → Inv next)
    (reached : Reached body start s) (initial : Inv start) : Inv s := by
  induction reached with
  | entry => exact initial
  | again _ pass ih => exact keeps _ _ ih pass

/-- The states at the head of the loop in order, up to the one that it stands at. -/
inductive Passed (body : σ → Except Fault (Pass σ ρ)) (start : σ) : List σ → σ → Prop
  | entry : Passed body start [] start
  | again (before : Passed body start passed s) (pass : body s = .ok (.again next)) :
      Passed body start (passed ++ [s]) next

theorem Passed.reached (passed : Passed body start heads s) : Reached body start s := by
  induction passed with
  | entry => exact .entry
  | again _ pass ih => exact .again ih pass

/-- A loop that returns comes to a head from which it leaves. -/
theorem Passed.leaves (before : Passed body start heads s) (run : loop body fuel s = .ok result) :
    ∃ heads last, Passed body start heads last ∧ body last = .ok (.leave result) := by
  induction fuel generalizing heads s with
  | zero => cases run
  | succ fuel ih =>
    obtain ⟨outcome, pass, rest⟩ := ok_of_bind run
    cases outcome with
    | again next => exact ih (.again before pass) rest
    | leave last =>
      cases rest
      exact ⟨heads, s, before, pass⟩

end Loop

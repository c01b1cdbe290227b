import Mathlib.Data.List.Forall2
import Mathlib.Data.List.Induction
import Mathlib.Tactic.Common

/-! Deterministic reactive machines. A step consumes one input and emits a list of
outputs; a run threads the state through finitely many inputs. The rules below turn
facts about one step into facts about every run, and about every prefix of the
emitted trace. -/
namespace Machine

section Total

variable {S E O : Type}

def run (step : S → E → S × List O) : S → List E → S × List O
  | s, [] => (s, [])
  | s, input :: rest =>
    let now := step s input
    let later := run step now.1 rest
    (later.1, now.2 ++ later.2)

variable {step : S → E → S × List O}

@[simp] theorem run_nil (s : S) : run step s [] = (s, []) := rfl

theorem run_cons (s : S) (input : E) (rest : List E) :
    run step s (input :: rest) =
      ((run step (step s input).1 rest).1, (step s input).2 ++ (run step (step s input).1 rest).2) := rfl

theorem run_singleton (s : S) (input : E) : run step s [input] = step s input := by simp [run_cons]

theorem run_append (s : S) (first second : List E) :
    run step s (first ++ second) =
      ((run step (run step s first).1 second).1,
        (run step s first).2 ++ (run step (run step s first).1 second).2) := by
  induction first generalizing s with
  | nil => simp
  | cons input rest ih => simp [run_cons, ih]

/-- A run over the parts of its inputs is a run of runs. -/
theorem run_flatMap {P : Type} (parts : P → List E) (s : S) (inputs : List P) :
    run step s (inputs.flatMap parts) = run (fun s input => run step s (parts input)) s inputs := by
  induction inputs generalizing s with
  | nil => rfl
  | cons input rest ih => rw [List.flatMap_cons, run_append, run_cons, ih]

theorem run_concat (s : S) (inputs : List E) (input : E) :
    run step s (inputs ++ [input]) =
      ((step (run step s inputs).1 input).1,
        (run step s inputs).2 ++ (step (run step s inputs).1 input).2) := by
  simp [run_append, run_cons]

theorem run_invariant (Inv : S → Prop)
    (preserved : ∀ s input, Inv s → Inv (step s input).1)
    (initial : Inv s) (inputs : List E) : Inv (run step s inputs).1 := by
  induction inputs generalizing s with
  | nil => exact initial
  | cons input rest ih => exact ih (preserved s input initial)

/-- An invariant of the state and the trace, from a point where a trace was already
emitted: the runs nested in a step start there. -/
theorem run_trace (Inv : List O → S → Prop)
    (preserved : ∀ trace s input, Inv trace s → Inv (trace ++ (step s input).2) (step s input).1)
    (initial : Inv trace s) (inputs : List E) :
    Inv (trace ++ (run step s inputs).2) (run step s inputs).1 := by
  induction inputs generalizing trace s with
  | nil => simpa using initial
  | cons input rest ih =>
    rw [run_cons, ← List.append_assoc]
    exact ih (preserved trace s input initial)

/-- Where every step moves items from its input into the state and from the state into its
output, in order, a run neither loses nor repeats one. -/
theorem run_conserves {α : Type} (held : S → List α) (taken : E → List α) (given : O → List α)
    (moves : ∀ s input, held s ++ taken input = (step s input).2.flatMap given ++ held (step s input).1)
    (s : S) (inputs : List E) :
    held s ++ inputs.flatMap taken = (run step s inputs).2.flatMap given ++ held (run step s inputs).1 := by
  induction inputs generalizing s with
  | nil => simp
  | cons input rest ih =>
    rw [List.flatMap_cons, ← List.append_assoc, moves, List.append_assoc, ih, run_cons, List.flatMap_append,
      List.append_assoc]

/-- An invariant that also sees the inputs consumed, when the preservation of a step needs
a condition on the step that the whole run is known to meet. The induction is on the
inputs from the right, so a step sees its whole past. -/
theorem run_history_of (Inv : List E → List O → S → Prop) (Allowed : List E → S → E → Prop)
    (preserved : ∀ past trace s input, Inv past trace s → Allowed past s input →
      Inv (past ++ [input]) (trace ++ (step s input).2) (step s input).1)
    (initial : Inv [] [] s) (inputs : List E)
    (allowed : ∀ past input later, inputs = past ++ input :: later →
      Allowed past (run step s past).1 input) :
    Inv inputs (run step s inputs).2 (run step s inputs).1 := by
  induction inputs using List.reverseRecOn with
  | nil => exact initial
  | append_singleton past input ih =>
    rw [run_concat]
    refine preserved past _ _ input (ih ?_) (allowed past input [] rfl)
    intro before i after split
    exact allowed before i (after ++ [input]) (by simp [split])

end Total

section Trace

variable {O : Type}

/-- Every output of a trace is licensed by the outputs before it. -/
def Licensed (ok : List O → O → Prop) (trace : List O) : Prop :=
  ∀ before output after, trace = before ++ output :: after → ok before output

variable {ok : List O → O → Prop}

@[simp] theorem Licensed.nil : Licensed ok [] := by
  intro before output after split
  simp at split

theorem licensed_append : Licensed ok (first ++ second) ↔
    Licensed ok first ∧ Licensed (fun before output => ok (first ++ before) output) second := by
  constructor
  · intro licensed
    refine ⟨fun before output after split => ?_, fun before output after split => ?_⟩
    · exact licensed before output (after ++ second) (by simp [split])
    · exact licensed (first ++ before) output after (by simp [split])
  · rintro ⟨left, right⟩ before output after split
    rcases List.append_eq_append_iff.mp split with ⟨suffix, rfl, tail⟩ | ⟨suffix, rfl, tail⟩
    · exact right suffix output after tail
    · cases suffix with
      | nil => simpa using right [] output after (by simpa using tail.symm)
      | cons o rest =>
        obtain ⟨rfl, rfl⟩ := List.cons.inj tail
        exact left before output rest rfl

theorem licensed_cons : Licensed ok (output :: trace) ↔
    ok [] output ∧ Licensed (fun before o => ok (output :: before) o) trace := by
  rw [← List.singleton_append, licensed_append]
  refine and_congr_left fun _ => ⟨fun h => h [] output [] rfl, fun h before o after split => ?_⟩
  cases before with
  | nil => obtain ⟨rfl, _⟩ := List.cons.inj split; exact h
  | cons b rest => simp at split

@[simp] theorem licensed_singleton : Licensed ok [output] ↔ ok [] output := by
  simp [licensed_cons]

theorem licensed_concat : Licensed ok (trace ++ [output]) ↔ Licensed ok trace ∧ ok trace output := by
  simp [licensed_append]

theorem Licensed.imp {ok' : List O → O → Prop} (weaker : ∀ before o, ok before o → ok' before o)
    (licensed : Licensed ok trace) : Licensed ok' trace :=
  fun before o after split => weaker before o (licensed before o after split)

theorem licensed_congr {ok' : List O → O → Prop}
    (same : Licensed (fun before o => ok before o ↔ ok' before o) trace) :
    Licensed ok trace ↔ Licensed ok' trace :=
  ⟨fun licensed before o after split => (same before o after split).mp (licensed before o after split),
    fun licensed before o after split => (same before o after split).mpr (licensed before o after split)⟩

theorem Licensed.of_forall (free : ∀ output ∈ trace, ∀ before, ok before output) : Licensed ok trace := by
  rintro before output after rfl
  exact free output (by simp) before

theorem licensed_forall {P : O → Prop} : Licensed (fun _ o => P o) trace ↔ ∀ o ∈ trace, P o := by
  constructor
  · intro licensed o member
    obtain ⟨before, after, split⟩ := List.mem_iff_append.mp member
    exact licensed before o after split
  · exact fun all => .of_forall fun o member _ => all o member

/-- Keys are distinct exactly when each output brings new and distinct ones. -/
theorem nodup_flatMap_iff (keys : O → List K) : (trace.flatMap keys).Nodup ↔
    Licensed (fun before o => (keys o).Nodup ∧ ∀ key ∈ keys o, key ∉ before.flatMap keys) trace := by
  induction trace using List.reverseRecOn with
  | nil => simp
  | append_singleton trace o ih =>
    rw [licensed_concat, ← ih, List.flatMap_append, List.flatMap_singleton, List.nodup_append]
    refine and_congr_right fun _ => and_congr_right fun _ => ?_
    constructor
    · intro apart key member before
      exact apart key before key member rfl
    · rintro fresh key before _ member rfl
      exact fresh key member before

/-- An output licensed only when it has not occurred before occurs at most once. -/
theorem Licensed.at_most_once {p : O → Bool}
    (licensed : Licensed (fun before o => p o = true → ∀ b ∈ before, p b = false) trace) :
    (trace.filter p).length ≤ 1 := by
  induction trace using List.reverseRecOn with
  | nil => simp
  | append_singleton trace o ih =>
    obtain ⟨earlier, last⟩ := licensed_concat.mp licensed
    cases hp : p o with
    | false => simpa [List.filter_append, hp] using ih earlier
    | true =>
      have none : trace.filter p = [] := by
        rw [List.filter_eq_nil_iff]
        intro b member
        simp [last hp b member]
      simp [List.filter_append, hp, none]

end Trace

section Exact

variable {S E O : Type} {step : S → E → S × List O} {ok : List O → O → Prop}

theorem run_outputs (P : O → Prop) (emits : ∀ s input, ∀ o ∈ (step s input).2, P o) (s : S)
    (inputs : List E) : ∀ o ∈ (run step s inputs).2, P o := by
  induction inputs generalizing s with
  | nil => simp
  | cons input rest ih =>
    rw [run_cons, List.forall_mem_append]
    exact ⟨emits s input, ih _⟩

/-- Only the inputs that come need to emit such outputs. -/
theorem run_outputs_of {P : O → Prop} (Allowed : E → Prop)
    (emits : ∀ s input, Allowed input → ∀ o ∈ (step s input).2, P o) (s : S) (inputs : List E)
    (allowed : ∀ input ∈ inputs, Allowed input) : ∀ o ∈ (run step s inputs).2, P o := by
  induction inputs generalizing s with
  | nil => simp
  | cons input rest ih =>
    obtain ⟨first, others⟩ := List.forall_mem_cons.mp allowed
    rw [run_cons, List.forall_mem_append]
    exact ⟨emits s input first, ih _ others⟩

/-- The outputs of a run are good exactly when each input is allowed where it arrives, as it is for a step. -/
theorem run_good_iff (Inv : S → Prop) {Good : O → Prop} (Allowed : S → E → Prop)
    (preserved : ∀ s input, Inv s → Inv (step s input).1)
    (exact : ∀ s input, Inv s → ((∀ output ∈ (step s input).2, Good output) ↔ Allowed s input))
    (initial : Inv s) (inputs : List E) :
    (∀ output ∈ (run step s inputs).2, Good output) ↔
      Licensed (fun past input => Allowed (run step s past).1 input) inputs := by
  induction inputs generalizing s with
  | nil => simp
  | cons input rest ih =>
    rw [run_cons, List.forall_mem_append, licensed_cons, exact s input initial, ih (preserved s input initial)]
    rfl

theorem run_forall_iff (Inv : S → Prop) {Good : O → Prop} {Allowed : E → Prop}
    (preserved : ∀ s input, Inv s → Inv (step s input).1)
    (exact : ∀ s input, Inv s → ((∀ output ∈ (step s input).2, Good output) ↔ Allowed input))
    (initial : Inv s) (inputs : List E) :
    (∀ output ∈ (run step s inputs).2, Good output) ↔ ∀ input ∈ inputs, Allowed input :=
  (run_good_iff Inv (fun _ => Allowed) preserved exact initial inputs).trans licensed_forall

/-- When the outputs of a step are licensed exactly on the allowed inputs, the outputs of a
run are licensed exactly when each of its inputs was allowed where it arrived. -/
theorem licensed_run_iff (Inv : List O → S → Prop) (Allowed : S → E → Prop)
    (preserved : ∀ trace s input, Inv trace s → Inv (trace ++ (step s input).2) (step s input).1)
    (exact : ∀ trace s input, Inv trace s →
      (Licensed (fun before o => ok (trace ++ before) o) (step s input).2 ↔ Allowed s input))
    (initial : Inv trace s) (inputs : List E) :
    Licensed (fun before o => ok (trace ++ before) o) (run step s inputs).2 ↔
      Licensed (fun past input => Allowed (run step s past).1 input) inputs := by
  induction inputs generalizing trace s with
  | nil => simp
  | cons input rest ih =>
    rw [run_cons, licensed_append, licensed_cons, exact trace s input initial]
    refine and_congr_right fun _ => ?_
    simpa only [List.append_assoc, run_cons] using ih (preserved trace s input initial)

end Exact

section Fallible

variable {S E O ε : Type}

/-- A run of a machine whose steps can fail; the first failure ends it. Each step
gives one output. -/
def runM (step : S → E → Except ε (S × O)) : S → List E → Except ε (S × List O)
  | s, [] => .ok (s, [])
  | s, input :: rest => do
    let (next, output) ← step s input
    let (final, outputs) ← runM step next rest
    .ok (final, output :: outputs)

variable {step : S → E → Except ε (S × O)}

@[simp] theorem runM_nil (s : S) : runM step s [] = .ok (s, []) := rfl

theorem runM_cons_ok (now : step s input = .ok (next, output))
    (later : runM step next rest = .ok (final, outputs)) :
    runM step s (input :: rest) = .ok (final, output :: outputs) := by
  simp only [runM, now, bind, Except.bind, later]

theorem runM_append_ok (left : runM step s first = .ok (middle, outputs))
    (right : runM step middle second = .ok (final, outputs')) :
    runM step s (first ++ second) = .ok (final, outputs ++ outputs') := by
  induction first generalizing s outputs with
  | nil => cases left; exact right
  | cons input rest ih =>
    cases now : step s input with
    | error e => simp [runM, now, bind, Except.bind] at left
    | ok result =>
      obtain ⟨next, output⟩ := result
      cases tail : runM step next rest with
      | error e => simp [runM, now, tail, bind, Except.bind] at left
      | ok result =>
        obtain ⟨last, more⟩ := result
        simp only [runM, now, tail, bind, Except.bind] at left
        obtain ⟨rfl, rfl⟩ := Prod.mk.inj (Except.ok.inj left)
        exact runM_cons_ok now (ih tail)

theorem length_runM (run : runM step s inputs = .ok (final, outputs)) : outputs.length = inputs.length := by
  induction inputs generalizing s outputs with
  | nil => cases run; rfl
  | cons input rest ih =>
    cases now : step s input with
    | error e => simp [runM, now, bind, Except.bind] at run
    | ok result =>
      obtain ⟨next, output⟩ := result
      cases tail : runM step next rest with
      | error e => simp [runM, now, tail, bind, Except.bind] at run
      | ok result =>
        obtain ⟨last, more⟩ := result
        simp only [runM, now, tail, bind, Except.bind] at run
        obtain ⟨rfl, rfl⟩ := Prod.mk.inj (Except.ok.inj run)
        rw [List.length_cons, ih tail, List.length_cons]

/-- Steps that never fail from an invariant that sees the inputs and the outputs before: no
run fails, and the invariant holds at its end. -/
theorem runM_history (Inv : List E → List O → S → Prop)
    (preserved : ∀ past trace s input, Inv past trace s →
      ∃ next output, step s input = .ok (next, output) ∧ Inv (past ++ [input]) (trace ++ [output]) next)
    (initial : Inv [] [] s) (inputs : List E) :
    ∃ final outputs, runM step s inputs = .ok (final, outputs) ∧ Inv inputs outputs final := by
  induction inputs using List.reverseRecOn with
  | nil => exact ⟨s, [], rfl, initial⟩
  | append_singleton past input ih =>
    obtain ⟨middle, outputs, run, holds⟩ := ih
    obtain ⟨next, output, now, kept⟩ := preserved past outputs middle input holds
    exact ⟨next, outputs ++ [output], runM_append_ok run (runM_cons_ok now (runM_nil _)), kept⟩

/-- A machine without outputs gets through its inputs exactly when each is allowed where it arrives. -/
theorem foldlM_ok_iff {step : S → E → Except ε S} (Inv : S → Prop) (Allowed : S → E → Prop)
    (exact : ∀ s input, Inv s → ((∃ next, step s input = .ok next) ↔ Allowed s input))
    (preserved : ∀ s input next, Inv s → step s input = .ok next → Inv next) (initial : Inv s) (inputs : List E) :
    (∃ final, inputs.foldlM step s = .ok final) ↔
      Licensed (fun past input => ∀ reached, past.foldlM step s = .ok reached → Allowed reached input) inputs := by
  induction inputs generalizing s with
  | nil => exact iff_of_true ⟨s, rfl⟩ .nil
  | cons input rest ih =>
    have first : (∀ reached, [].foldlM step s = .ok reached → Allowed reached input) ↔ Allowed s input := by
      constructor
      · exact fun allowed => allowed s rfl
      · rintro allowed reached ⟨⟩
        exact allowed
    rw [licensed_cons, first, ← exact s input initial, List.foldlM_cons]
    simp only [List.foldlM_cons]
    cases now : step s input with
    | error e => simp [bind, Except.bind]
    | ok next => simpa [bind, Except.bind] using ih (preserved s input next initial now)

theorem foldlM_invariant {step : S → E → Except ε S} (Inv : S → Prop)
    (preserved : ∀ s input next, Inv s → step s input = .ok next → Inv next) (initial : Inv s) (inputs : List E)
    (ended : inputs.foldlM step s = .ok final) : Inv final := by
  induction inputs generalizing s with
  | nil => cases ended; exact initial
  | cons input rest ih =>
    rw [List.foldlM_cons] at ended
    cases now : step s input with
    | error e => simp [now, bind, Except.bind] at ended
    | ok next => exact ih (preserved s input next initial now) (by simpa [now, bind, Except.bind] using ended)

theorem foldlM_failure {step : S → E → Except ε S} (Inv : S → Prop) (Failure : ε → Prop)
    (preserved : ∀ s input next, Inv s → step s input = .ok next → Inv next)
    (fails : ∀ s input e, Inv s → step s input = .error e → Failure e) (initial : Inv s) (inputs : List E)
    (failed : inputs.foldlM step s = .error e) : Failure e := by
  induction inputs generalizing s with
  | nil => cases failed
  | cons input rest ih =>
    rw [List.foldlM_cons] at failed
    cases now : step s input with
    | error e' =>
      rw [now] at failed
      cases failed
      exact fails s input e initial now
    | ok next => exact ih (preserved s input next initial now) (by simpa [now, bind, Except.bind] using failed)

/-- A part of the state that each step folds its output into. -/
theorem runM_fold {V : Type} (view : S → V) (fold : V → O → V)
    (keeps : ∀ s input next output, step s input = .ok (next, output) → view next = fold (view s) output)
    (run : runM step s inputs = .ok (final, outputs)) : view final = outputs.foldl fold (view s) := by
  induction inputs generalizing s outputs with
  | nil => cases run; rfl
  | cons input rest ih =>
    cases now : step s input with
    | error e => simp [runM, now, bind, Except.bind] at run
    | ok result =>
      obtain ⟨next, output⟩ := result
      cases tail : runM step next rest with
      | error e => simp [runM, now, tail, bind, Except.bind] at run
      | ok result =>
        obtain ⟨last, more⟩ := result
        simp only [runM, now, tail, bind, Except.bind] at run
        obtain ⟨rfl, rfl⟩ := Prod.mk.inj (Except.ok.inj run)
        rw [List.foldl_cons, ← keeps s input next output now]
        exact ih tail

/-- A property of the outputs that depends on the inputs alone, one step at a time. -/
theorem runM_forall_iff {Good : O → Prop} {Allowed : E → Prop}
    (exact : ∀ s input, (∃ next output, step s input = .ok (next, output) ∧ Good output) ↔ Allowed input)
    (s : S) (inputs : List E) :
    (∃ final outputs, runM step s inputs = .ok (final, outputs) ∧ ∀ output ∈ outputs, Good output) ↔
      ∀ input ∈ inputs, Allowed input := by
  induction inputs generalizing s with
  | nil => simp
  | cons input rest ih =>
    rw [List.forall_mem_cons, ← exact s input]
    constructor
    · rintro ⟨final, outputs, run, good⟩
      cases now : step s input with
      | error e => simp [runM, now, bind, Except.bind] at run
      | ok result =>
        obtain ⟨next, output⟩ := result
        cases tail : runM step next rest with
        | error e => simp [runM, now, tail, bind, Except.bind] at run
        | ok result =>
          obtain ⟨last, more⟩ := result
          simp only [runM, now, tail, bind, Except.bind] at run
          obtain ⟨rfl, rfl⟩ := Prod.mk.inj (Except.ok.inj run)
          obtain ⟨head, others⟩ := List.forall_mem_cons.mp good
          exact ⟨⟨next, output, rfl, head⟩, (ih next).mp ⟨_, _, tail, others⟩⟩
    · rintro ⟨⟨next, output, now, head⟩, others⟩
      obtain ⟨final, outputs, tail, good⟩ := (ih next).mpr others
      exact ⟨final, output :: outputs, runM_cons_ok now tail, List.forall_mem_cons.mpr ⟨head, good⟩⟩

/-- A total machine with a view onto the states of a fallible one. If each step emits what
stands for the outputs of the fallible step, so does each run. -/
theorem runM_tracks {T G P : Type} (view : T → S) (step : S → E → Except ε (S × List P))
    (ghost : T → E → T × List G) {Stands : G → List P → Prop} {Allowed : E → Prop}
    (tracks : ∀ t input, Allowed input → ∃ groups, List.Forall₂ Stands (ghost t input).2 groups ∧
      step (view t) input = .ok (view (ghost t input).1, groups.flatten))
    (t : T) (inputs : List E) (allowed : ∀ input ∈ inputs, Allowed input) :
    ∃ outputs groups, runM step (view t) inputs = .ok (view (run ghost t inputs).1, outputs) ∧
      List.Forall₂ Stands (run ghost t inputs).2 groups ∧ outputs.flatten = groups.flatten := by
  induction inputs generalizing t with
  | nil => exact ⟨[], [], rfl, .nil, rfl⟩
  | cons input rest ih =>
    obtain ⟨first, others⟩ := List.forall_mem_cons.mp allowed
    obtain ⟨groups, stands, now⟩ := tracks t input first
    obtain ⟨outputs, more, later, stands', same⟩ := ih (ghost t input).1 others
    refine ⟨_, groups ++ more, runM_cons_ok now later, List.rel_append stands stands', ?_⟩
    rw [List.flatten_cons, List.flatten_append, same]

end Fallible

end Machine

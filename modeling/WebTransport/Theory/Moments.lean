import WebTransport.Theory.Machine

/-! What holds at every moment of a run. A law that every step either keeps or breaks holds
at every moment exactly when each step keeps it where it is taken; for a conservation law
the step condition is conservation itself. -/
namespace Machine

variable {S E O : Type} {step : S → E → S × List O}

/-- After each of the inputs, and before the first. -/
def Always (step : S → E → S × List O) (s : S) (inputs : List E) (Good : List E → List O → S → Prop) :
    Prop :=
  ∀ past later, inputs = past ++ later → Good past (run step s past).2 (run step s past).1

variable {Good : List E → List O → S → Prop}

theorem always_nil : Always step s [] Good ↔ Good [] [] s := by
  constructor
  · intro always
    exact always [] [] rfl
  · intro good past later split
    obtain ⟨rfl, rfl⟩ := List.append_eq_nil_iff.mp split.symm
    exact good

theorem always_concat : Always step s (inputs ++ [input]) Good ↔
    Always step s inputs Good ∧
      Good (inputs ++ [input]) (run step s (inputs ++ [input])).2 (run step s (inputs ++ [input])).1 := by
  constructor
  · intro always
    refine ⟨?_, always _ [] (by simp)⟩
    intro past later split
    exact always past (later ++ [input]) (by simp [split])
  · rintro ⟨before, last⟩ past later split
    rcases List.eq_nil_or_concat later with rfl | ⟨front, final, rfl⟩
    · rw [List.append_nil] at split
      exact split ▸ last
    · rw [List.concat_eq_append, ← List.append_assoc] at split
      obtain ⟨rfl, -⟩ := List.append_inj' split rfl
      exact before past front rfl

theorem Always.last (always : Always step s inputs Good) : Good inputs (run step s inputs).2 (run step s inputs).1 :=
  always inputs [] (List.append_nil _).symm

/-- Where `Inv` holds anyway, `Good` holds at every moment exactly when every input is
allowed where it arrives. The induction is on the inputs from the right. -/
theorem always_iff (Inv : List E → List O → S → Prop) (Allowed : List E → S → E → Prop)
    (preserved : ∀ past trace now input, Inv past trace now →
      Inv (past ++ [input]) (trace ++ (step now input).2) (step now input).1)
    (exact : ∀ past trace now input, Inv past trace now → Good past trace now →
      (Good (past ++ [input]) (trace ++ (step now input).2) (step now input).1 ↔ Allowed past now input))
    (initial : Inv [] [] s) (good : Good [] [] s) (inputs : List E) :
    Always step s inputs Good ↔
      Licensed (fun past input => Allowed past (run step s past).1 input) inputs := by
  have holds : ∀ past, Inv past (run step s past).2 (run step s past).1 := fun past =>
    run_history_of Inv (fun _ _ _ => True) (fun past trace now input inv _ => preserved past trace now input inv)
      initial past fun _ _ _ _ => trivial
  induction inputs using List.reverseRecOn with
  | nil => simpa [always_nil] using good
  | append_singleton inputs input ih =>
    rw [always_concat, licensed_concat]
    refine (and_congr_right fun always => ?_).trans (and_congr_left fun _ => ih)
    rw [run_concat]
    exact exact _ _ _ _ (holds inputs) always.last

section Conservation

variable {α : Type} (contents : S → List α) (enters : E → List α) (leaves : O → List α)

/-- What is in the machine and what enters it are what leaves it and what stays, in order. -/
def Conserves (step : S → E → S × List O) (now : S) (input : E) : Prop :=
  contents now ++ enters input = (step now input).2.flatMap leaves ++ contents (step now input).1

/-- At every moment what has left, followed by what is still inside, is what has entered,
exactly when every step conserves. -/
theorem conservation_iff (s : S) (inputs : List E) :
    Always step s inputs (fun past trace now =>
        trace.flatMap leaves ++ contents now = contents s ++ past.flatMap enters) ↔
      Licensed (fun past input => Conserves contents enters leaves step (run step s past).1 input) inputs := by
  apply always_iff (fun _ _ _ => True) (fun _ => Conserves contents enters leaves step)
  · exact fun _ _ _ _ _ => trivial
  · intro past trace now input _ good
    rw [List.flatMap_append, List.flatMap_append, List.flatMap_singleton, ← List.append_assoc (contents s), ← good,
      List.append_assoc, List.append_assoc, List.append_cancel_left_eq]
    exact eq_comm
  · trivial
  · simp

end Conservation

section Total

variable {ε : Type} {stepM : S → E → Except ε (S × O)} {next : S → E → S × O}

def single (next : S → E → S × O) (s : S) (input : E) : S × List O :=
  ((next s input).1, [(next s input).2])

@[simp] theorem single_apply (next : S → E → S × O) (s : S) (input : E) :
    single next s input = ((next s input).1, [(next s input).2]) := rfl

theorem runM_eq (succeeds : ∀ s input, stepM s input = .ok (next s input)) (s : S) (inputs : List E) :
    runM stepM s inputs = .ok (run (single next) s inputs) := by
  induction inputs generalizing s with
  | nil => rfl
  | cons input rest ih => exact runM_cons_ok (succeeds s input) (ih _)

theorem runM_exists_iff (succeeds : ∀ s input, stepM s input = .ok (next s input)) (s : S) (inputs : List E)
    (P : List O → S → Prop) :
    (∃ final outputs, runM stepM s inputs = .ok (final, outputs) ∧ P outputs final) ↔
      P (run (single next) s inputs).2 (run (single next) s inputs).1 := by
  rw [runM_eq succeeds]
  constructor
  · rintro ⟨final, outputs, run, holds⟩
    obtain ⟨rfl, rfl⟩ := Prod.mk.inj (Except.ok.inj run)
    exact holds
  · intro holds
    exact ⟨_, _, rfl, holds⟩

theorem always_runM_iff (succeeds : ∀ s input, stepM s input = .ok (next s input)) (s : S) (inputs : List E) :
    (∀ past later, inputs = past ++ later →
        ∃ final outputs, runM stepM s past = .ok (final, outputs) ∧ Good past outputs final) ↔
      Always (single next) s inputs Good :=
  forall_congr' fun past => forall_congr' fun _ => imp_congr_right fun _ => runM_exists_iff succeeds s past (Good past)

theorem licensed_runM_iff {Allowed : List E → S → E → Prop}
    (succeeds : ∀ s input, stepM s input = .ok (next s input)) (s : S) (inputs : List E) :
    (∀ past input later, inputs = past ++ input :: later →
        ∃ final outputs, runM stepM s past = .ok (final, outputs) ∧ Allowed past final input) ↔
      Licensed (fun past input => Allowed past (run (single next) s past).1 input) inputs :=
  forall_congr' fun past => forall_congr' fun input => forall_congr' fun _ => imp_congr_right fun _ =>
    runM_exists_iff succeeds s past fun _ final => Allowed past final input

end Total

end Machine

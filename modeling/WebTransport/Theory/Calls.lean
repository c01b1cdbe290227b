import Mathlib.Tactic.Common

/-! Programs that call a library whose code is not at hand. A question is one call with
its arguments and the library may answer it in any way, also differently each time.
`Yields` relates a program to the complete logs of calls it can make and to its result;
`run` fixes the library. -/
namespace Calls

/-- A program as the calls it makes and how it goes on after each answer. -/
inductive Program (Question : Type) (Answer : Question → Type) (α : Type) where
  | pure (value : α)
  | ask (question : Question) (next : Answer question → Program Question Answer α)

abbrev Call {Question : Type} (Answer : Question → Type) : Type := (question : Question) × Answer question

variable {Question : Type} {Answer : Question → Type} {α β : Type}

namespace Program

def bind (program : Program Question Answer α) (rest : α → Program Question Answer β) :
    Program Question Answer β :=
  match program with
  | .pure value => rest value
  | .ask question next => .ask question (fun answer => (next answer).bind rest)

instance : Monad (Program Question Answer) where
  pure := .pure
  bind := bind

def call (question : Question) : Program Question Answer (Answer question) := .ask question .pure

/-- The program can make exactly these calls, get these answers and return `result`. -/
def Yields : Program Question Answer α → List (Call Answer) → α → Prop
  | .pure value, log, result => log = [] ∧ value = result
  | .ask question next, log, result =>
    ∃ answer later, log = ⟨question, answer⟩ :: later ∧ (next answer).Yields later result

variable {log : List (Call Answer)} {result : α}

@[simp] theorem yields_pure {value : α} :
    (Pure.pure value : Program Question Answer α).Yields log result ↔ log = [] ∧ value = result := Iff.rfl

@[simp] theorem yields_call {question : Question} {answer : Answer question} :
    (call question).Yields log answer ↔ log = [⟨question, answer⟩] := by
  constructor
  · rintro ⟨answer, later, rfl, rfl, rfl⟩
    rfl
  · rintro rfl
    exact ⟨answer, [], rfl, rfl, rfl⟩

/-- The log of a sequence is the log of its first part followed by the log of the rest. -/
theorem yields_bind {program : Program Question Answer α} {rest : α → Program Question Answer β} {result : β} :
    (program >>= rest).Yields log result ↔
      ∃ first value later, log = first ++ later ∧ program.Yields first value ∧ (rest value).Yields later result := by
  change (program.bind rest).Yields log result ↔ _
  induction program generalizing log with
  | pure value =>
    constructor
    · intro yields
      exact ⟨[], value, log, rfl, ⟨rfl, rfl⟩, yields⟩
    · rintro ⟨_, _, later, rfl, ⟨rfl, rfl⟩, yields⟩
      exact yields
  | ask question next ih =>
    constructor
    · rintro ⟨answer, tail, rfl, yields⟩
      obtain ⟨first, value, later, rfl, now, after⟩ := (ih answer).mp yields
      exact ⟨_ :: first, value, later, rfl, ⟨answer, first, rfl, now⟩, after⟩
    · rintro ⟨_, value, later, rfl, ⟨answer, first, rfl, now⟩, after⟩
      exact ⟨answer, first ++ later, rfl, (ih answer).mpr ⟨first, value, later, rfl, now, after⟩⟩

/-- A call whose answer the rest of the program depends on. -/
@[simp] theorem yields_call_bind {question : Question} {rest : Answer question → Program Question Answer β}
    {result : β} :
    (call question >>= rest).Yields log result ↔
      ∃ answer later, log = ⟨question, answer⟩ :: later ∧ (rest answer).Yields later result := Iff.rfl

theorem Yields.bind {program : Program Question Answer α} {rest : α → Program Question Answer β}
    {now later : List (Call Answer)} {value : α} {result : β} (first : program.Yields now value)
    (after : (rest value).Yields later result) : (program >>= rest).Yields (now ++ later) result :=
  yields_bind.mpr ⟨now, value, later, rfl, first, after⟩

theorem Yields.call {question : Question} {rest : Answer question → Program Question Answer β}
    {later : List (Call Answer)} {result : β} (answer : Answer question)
    (after : (rest answer).Yields later result) :
    (call question >>= rest).Yields (⟨question, answer⟩ :: later) result :=
  ⟨answer, later, rfl, after⟩

/-- A library answers each question in view of everything it was asked before. -/
abbrev Library {Question : Type} (Answer : Question → Type) : Type :=
  List (Call Answer) → (question : Question) → Answer question

variable {library : Library Answer}

/-- The result against one library and the calls made, from a given history on. -/
def run (library : Library Answer) : List (Call Answer) → Program Question Answer α → α × List (Call Answer)
  | _, .pure value => (value, [])
  | past, .ask question next =>
    let now : Call Answer := ⟨question, library past question⟩
    let later := run library (past ++ [now]) (next now.2)
    (later.1, now :: later.2)

end Program

def Answered (library : Program.Library Answer) : List (Call Answer) → List (Call Answer) → Prop
  | _, [] => True
  | past, now :: later => now.2 = library past now.1 ∧ Answered library (past ++ [now]) later

variable {library : Program.Library Answer}

/-- A run makes one of the program's logs, with the library's own answers in it. -/
theorem Program.run_iff {program : Program Question Answer α} {past log : List (Call Answer)} {result : α} :
    program.run library past = (result, log) ↔ program.Yields log result ∧ Answered library past log := by
  induction program generalizing past log with
  | pure value =>
    constructor
    · intro ran
      obtain ⟨rfl, rfl⟩ := Prod.mk.inj ran
      exact ⟨⟨rfl, rfl⟩, trivial⟩
    · rintro ⟨⟨rfl, rfl⟩, -⟩
      rfl
  | ask question next ih =>
    constructor
    · intro ran
      obtain ⟨rfl, rfl⟩ := Prod.mk.inj ran
      obtain ⟨yields, answered⟩ := (ih _).mp (Eq.refl (run library _ (next (library past question))))
      exact ⟨⟨_, _, rfl, yields⟩, rfl, answered⟩
    · rintro ⟨⟨answer, later, rfl, yields⟩, agrees, answered⟩
      change answer = library past question at agrees
      subst agrees
      have rest := (ih _).mpr ⟨yields, answered⟩
      simp only [run, rest]

/-- The result of a run is one the program yields on a log the library agrees with. -/
theorem Program.run_result_iff {program : Program Question Answer α} {past : List (Call Answer)} {result : α} :
    (program.run library past).1 = result ↔ ∃ log, Answered library past log ∧ program.Yields log result := by
  constructor
  · rintro rfl
    obtain ⟨yields, answered⟩ := run_iff.mp (Eq.refl (program.run library past))
    exact ⟨_, answered, yields⟩
  · rintro ⟨log, answered, yields⟩
    rw [run_iff.mpr ⟨yields, answered⟩]

/-- What every answer of the library has, every call of an answered log has. -/
theorem Answered.forall {Good : Call Answer → Prop} (good : ∀ past question, Good ⟨question, library past question⟩)
    {past log : List (Call Answer)} (answered : Answered library past log) : ∀ call ∈ log, Good call := by
  induction log generalizing past with
  | nil => simp
  | cons now later ih =>
    obtain ⟨agrees, rest⟩ := answered
    intro call member
    rcases List.mem_cons.mp member with rfl | member
    · have this := good past call.1
      rwa [← agrees] at this
    · exact ih rest call member

end Calls

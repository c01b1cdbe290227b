import WebTransport.Theory.Calls
import Mathlib.Algebra.Order.Group.Multiset
import Mathlib.Data.Multiset.AddSub
import Mathlib.Tactic.Abel

/-! Ownership of handles in programs that call a library. A call uses handles, takes over
some of those that the program holds and hands out others. `Manages` is a specification of a
program by what it holds before and after; what it does not mention is framed. -/
namespace Ownership

open Calls

variable {Question : Type} {Answer : Question → Type} {Handle : Type}

structure Discipline (Answer : Question → Type) (Handle : Type) where
  uses : Question → List Handle
  releases : Question → List Handle
  acquires : (question : Question) → Answer question → List Handle

namespace Discipline

variable (d : Discipline Answer Handle)

def touches (question : Question) : List Handle := d.uses question ++ d.releases question

def released (log : List (Call Answer)) : List Handle := log.flatMap fun call => d.releases call.1

def acquired (log : List (Call Answer)) : List Handle := log.flatMap fun call => d.acquires call.1 call.2

def Step (held : Multiset Handle) (call : Call Answer) (after : Multiset Handle) : Prop :=
  (∀ handle ∈ d.uses call.1, handle ∈ held) ∧
    ∃ rest, held = rest + d.releases call.1 ∧ after = rest + d.acquires call.1 call.2

def Runs : Multiset Handle → List (Call Answer) → Multiset Handle → Prop
  | held, [], after => held = after
  | held, call :: later, after => ∃ next, d.Step held call next ∧ Runs next later after

/-- Whatever the answers are, from the handles `held` on the program only touches what it holds,
and ends with what is given for its result. -/
def Manages (held : Multiset Handle) (program : Program Question Answer α) (after : α → Multiset Handle) : Prop :=
  ∀ log result, program.Yields log result → d.Runs held log (after result)

variable {d} {held after others : Multiset Handle} {c : Call Answer} {log first later : List (Call Answer)}

theorem Step.frame (step : d.Step held c after) (others : Multiset Handle) :
    d.Step (held + others) c (after + others) := by
  obtain ⟨used, rest, rfl, rfl⟩ := step
  refine ⟨fun handle member => Multiset.mem_add.mpr (.inl (used handle member)), rest + others, ?_, ?_⟩
  · abel
  · abel

theorem Runs.frame (runs : d.Runs held log after) (others : Multiset Handle) :
    d.Runs (held + others) log (after + others) := by
  induction log generalizing held with
  | nil => exact congrArg (· + others) runs
  | cons c later ih =>
    obtain ⟨next, step, rest⟩ := runs
    exact ⟨next + others, step.frame others, ih rest⟩

theorem runs_append : d.Runs held (first ++ later) after ↔
    ∃ middle, d.Runs held first middle ∧ d.Runs middle later after := by
  induction first generalizing held with
  | nil => exact ⟨fun runs => ⟨held, rfl, runs⟩, fun ⟨_, same, runs⟩ => same ▸ runs⟩
  | cons c rest ih =>
    constructor
    · rintro ⟨next, step, runs⟩
      obtain ⟨middle, now, after⟩ := ih.mp runs
      exact ⟨middle, ⟨next, step, now⟩, after⟩
    · rintro ⟨middle, ⟨next, step, now⟩, after⟩
      exact ⟨next, step, ih.mpr ⟨middle, now, after⟩⟩

/-- What was held and what came in is what went out and what is held. -/
theorem Runs.balance (runs : d.Runs held log after) :
    held + (d.acquired log : Multiset Handle) = after + (d.released log : Multiset Handle) := by
  induction log generalizing held with
  | nil => exact congrArg (· + 0) runs
  | cons c later ih =>
    obtain ⟨next, ⟨-, rest, rfl, rfl⟩, runs⟩ := runs
    have acquired : (d.acquired (c :: later) : Multiset Handle) = d.acquires c.1 c.2 + d.acquired later := rfl
    have released : (d.released (c :: later) : Multiset Handle) = d.releases c.1 + d.released later := rfl
    rw [acquired, released]
    calc
      rest + (d.releases c.1 : Multiset Handle) + (d.acquires c.1 c.2 + d.acquired later) =
          rest + d.acquires c.1 c.2 + d.acquired later + d.releases c.1 := by abel
      _ = after + d.released later + d.releases c.1 := by rw [ih runs]
      _ = after + (d.releases c.1 + d.released later) := by abel

/-- The log alone decides what is held after it. -/
theorem Runs.unique {other : Multiset Handle} (runs : d.Runs held log after) (runs' : d.Runs held log other) :
    after = other :=
  add_right_cancel (runs.balance.symm.trans runs'.balance)

/-- What a call touches is held when it is made. -/
theorem Runs.touched (runs : d.Runs held (first ++ c :: later) after) :
    ∃ middle, d.Runs held first middle ∧ ∀ handle ∈ d.touches c.1, handle ∈ middle := by
  obtain ⟨middle, now, next, ⟨used, rest, rfl, -⟩, -⟩ := runs_append.mp runs
  refine ⟨_, now, fun handle member => ?_⟩
  rcases List.mem_append.mp member with member | member
  · exact used handle member
  · exact Multiset.mem_add.mpr (.inr member)

section Counting

variable [DecidableEq Handle]

theorem Runs.count_eq (runs : d.Runs 0 log 0) (handle : Handle) :
    (d.released log).count handle = (d.acquired log).count handle := by
  have balance := congrArg (Multiset.count handle) runs.balance
  simpa using balance.symm

/-- What a call touches was held at first or has come in more often than it went out. -/
theorem Runs.count_touched (runs : d.Runs held (first ++ c :: later) after) (member : handle ∈ d.touches c.1) :
    (d.released first).count handle < held.count handle + (d.acquired first).count handle := by
  obtain ⟨middle, now, inside⟩ := runs.touched
  have balance := congrArg (Multiset.count handle) now.balance
  have positive := Multiset.count_pos.mpr (inside handle member)
  simp only [Multiset.count_add, Multiset.coe_count] at balance
  omega

theorem Runs.count_lt (runs : d.Runs 0 (first ++ c :: later) after) (member : handle ∈ d.touches c.1) :
    (d.released first).count handle < (d.acquired first).count handle := by
  simpa using runs.count_touched member

end Counting

section Rules

variable {program : Program Question Answer α} {rest : α → Program Question Answer β} {value : α}
  {ends middle : α → Multiset Handle} {final : β → Multiset Handle} {question : Question}

theorem Manages.pure (same : held = ends value) : d.Manages held (Pure.pure value) ends := by
  rintro log result ⟨rfl, rfl⟩
  exact same

/-- A sequence of which the rest starts with what the first part ends with. -/
theorem Manages.seq (manages : d.Manages held program middle)
    (later : ∀ value, d.Manages (middle value) (rest value) final) : d.Manages held (program >>= rest) final := by
  intro log result yields
  obtain ⟨first, value, second, rfl, now, next⟩ := Program.yields_bind.mp yields
  exact runs_append.mpr ⟨_, manages first value now, later value second result next⟩

theorem Manages.frame (manages : d.Manages held program ends) (others : Multiset Handle) :
    d.Manages (held + others) program (fun value => ends value + others) :=
  fun log result yields => (manages log result yields).frame others

theorem Manages.imp {more : α → Multiset Handle} (manages : d.Manages held program ends)
    (same : ∀ value, ends value = more value) : d.Manages held program more :=
  fun log result yields => same result ▸ manages log result yields

theorem Manages.of_eq (manages : d.Manages held program ends) (same : after = held) : d.Manages after program ends :=
  same ▸ manages

/-- A sequence whose first part is not about all that is held. -/
theorem Manages.bind {start : Multiset Handle} (others : Multiset Handle) (manages : d.Manages held program middle)
    (split : start = held + others) (later : ∀ value, d.Manages (middle value + others) (rest value) final) :
    d.Manages start (program >>= rest) final :=
  ((manages.frame others).seq later).of_eq split

theorem Manages.call (used : ∀ handle ∈ d.uses question, handle ∈ others + d.releases question) :
    d.Manages (others + d.releases question) (Program.call question)
      (fun answer => others + d.acquires question answer) := by
  rintro log answer yields
  obtain rfl := Program.yields_call.mp yields
  exact ⟨_, ⟨used, others, rfl, rfl⟩, rfl⟩

theorem Manages.ask (used : ∀ handle ∈ d.uses question, handle ∈ held) (none : d.releases question = []) :
    d.Manages held (Program.call question) (fun answer => held + d.acquires question answer) := by
  have same : held = held + d.releases question := by rw [none]; exact (add_zero held).symm
  exact (Manages.call (by rwa [← same])).of_eq same

theorem Manages.use (used : ∀ handle ∈ d.uses question, handle ∈ held) (none : d.releases question = [])
    (nothing : ∀ answer, d.acquires question answer = []) :
    d.Manages held (Program.call question) (fun _ => held) := by
  refine (Manages.ask used none).imp fun answer => ?_
  rw [nothing]
  exact add_zero held

theorem Manages.acquire (free : d.uses question = []) (none : d.releases question = []) :
    d.Manages 0 (Program.call question) (fun answer => d.acquires question answer) :=
  (Manages.ask (by simp [free]) none).imp fun _ => zero_add _

theorem Manages.release (free : d.uses question = []) (nothing : ∀ answer, d.acquires question answer = []) :
    d.Manages (d.releases question) (Program.call question) (fun _ => 0) := by
  refine ((Manages.call (by simp [free])).imp fun answer => ?_).of_eq (zero_add _).symm
  rw [nothing]
  rfl

end Rules

end Discipline

end Ownership

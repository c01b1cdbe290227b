import WebTransport.Theory.Loop

/-! Straight-line code over a mutable object that may return early and leave the object
as it then stands. `Ends` says where a run ends early and what it returns otherwise, and
`Finishes` what it leaves in either case; their rules follow the code line by line. `Safe` and
`Alike` compare runs over one buffer from different objects. -/
namespace Loop

inductive Stop (σ : Type) where
  | fault (fault : Fault)
  | early (state : σ)
  deriving DecidableEq, Repr

variable {σ ρ ρ' α : Type}

/-- A checked read or copy in code that may also return early. -/
def checked (read : Except Fault α) : Except (Stop σ) α :=
  match read with
  | .ok value => .ok value
  | .error fault => .error (.fault fault)

@[simp] theorem checked_ok (value : α) : checked (σ := σ) (.ok value) = .ok value := rfl

/-- No read faults, and a run to the end meets the postcondition. -/
def Safe (Post : ρ → Prop) : Except (Stop σ) ρ → Prop
  | .ok result => Post result
  | .error (.early _) => True
  | .error (.fault _) => False

def Ends (Allowed : Prop) (Post : ρ → Prop) : Except (Stop σ) ρ → Prop
  | .ok result => Allowed ∧ Post result
  | .error (.early _) => ¬ Allowed
  | .error (.fault _) => False

variable {Allowed Later : Prop} {Mid Post : ρ → Prop} {Post' : ρ' → Prop}

theorem Ends.ok {result : ρ} (allowed : Allowed) (post : Post result) : @Ends σ ρ Allowed Post (.ok result) :=
  ⟨allowed, post⟩

theorem Ends.bind {run : Except (Stop σ) ρ} {rest : ρ → Except (Stop σ) ρ'} (first : Ends Allowed Mid run)
    (later : Allowed → ∀ r, Mid r → Ends Later Post' (rest r)) : Ends (Allowed ∧ Later) Post' (run >>= rest) := by
  match run with
  | .ok r =>
    have after := later first.1 r first.2
    change Ends (Allowed ∧ Later) Post' (rest r)
    match rest r, after with
    | .ok r', after => exact ⟨⟨first.1, after.1⟩, after.2⟩
    | .error (.early s), after => exact fun both => after both.2
  | .error (.early _) => exact fun both => first both.1

theorem Ends.read {read : Except Fault α} {rest : α → Except (Stop σ) ρ} (value : read = .ok a)
    (later : Ends Allowed Post (rest a)) : Ends Allowed Post (checked read >>= rest) := by
  subst value
  exact later

theorem Ends.check {c : Prop} [Decidable c] {s : σ} {run : Except (Stop σ) ρ}
    (later : ¬ c → Ends Later Post run) :
    Ends (¬ c ∧ Later) Post (if c then .error (.early s) else run) := by
  by_cases fails : c
  · rw [if_pos fails]
    exact fun both => both.1 fails
  · rw [if_neg fails]
    have after := later fails
    match run, after with
    | .ok r, after => exact ⟨⟨fails, after.1⟩, after.2⟩
    | .error (.early s), after => exact fun both => after both.2

theorem Ends.imp {Weaker : ρ → Prop} {run : Except (Stop σ) ρ} (ends : Ends Allowed Post run)
    (weaker : ∀ r, Post r → Weaker r) : Ends Allowed Weaker run := by
  match run with
  | .ok r => exact ⟨ends.1, weaker r ends.2⟩
  | .error (.early _) => exact ends

theorem Ends.congr {run : Except (Stop σ) ρ} (ends : Ends Allowed Post run) (same : Allowed ↔ Later) :
    Ends Later Post run := propext same ▸ ends

theorem Ends.outcome {run : Except (Stop σ) ρ} (ends : Ends Allowed Post run) :
    (∃ r, run = .ok r ∧ Allowed ∧ Post r) ∨ ∃ s, run = .error (.early s) ∧ ¬ Allowed := by
  match run with
  | .ok r => exact .inl ⟨r, rfl, ends⟩
  | .error (.early s) => exact .inr ⟨s, rfl, ends⟩

theorem Ends.safe {run : Except (Stop σ) ρ} (ends : Ends Allowed Mid run)
    (weaker : ∀ r, Allowed → Mid r → Post r) : Safe Post run := by
  match run with
  | .ok r => exact weaker r ends.1 ends.2
  | .error (.early _) => trivial

/-- No read faults; the run ends with one condition at its last line, and with another on the
state where it returns early. -/
def Finishes (Post : ρ → Prop) (Left : σ → Prop) : Except (Stop σ) ρ → Prop
  | .ok result => Post result
  | .error (.early s) => Left s
  | .error (.fault _) => False

variable {Left : σ → Prop}

theorem Finishes.ok {result : ρ} (post : Post result) : @Finishes σ ρ Post Left (.ok result) := post

theorem Finishes.outcome {run : Except (Stop σ) ρ} (finishes : Finishes Post Left run) :
    (∃ r, run = .ok r ∧ Post r) ∨ ∃ s, run = .error (.early s) ∧ Left s := by
  match run with
  | .ok r => exact .inl ⟨r, rfl, finishes⟩
  | .error (.early s) => exact .inr ⟨s, rfl, finishes⟩

theorem Finishes.bind {run : Except (Stop σ) ρ} {rest : ρ → Except (Stop σ) ρ'} (first : Finishes Mid Left run)
    (later : ∀ r, Mid r → Finishes Post' Left (rest r)) : Finishes Post' Left (run >>= rest) := by
  match run with
  | .ok r => exact later r first
  | .error (.early _) => exact first

theorem Finishes.read {read : Except Fault α} {rest : α → Except (Stop σ) ρ} (value : read = .ok a)
    (later : Finishes Post Left (rest a)) : Finishes Post Left (checked read >>= rest) := by
  subst value
  exact later

theorem Finishes.check {c : Prop} [Decidable c] {s : σ} {run : Except (Stop σ) ρ} (left : c → Left s)
    (later : ¬ c → Finishes Post Left run) : Finishes Post Left (if c then .error (.early s) else run) := by
  by_cases fails : c
  · rw [if_pos fails]
    exact left fails
  · rw [if_neg fails]
    exact later fails

/-- A run whose early end is understood, with what it leaves there. -/
theorem Ends.finishes {Any : ρ → Prop} {Before : σ → Prop} {run : Except (Stop σ) ρ} (ends : Ends Allowed Post run)
    (stops : Finishes Any Before run) (left : ∀ s, ¬ Allowed → Before s → Left s) :
    Finishes (fun r => Allowed ∧ Post r) Left run := by
  match run with
  | .ok _ => exact ends
  | .error (.early s) => exact left s ends stops

section Programs

variable {τ ν ν' : Type}

def Related (S : σ → τ → Prop) (R : ρ → ν → Prop) : Except (Stop σ) ρ → Except (Stop τ) ν → Prop
  | .ok a, .ok b => R a b
  | .error (.early s), .error (.early t) => S s t
  | .error (.fault f), .error (.fault g) => f = g
  | _, _ => False

variable {S : σ → τ → Prop} {R : ρ → ν → Prop} {R' : ρ' → ν' → Prop}

theorem Related.ends {x : Except (Stop σ) ρ} {y : Except (Stop τ) ν} (related : Related S R x y) :
    (∃ a b, x = .ok a ∧ y = .ok b ∧ R a b) ∨ (∃ s t, x = .error (.early s) ∧ y = .error (.early t) ∧ S s t) ∨
      ∃ f, x = .error (.fault f) ∧ y = .error (.fault f) := by
  match x, y with
  | .ok a, .ok b => exact .inl ⟨a, b, rfl, rfl, related⟩
  | .error (.early s), .error (.early t) => exact .inr (.inl ⟨s, t, rfl, rfl, related⟩)
  | .error (.fault f), .error (.fault g) =>
    obtain rfl : f = g := related
    exact .inr (.inr ⟨f, rfl, rfl⟩)

theorem Related.bind {x : Except (Stop σ) ρ} {y : Except (Stop τ) ν} {f : ρ → Except (Stop σ) ρ'}
    {g : ν → Except (Stop τ) ν'} (first : Related S R x y) (later : ∀ a b, R a b → Related S R' (f a) (g b)) :
    Related S R' (x >>= f) (y >>= g) := by
  match x, y with
  | .ok a, .ok b => exact later a b first
  | .error (.early _), .error (.early _) => exact first
  | .error (.fault _), .error (.fault _) => exact first

/-- Reads that agree up to a view of the values. -/
theorem Related.read {one : Except Fault α} {other : Except Fault β} {f : α → Except (Stop σ) ρ}
    {g : β → Except (Stop τ) ν} (view : α → β) (same : other = one.map view)
    (later : ∀ value, Related S R (f value) (g (view value))) :
    Related S R (checked one >>= f) (checked other >>= g) := by
  subst same
  match one with
  | .ok value => exact later value
  | .error _ => exact rfl

theorem Related.ite {c d : Prop} [Decidable c] [Decidable d] (same : c ↔ d) {x x' : Except (Stop σ) ρ}
    {y y' : Except (Stop τ) ν} (yes : c → Related S R x y) (no : ¬ c → Related S R x' y') :
    Related S R (if c then x else x') (if d then y else y') := by
  by_cases h : c
  · rw [if_pos h, if_pos (same.mp h)]
    exact yes h
  · rw [if_neg h, if_neg (h ∘ same.mpr)]
    exact no h

end Programs

/-- Both end at the same place: with related results, or early, or with one fault. -/
def Alike (R : ρ → ρ → Prop) : Except (Stop σ) ρ → Except (Stop σ) ρ → Prop
  | .ok a, .ok b => R a b
  | .error (.early _), .error (.early _) => True
  | .error (.fault f), .error (.fault g) => f = g
  | _, _ => False

variable {R : ρ → ρ → Prop} {R' : ρ' → ρ' → Prop}

@[simp] theorem Alike.ok : Alike (σ := σ) R (.ok a) (.ok b) ↔ R a b := Iff.rfl

@[simp] theorem Alike.early (s t : σ) : Alike R (.error (.early s)) (.error (.early t)) := trivial

/-- Two runs of one program, whatever the states they stop in. -/
theorem Alike.related {x y : Except (Stop σ) ρ} : Alike R x y ↔ Related (fun _ _ => True) R x y := by
  rcases x with (_ | _) | _ <;> rcases y with (_ | _) | _ <;> rfl

/-- Two runs that end early under one condition. -/
theorem Alike.of_ends {Post Post' : ρ → Prop} {x y : Except (Stop σ) ρ} (one : Ends Allowed Post x)
    (other : Ends Allowed Post' y) : Alike (fun a b => Post a ∧ Post' b) x y := by
  match x, y with
  | .ok a, .ok b => exact ⟨one.2, other.2⟩
  | .ok a, .error (.early _) => exact other one.1
  | .error (.early _), .ok b => exact one other.1
  | .error (.early _), .error (.early _) => trivial

theorem Alike.imp {S : ρ → ρ → Prop} {x y : Except (Stop σ) ρ} (alike : Alike R x y)
    (weaker : ∀ a b, R a b → S a b) : Alike S x y := by
  match x, y with
  | .ok a, .ok b => exact weaker a b alike
  | .error (.early _), .error (.early _) => trivial
  | .error (.fault _), .error (.fault _) => exact alike

/-- Two runs of which one makes no faulting read. -/
theorem Alike.ends {Post : ρ → Prop} {x y : Except (Stop σ) ρ} (alike : Alike R x y) (safe : Safe Post y) :
    (∃ a b, x = .ok a ∧ y = .ok b ∧ R a b ∧ Post b) ∨ ∃ s t, x = .error (.early s) ∧ y = .error (.early t) := by
  rcases (related.mp alike).ends with ⟨a, b, rfl, rfl, holds⟩ | ⟨s, t, rfl, rfl, -⟩ | ⟨f, rfl, rfl⟩
  · exact .inl ⟨a, b, rfl, rfl, holds, safe⟩
  · exact .inr ⟨s, t, rfl, rfl⟩
  · exact safe.elim

end Loop

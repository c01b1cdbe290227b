import WebTransport.Theory.Loop

/-! `ExpandURITemplateImpl`. Replacing all occurrences of a text and encoding a URI component
are library calls. -/
namespace WebTransport.Platform.URITemplate

open Loop

abbrev Text : Type := List Char

def opening : Char := '\x7b'
def closing : Char := '\x7d'

/-- Occurrences are replaced from left to right, and what was put in is not searched again. -/
structure Library where
  strReplaceAll : (old new text : Text) → Text × Nat
  encodeURIComponent : Text → Text
  absent : ¬ old <:+: text → strReplaceAll old new text = (text, 0)
  first : old ≠ [] → (∀ i < before.length, ¬ old <+: (before ++ (old ++ rest)).drop i) →
    strReplaceAll old new (before ++ (old ++ rest)) =
      (before ++ (new ++ (strReplaceAll old new rest).1), (strReplaceAll old new rest).2 + 1)
  escapes : opening ∉ encodeURIComponent value ∧ closing ∉ encodeURIComponent value

/-- One pass of the loop that removes the other variables; `none` is a return of `false`. -/
def erasePass (result : Text) : Except Fault (Pass Text (Option Text)) :=
  match result.idxOf? opening with
  | none => .ok (.leave (some result))
  | some start =>
    match result.idxOf? closing with
    | none => .ok (.leave none)
    | some stop =>
      if stop ≤ start then .ok (.leave none)
      else .ok (.again (result.take start ++ result.drop (stop + 1)))

def nameInput (name : Text) : Text := opening :: name ++ [closing]

def replaceParameter (library : Library) (state : Text × List Text) (parameter : Text × Text) : Text × List Text :=
  let (result, numReplaced) :=
    library.strReplaceAll (nameInput parameter.1) (library.encodeURIComponent parameter.2) state.1
  (result, if 0 < numReplaced then state.2 ++ [parameter.1] else state.2)

/-- The parameters in the order in which the map gives them; the target and the variables found. -/
def expandURITemplate (library : Library) (uriTemplate : Text) (parameters : List (Text × Text)) :
    Except Fault (Option (Text × List Text)) := do
  let (result, found) := parameters.foldl (replaceParameter library) (uriTemplate, [])
  match ← loop erasePass (result.length + 1) result with
  | none => .ok none
  | some target => .ok (some (target, found))

inductive Piece where
  | literal (text : Text)
  | var (name : Text)
  deriving DecidableEq, Repr

def Plain (text : Text) : Prop := opening ∉ text ∧ closing ∉ text

instance (text : Text) : Decidable (Plain text) := inferInstanceAs (Decidable (_ ∧ _))

namespace Piece

def text : Piece → Text
  | literal text => text
  | var name => nameInput name

def content : Piece → Text
  | literal text => text
  | var name => name

/-- Variables that are not given are empty. -/
def meaning (values : Text → Option Text) : Piece → Text
  | literal text => text
  | var name => (values name).getD []

def resolve (values : Text → Option Text) : Piece → Piece
  | literal text => literal text
  | var name => ((values name).map literal).getD (var name)

end Piece

def source (pieces : List Piece) : Text := pieces.flatMap Piece.text

variable {library : Library} {pieces : List Piece} {name : Text}

@[simp] theorem source_nil : source [] = [] := rfl

@[simp] theorem source_cons (piece : Piece) (rest : List Piece) :
    source (piece :: rest) = piece.text ++ source rest := rfl

@[simp] theorem source_append (first second : List Piece) :
    source (first ++ second) = source first ++ source second :=
  List.flatMap_append

theorem plain_append {first second : Text} : Plain (first ++ second) ↔ Plain first ∧ Plain second := by
  simp only [Plain, List.mem_append, not_or]
  constructor
  · rintro ⟨⟨a, b⟩, c, d⟩
    exact ⟨⟨a, c⟩, b, d⟩
  · rintro ⟨⟨a, c⟩, b, d⟩
    exact ⟨⟨a, b⟩, c, d⟩

theorem closed_prefix {name other rest : Text} (plain : closing ∉ name) (plain' : closing ∉ other)
    (found : name ++ [closing] <+: other ++ closing :: rest) : name = other := by
  induction name generalizing other with
  | nil =>
    cases other with
    | nil => rfl
    | cons c other => exact (plain' (List.mem_cons.mpr (.inl (List.cons_prefix_cons.mp found).1))).elim
  | cons c name ih =>
    cases other with
    | nil => exact (plain (List.mem_cons.mpr (.inl (List.cons_prefix_cons.mp found).1.symm))).elim
    | cons d other =>
      obtain ⟨rfl, inner⟩ := List.cons_prefix_cons.mp found
      rw [ih (fun there => plain (.tail _ there)) (fun there => plain' (.tail _ there)) inner]

theorem nameInput_starts {text : Text} {i : Nat} (found : nameInput name <+: text.drop i) :
    text[i]? = some opening := by
  obtain ⟨more, split⟩ := found
  have head : (text.drop i)[0]? = some opening := by
    rw [← split]
    rfl
  simpa using head

/-- The input of a name occurs where the variable is, and nowhere else. -/
theorem occurs (plain : Plain name) (plains : ∀ piece ∈ pieces, Plain piece.content) (i : Nat)
    (found : nameInput name <+: (source pieces).drop i) :
    ∃ before rest, pieces = before ++ .var name :: rest ∧ i = (source before).length := by
  induction pieces generalizing i with
  | nil => simp [nameInput] at found
  | cons piece rest ih =>
    obtain ⟨plain', plains⟩ := List.forall_mem_cons.mp plains
    rcases Nat.lt_or_ge i piece.text.length with inside | behind
    · have starts := nameInput_starts found
      rw [source_cons, List.getElem?_append_left inside] at starts
      cases piece with
      | literal text => exact (plain'.1 (List.mem_of_getElem? starts)).elim
      | var other =>
        cases i with
        | zero =>
          rw [List.drop_zero, source_cons] at found
          have inner : name ++ [closing] <+: other ++ closing :: source rest := by
            simpa [Piece.text, nameInput] using found
          obtain rfl := closed_prefix plain.2 plain'.2 inner
          exact ⟨[], rest, rfl, rfl⟩
        | succ i =>
          have member : opening ∈ other ++ [closing] := by
            simp only [Piece.text, nameInput, List.cons_append, List.getElem?_cons_succ] at starts
            exact List.mem_of_getElem? starts
          rcases List.mem_append.mp member with there | there
          · exact (plain'.1 there).elim
          · exact absurd (List.mem_singleton.mp there) (by decide)
    · rw [source_cons, List.drop_append, List.drop_eq_nil_of_le behind, List.nil_append] at found
      obtain ⟨before, rest', rfl, place⟩ := ih plains _ found
      refine ⟨piece :: before, rest', rfl, ?_⟩
      rw [source_cons, List.length_append]
      omega

def single (name value : Text) : Text → Option Text := fun other => if other = name then some value else none

theorem resolve_others (value : Text) (fresh : Piece.var name ∉ pieces) :
    pieces.map (Piece.resolve (single name value)) = pieces := by
  refine (List.map_congr_left ?_).trans (List.map_id pieces)
  intro piece member
  cases piece with
  | literal text => rfl
  | var other =>
    have apart : other ≠ name := by
      rintro rfl
      exact fresh member
    simp [Piece.resolve, single, apart]

/-- Between one variable of this name and the next there is no other occurrence. -/
theorem strReplaceAll_source (library : Library) (plain : Plain name) (value : Text)
    (plains : ∀ piece ∈ pieces, Plain piece.content) :
    library.strReplaceAll (nameInput name) value (source pieces) =
      (source (pieces.map (Piece.resolve (single name value))), pieces.count (.var name)) := by
  generalize size : pieces.length = n
  induction n using Nat.strongRecOn generalizing pieces with
  | ind n ih =>
    by_cases there : Piece.var name ∈ pieces
    · obtain ⟨before, rest, rfl, fresh⟩ := List.eq_append_cons_of_mem there
      have plainRest : ∀ piece ∈ rest, Plain piece.content := fun piece member =>
        plains piece (List.mem_append.mpr (.inr (.tail _ member)))
      have earliest : ∀ i < (source before).length,
          ¬ nameInput name <+: (source before ++ (nameInput name ++ source rest)).drop i := by
        intro i early found
        have whole : source (before ++ .var name :: rest) = source before ++ (nameInput name ++ source rest) := by
          rw [source_append, source_cons]
          rfl
        rw [← whole] at found
        obtain ⟨before', rest', split, rfl⟩ := occurs plain plains i found
        rcases List.append_eq_append_iff.mp split with ⟨more, rfl, -⟩ | ⟨more, rfl, tail⟩
        · rw [source_append, List.length_append] at early
          omega
        · cases more with
          | nil => simp at early
          | cons piece more =>
            obtain ⟨rfl, -⟩ := List.cons.inj tail
            exact fresh (List.mem_append.mpr (.inr (.head _)))
      have step : library.strReplaceAll (nameInput name) value (source before ++ (nameInput name ++ source rest)) =
          (source before ++ (value ++ (library.strReplaceAll (nameInput name) value (source rest)).1),
            (library.strReplaceAll (nameInput name) value (source rest)).2 + 1) :=
        library.first (by simp [nameInput]) earliest
      rw [ih rest.length (by subst size; simp; omega) plainRest rfl] at step
      have whole : source (before ++ .var name :: rest) = source before ++ (nameInput name ++ source rest) := by
        rw [source_append, source_cons]
        rfl
      rw [whole, step, List.map_append, resolve_others value fresh, List.count_append, List.count_eq_zero.mpr fresh]
      simp [Piece.resolve, single, Piece.text]
    · have absent : ¬ nameInput name <:+: source pieces := by
        rintro ⟨before, after, split⟩
        have found : nameInput name <+: (source pieces).drop before.length := by
          rw [← split, List.append_assoc, List.drop_left]
          exact List.prefix_append _ _
        obtain ⟨first, rest, rfl, -⟩ := occurs plain plains _ found
        exact there (by simp)
      rw [library.absent absent, resolve_others value there, List.count_eq_zero.mpr there]

def encoded (library : Library) (values : Text → Option Text) (name : Text) : Option Text :=
  (values name).map library.encodeURIComponent

theorem resolve_cons (parameter : Text × Text) (rest : List (Text × Text)) (piece : Piece) :
    Piece.resolve (encoded library (rest.lookup ·))
        (Piece.resolve (single parameter.1 (library.encodeURIComponent parameter.2)) piece) =
      Piece.resolve (encoded library ((parameter :: rest).lookup ·)) piece := by
  obtain ⟨key, value⟩ := parameter
  cases piece with
  | literal text => rfl
  | var name =>
    by_cases same : name = key
    · simp [Piece.resolve, single, encoded, same]
    · have apart : (name == key) = false := by simpa using same
      simp [Piece.resolve, single, encoded, same, List.lookup_cons, apart]

theorem plain_resolve {values : Text → Option Text} (escaped : ∀ name value, values name = some value → Plain value)
    (plains : ∀ piece ∈ pieces, Plain piece.content) :
    ∀ piece ∈ pieces.map (Piece.resolve values), Plain piece.content := by
  rw [List.forall_mem_map]
  intro piece member
  cases piece with
  | literal text => exact plains _ member
  | var name =>
    cases given : values name with
    | none => simpa [Piece.resolve, given] using plains _ member
    | some value => simpa [Piece.resolve, given, Piece.content] using escaped name value given

theorem plain_single (library : Library) (name value : Text) (other found : Text)
    (given : single name (library.encodeURIComponent value) other = some found) : Plain found := by
  rw [single] at given
  split at given
  · cases given
    exact library.escapes
  · cases given

theorem plain_encoded (library : Library) (values : Text → Option Text) (name found : Text)
    (given : encoded library values name = some found) : Plain found := by
  obtain ⟨value, -, rfl⟩ := Option.map_eq_some_iff.mp given
  exact library.escapes

/-- A variable that was replaced is none any more, so each parameter is found once. -/
theorem var_mem_resolve {other value : Text} :
    .var other ∈ pieces.map (Piece.resolve (single name value)) ↔ other ≠ name ∧ .var other ∈ pieces := by
  rw [List.mem_map]
  constructor
  · rintro ⟨piece, member, same⟩
    cases piece with
    | literal text => cases same
    | var third =>
      by_cases here : third = name
      · simp [Piece.resolve, single, here] at same
      · simp [Piece.resolve, single, here] at same
        subst same
        exact ⟨here, member⟩
  · rintro ⟨apart, member⟩
    exact ⟨_, member, by simp [Piece.resolve, single, apart]⟩

theorem foldl_source (library : Library) (parameters : List (Text × Text))
    (names : ∀ parameter ∈ parameters, Plain parameter.1)
    (plains : ∀ piece ∈ pieces, Plain piece.content) (found : List Text) :
    ∃ more, parameters.foldl (replaceParameter library) (source pieces, found) =
        (source (pieces.map (Piece.resolve (encoded library (parameters.lookup ·)))), found ++ more) ∧
      ∀ name, name ∈ more ↔ name ∈ parameters.map Prod.fst ∧ .var name ∈ pieces := by
  induction parameters generalizing pieces found with
  | nil =>
    refine ⟨[], ?_, by simp⟩
    have same : pieces.map (Piece.resolve (encoded library (List.lookup · []))) = pieces := by
      refine (List.map_congr_left ?_).trans (List.map_id pieces)
      rintro (text | name) _ <;> rfl
    rw [List.foldl_nil, same, List.append_nil]
  | cons parameter rest ih =>
    obtain ⟨plain, names⟩ := List.forall_mem_cons.mp names
    have replaced := strReplaceAll_source library plain (library.encodeURIComponent parameter.2) plains
    obtain ⟨more, folded, members⟩ := ih names (plain_resolve (plain_single library parameter.1 parameter.2) plains)
      (if 0 < pieces.count (.var parameter.1) then found ++ [parameter.1] else found)
    rw [List.map_map] at folded
    simp only [Function.comp_def, resolve_cons] at folded
    by_cases there : Piece.var parameter.1 ∈ pieces
    · refine ⟨parameter.1 :: more, ?_, ?_⟩
      · rw [if_pos (List.count_pos_iff.mpr there)] at folded
        rw [List.foldl_cons, replaceParameter, replaced]
        simpa [List.count_pos_iff.mpr there] using folded
      · intro name
        rw [List.mem_cons, members, var_mem_resolve, List.map_cons, List.mem_cons]
        by_cases same : name = parameter.1
        · simp [same, there]
        · simp [same]
    · refine ⟨more, ?_, ?_⟩
      · rw [if_neg (by rw [List.count_pos_iff]; exact there)] at folded
        rw [List.foldl_cons, replaceParameter, replaced]
        simpa [there] using folded
      · intro name
        rw [members, var_mem_resolve, List.map_cons, List.mem_cons]
        by_cases same : name = parameter.1
        · simp [same, there]
        · simp [same]

theorem idxOf?_behind {front : Text} {c : Char} (fresh : c ∉ front) (more : Text) :
    (front ++ c :: more).idxOf? c = some front.length := by
  rw [List.idxOf?_eq_some_iff]
  refine ⟨by simp, by simp, ?_⟩
  intro j before same
  rw [List.getElem_append_left before] at same
  exact fresh (same ▸ List.getElem_mem before)

theorem erasePass_var {front more : Text} (plain : Plain front) (plain' : Plain name) :
    erasePass (front ++ (nameInput name ++ more)) = .ok (.again (front ++ more)) := by
  have start : (front ++ (nameInput name ++ more)).idxOf? opening = some front.length := by
    simpa [nameInput] using idxOf?_behind plain.1 (name ++ closing :: more)
  have stop : (front ++ (nameInput name ++ more)).idxOf? closing = some (front ++ opening :: name).length := by
    have fresh : closing ∉ front ++ opening :: name := by
      simp only [List.mem_append, List.mem_cons, not_or]
      exact ⟨plain.2, by decide, plain'.2⟩
    simpa [nameInput] using idxOf?_behind fresh more
  rw [erasePass, start]
  simp only [stop]
  have split : front ++ (nameInput name ++ more) = (front ++ nameInput name) ++ more := by rw [List.append_assoc]
  have behind : (front ++ opening :: name).length + 1 = (front ++ nameInput name).length := by
    simp [nameInput]
    omega
  rw [if_neg (by simp), List.take_left, behind, split, List.drop_left]

theorem erase_source {front : Text} (plain : Plain front) (plains : ∀ piece ∈ pieces, Plain piece.content)
    (enough : (front ++ source pieces).length < fuel) :
    loop erasePass fuel (front ++ source pieces) =
      .ok (some (front ++ pieces.flatMap (Piece.meaning fun _ => none))) := by
  induction pieces generalizing front fuel with
  | nil =>
    cases fuel with
    | zero => omega
    | succ fuel =>
      refine loop_leave ?_
      have none : (front ++ source []).idxOf? opening = none := by
        rw [List.idxOf?_eq_none_iff]
        simpa using plain.1
      rw [erasePass, none]
      rfl
  | cons piece rest ih =>
    obtain ⟨plain', others⟩ := List.forall_mem_cons.mp plains
    cases piece with
    | literal text =>
      rw [source_cons, ← List.append_assoc, List.flatMap_cons, ← List.append_assoc]
      refine ih (plain_append.mpr ⟨plain, plain'⟩) others ?_
      simpa [Piece.text] using enough
    | var name =>
      cases fuel with
      | zero => omega
      | succ fuel =>
        change Plain name at plain'
        rw [source_cons, Piece.text, loop_again (erasePass_var plain plain')]
        refine ih plain others ?_
        simp only [source_cons, Piece.text, nameInput, List.length_append, List.length_cons] at enough
        rw [List.length_append]
        omega

/-- Variables that were given are literals by now, the others are empty. -/
theorem meaning_resolve (values : Text → Option Text) (pieces : List Piece) :
    (pieces.map (Piece.resolve values)).flatMap (Piece.meaning fun _ => none) =
      pieces.flatMap (Piece.meaning values) := by
  induction pieces with
  | nil => rfl
  | cons piece rest ih =>
    rw [List.map_cons, List.flatMap_cons, List.flatMap_cons, ih]
    cases piece with
    | literal text => rfl
    | var name => cases given : values name <;> simp [Piece.resolve, Piece.meaning, given]

/-- The order of a map does not matter where its entries are those of a function. -/
theorem lookup_eq {parameters : List (Text × Text)} {values : Text → Option Text}
    (entries : ∀ name value, (name, value) ∈ parameters ↔ values name = some value) (name : Text) :
    parameters.lookup name = values name := by
  cases found : parameters.lookup name with
  | none =>
    cases given : values name with
    | none => rfl
    | some value =>
      have apart := List.lookup_eq_none_iff.mp found _ ((entries name value).mpr given)
      simp at apart
  | some value =>
    obtain ⟨before, after, rfl, -⟩ := List.lookup_eq_some_iff.mp found
    exact ((entries name value).mp (by simp)).symm

/-- A template of literals and variables without braces in them is expanded to what it means,
in whatever order the map gives its parameters, and the variables found are those that occur
and are given. -/
theorem expands (library : Library) (pieces : List Piece) (plains : ∀ piece ∈ pieces, Plain piece.content)
    (values : Text → Option Text) (parameters : List (Text × Text))
    (entries : ∀ name value, (name, value) ∈ parameters ↔ values name = some value)
    (names : ∀ name, (values name).isSome → Plain name) :
    ∃ found, expandURITemplate library (source pieces) parameters =
        .ok (some (pieces.flatMap (Piece.meaning (encoded library values)), found)) ∧
      ∀ name, name ∈ found ↔ (values name).isSome ∧ .var name ∈ pieces := by
  have given : ∀ parameter ∈ parameters, Plain parameter.1 := by
    rintro ⟨name, value⟩ member
    exact names name (by simp [(entries name value).mp member])
  obtain ⟨found, folded, members⟩ := foldl_source library parameters given plains []
  have same : encoded library (parameters.lookup ·) = encoded library values := by
    funext name
    rw [encoded, encoded, lookup_eq entries]
  have nothing : Plain [] := ⟨by simp, by simp⟩
  have erased := erase_source nothing (plain_resolve (plain_encoded library values) plains) (Nat.lt_succ_self _)
  rw [same] at folded
  refine ⟨found, ?_, ?_⟩
  · rw [expandURITemplate, folded]
    simp only [List.nil_append] at erased ⊢
    rw [erased, meaning_resolve]
    rfl
  · intro name
    rw [members]
    refine and_congr_left fun _ => ?_
    rw [List.mem_map, Option.isSome_iff_exists]
    constructor
    · rintro ⟨⟨_, value⟩, member, rfl⟩
      exact ⟨value, (entries _ value).mp member⟩
    · rintro ⟨value, known⟩
      exact ⟨(name, value), (entries name value).mpr known, rfl⟩

/-- Any other template is expanded or refused as well, and never to a text with an opening brace. -/
theorem expansion_ends (library : Library) (uriTemplate : Text) (parameters : List (Text × Text)) :
    ∃ answer, expandURITemplate library uriTemplate parameters = .ok answer ∧
      ∀ target found, answer = some (target, found) → opening ∉ target := by
  let state := parameters.foldl (replaceParameter library) (uriTemplate, [])
  have ends : ∃ answer, loop erasePass (state.1.length + 1) state.1 = .ok answer ∧
      ∀ target, answer = some target → opening ∉ target := by
    refine loop_total (fun _ => True) (fun answer => ∀ target, answer = some target → opening ∉ target) List.length ?_
      trivial (Nat.lt_succ_self _)
    intro result _
    rw [erasePass]
    split
    next none =>
      refine .inr ⟨_, rfl, ?_⟩
      rintro target ⟨⟩
      exact List.idxOf?_eq_none_iff.mp none
    next start found =>
      split
      next => exact .inr ⟨_, rfl, nofun⟩
      next stop closed =>
        split
        next => exact .inr ⟨_, rfl, nofun⟩
        next later =>
          obtain ⟨inside, -⟩ := List.idxOf?_eq_some_iff.mp closed
          refine .inl ⟨_, rfl, trivial, ?_⟩
          rw [List.length_append, List.length_take, List.length_drop]
          omega
  obtain ⟨answer, looped, clean⟩ := ends
  refine ⟨answer.map fun target => (target, state.2), ?_, ?_⟩
  · change (do
      match ← loop erasePass (state.1.length + 1) state.1 with
      | none => .ok none
      | some target => .ok (some (target, state.2))) = _
    rw [looped]
    cases answer <;> rfl
  · intro target found given
    obtain ⟨_, rfl, same⟩ := Option.map_eq_some_iff.mp given
    obtain ⟨rfl, -⟩ := Prod.mk.inj same
    exact clean _ rfl

def replaceAll (old new : Text) : Nat → Text → Text × Nat
  | _, [] => ([], 0)
  | skip + 1, _ :: rest => replaceAll old new skip rest
  | 0, c :: rest =>
    if old.isPrefixOf (c :: rest) then
      let (text, count) := replaceAll old new (old.length - 1) rest
      (new ++ text, count + 1)
    else
      let (text, count) := replaceAll old new 0 rest
      (c :: text, count)

theorem replaceAll_skip (old new front rest : Text) :
    replaceAll old new front.length (front ++ rest) = replaceAll old new 0 rest := by
  induction front with
  | nil => rfl
  | cons c front ih => exact ih

theorem replaceAll_absent (old new text : Text) (absent : ¬ old <:+: text) :
    replaceAll old new 0 text = (text, 0) := by
  induction text with
  | nil => rfl
  | cons c rest ih =>
    have front : ¬ old.isPrefixOf (c :: rest) := by
      rw [List.isPrefixOf_iff_prefix]
      exact fun there => absent there.isInfix
    have later : ¬ old <:+: rest := fun there => absent (there.trans (List.suffix_cons c rest).isInfix)
    rw [replaceAll, if_neg front, ih later]

theorem replaceAll_first (old new before rest : Text) (some : old ≠ [])
    (earliest : ∀ i < before.length, ¬ old <+: (before ++ (old ++ rest)).drop i) :
    replaceAll old new 0 (before ++ (old ++ rest)) =
      (before ++ (new ++ (replaceAll old new 0 rest).1), (replaceAll old new 0 rest).2 + 1) := by
  induction before with
  | nil =>
    obtain ⟨c, tail, rfl⟩ := List.exists_cons_of_ne_nil some
    have front : (c :: tail).isPrefixOf (c :: (tail ++ rest)) := by
      rw [List.isPrefixOf_iff_prefix, ← List.cons_append]
      exact List.prefix_append _ _
    change replaceAll (c :: tail) new 0 (c :: (tail ++ rest)) = _
    rw [replaceAll, if_pos front]
    simp only [List.length_cons, Nat.add_sub_cancel, replaceAll_skip, List.nil_append]
  | cons c before ih =>
    have front : ¬ old.isPrefixOf (c :: (before ++ (old ++ rest))) := by
      rw [List.isPrefixOf_iff_prefix]
      exact earliest 0 (Nat.succ_pos _)
    have later : ∀ i < before.length, ¬ old <+: (before ++ (old ++ rest)).drop i :=
      fun i inside => earliest (i + 1) (Nat.succ_lt_succ inside)
    rw [List.cons_append, replaceAll, if_neg front, ih later]
    rfl

def unreserved (c : Char) : Bool := c.isAlphanum || ['-', '_', '.', '!', '~', '*', '(', ')'].contains c

def hexDigit (n : Nat) : Char := if n < 10 then Char.ofNat (48 + n) else Char.ofNat (55 + n)

/-- On ASCII. -/
def percentEncode (value : Text) : Text :=
  value.flatMap fun c => if unreserved c then [c] else ['%', hexDigit (c.toNat / 16 % 16), hexDigit (c.toNat % 16)]

theorem hexDigit_plain (n : Nat) (digit : n < 16) : hexDigit n ≠ opening ∧ hexDigit n ≠ closing := by
  revert n
  decide

theorem percentEncode_escapes (value : Text) : opening ∉ percentEncode value ∧ closing ∉ percentEncode value := by
  have each : ∀ c ∈ percentEncode value, c ≠ opening ∧ c ≠ closing := by
    intro c member
    obtain ⟨original, -, there⟩ := List.mem_flatMap.mp member
    split at there
    next allowed =>
      obtain rfl := List.mem_singleton.mp there
      constructor <;> rintro rfl <;> exact absurd allowed (by decide)
    next =>
      simp only [List.mem_cons, List.not_mem_nil, or_false] at there
      rcases there with rfl | rfl | rfl
      · decide
      · exact hexDigit_plain _ (Nat.mod_lt _ (by decide))
      · exact hexDigit_plain _ (Nat.mod_lt _ (by decide))
  exact ⟨fun there => (each _ there).1 rfl, fun there => (each _ there).2 rfl⟩

def ascii : Library where
  strReplaceAll old new := replaceAll old new 0
  encodeURIComponent := percentEncode
  absent := replaceAll_absent _ _ _
  first := replaceAll_first _ _ _ _
  escapes := percentEncode_escapes _

/-- Two variables of which one is given, with a value that has to be escaped. -/
theorem expands_ascii :
    ∃ found, expandURITemplate ascii (source [.literal ['/'], .var ['h'], .literal ['/'], .var ['p'], .var ['h']])
        [(['x'], ['1']), (['h'], ['a', opening])] =
        .ok (some (['/', 'a', '%', '7', 'B', '/', 'a', '%', '7', 'B'], found)) ∧
      (['h'] ∈ found ∧ ['p'] ∉ found ∧ ['x'] ∉ found) := by
  let values (name : Text) : Option Text :=
    if name = ['x'] then some ['1'] else if name = ['h'] then some ['a', opening] else none
  have entries (name value : Text) : (name, value) ∈ [(['x'], ['1']), (['h'], ['a', opening])] ↔
      values name = some value := by
    by_cases x : name = ['x']
    · simp [values, x, eq_comm]
    · by_cases h : name = ['h']
      · simp [values, h, eq_comm]
      · simp [values, x, h]
  have names (name : Text) (given : (values name).isSome) : Plain name := by
    by_cases x : name = ['x']
    · subst x; decide
    · by_cases h : name = ['h']
      · subst h; decide
      · simp [values, x, h] at given
  obtain ⟨found, expanded, members⟩ := expands ascii
    [.literal ['/'], .var ['h'], .literal ['/'], .var ['p'], .var ['h']] (by decide) values _ entries names
  exact ⟨found, expanded, by simp [members, values], by simp [members, values], by simp [members]⟩

end WebTransport.Platform.URITemplate

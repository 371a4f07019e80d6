import SmallLisp.Editor.Index
import SmallLisp.Proofs.Reader.Grammar
import SmallLisp.Proofs.Reader.Scan

/-!
The definitions that an index finds in the tokens of a text, and those that its forms make.

The index counts parentheses and looks at the first tokens of a group.  On the tokens of an expression
this finds what `Derivation.definition?` reads off its tree: inside a group nothing is found
(`definitionsFrom_tokens_inside`), so that a sequence of expressions has at most one definition for each
of them (`definitionsFrom_tokensAll`).

A tree has quotes and spellings that its form has not.  An expression that is quoted, or whose name is a
number, looks like a definition and makes none; for every name that no such expression is mistaken for
defining, the index and the forms agree.
-/

namespace SmallLisp

namespace Editor

/-- Whether the first expression is a `lambda` form. -/
def beginsLambda : List Derivation → Bool
  | .group _ _ _ _ (.atom head _ :: _) :: _ => lambdaNames.contains head.text
  | _ => false

end Editor

namespace Derivation

open Editor

/-- The definition that an expression looks like, with quotes before it or without. -/
def definition? : Derivation → Option Definition
  | .quoted _ _ e => e.definition?
  | .group _ _ _ _ (.atom head _ :: .atom name _ :: rest) =>
    if definesNames.contains head.text then
      some ⟨name.text, beginsLambda rest, name.line - 1, name.column - 1⟩
    else none
  | _ => none

def isQuoted : Derivation → Bool
  | .quoted .. => true
  | _ => false

end Derivation

namespace Editor

open SmallLisp.Derivation

/-! ## The first tokens of a group -/

theorem startsLambda_of_kind_ne {t : Token} (h : t.kind ≠ .lparen) (ts : List Token) :
    startsLambda (t :: ts) = false := by
  cases ts <;> simp [startsLambda, h]

theorem startsLambda_cons_cons {t : Token} (h : t.kind = .lparen) (u : Token) (ts : List Token) :
    startsLambda (t :: u :: ts) = lambdaNames.contains u.text := by
  simp [startsLambda, h]

theorem not_lambdaNames_of_kind_ne {t : Token} (hspelled : t.Spelled) (h : t.kind ≠ .atom) :
    lambdaNames.contains t.text = false := by
  rcases hspelled h with h | h | h <;> rw [h] <;> rfl

/-- The first token of what follows an opening parenthesis tells whether a `lambda` form begins. -/
theorem startsLambda_group {opening closing : Token} (ho : opening.kind = .lparen)
    (hc : closing.kind = .rparen) (items : List Derivation) (ts : List Token)
    (hspelled : ∀ t ∈ tokensAll items ++ closing :: ts, t.Spelled) (rest : List Derivation) :
    startsLambda (opening :: (tokensAll items ++ closing :: ts)) =
      beginsLambda (.group opening closing ho hc items :: rest) := by
  cases items with
  | nil =>
    rw [tokensAll, List.nil_append, startsLambda_cons_cons ho]
    exact not_lambdaNames_of_kind_ne (hspelled closing (by simp [tokensAll])) (by simp [hc])
  | cons item items =>
    obtain ⟨t, us, htokens, hkind⟩ := item.tokens_eq_cons
    have hshape : tokensAll (item :: items) ++ closing :: ts =
        t :: (us ++ (tokensAll items ++ closing :: ts)) := by
      rw [tokensAll, htokens, List.cons_append, List.cons_append, List.append_assoc]
    have ht : t.Spelled := hspelled t (by simp [hshape])
    rw [hshape, startsLambda_cons_cons ho]
    cases item with
    | atom u hu =>
      obtain ⟨rfl, -⟩ := List.cons.inj htokens
      rfl
    | quoted u hu e => exact not_lambdaNames_of_kind_ne ht (by simp [hkind, firstKind])
    | group u v hu hv inner => exact not_lambdaNames_of_kind_ne ht (by simp [hkind, firstKind])

theorem startsLambda_tokensAll {closing : Token} (hc : closing.kind = .rparen) (ds : List Derivation)
    (ts : List Token) (hspelled : ∀ t ∈ tokensAll ds ++ closing :: ts, t.Spelled) :
    startsLambda (tokensAll ds ++ closing :: ts) = beginsLambda ds := by
  cases ds with
  | nil => exact startsLambda_of_kind_ne (by simp [hc]) ts
  | cons d ds =>
    cases d with
    | atom t ht => exact startsLambda_of_kind_ne (by simp [ht]) _
    | quoted t ht e => exact startsLambda_of_kind_ne (by simp [ht]) _
    | group opening inner ho hi items =>
      have hshape : tokensAll (.group opening inner ho hi items :: ds) ++ closing :: ts =
          opening :: (tokensAll items ++ inner :: (tokensAll ds ++ closing :: ts)) := by
        simp [tokensAll, tokens]
      rw [hshape] at hspelled ⊢
      exact startsLambda_group ho hi items _ (fun t ht => hspelled t (List.mem_cons_of_mem _ ht)) ds

theorem definitionAfter?_of_head {t : Token} (h : t.kind ≠ .atom) (ts : List Token) :
    definitionAfter? (t :: ts) = none := by
  cases ts <;> simp [definitionAfter?, h]

theorem definitionAfter?_of_name (head : Token) {t : Token} (h : t.kind ≠ .atom) (ts : List Token) :
    definitionAfter? (head :: t :: ts) = none := by
  simp [definitionAfter?, h]

/-- The tokens of a group are looked at until its end only. -/
theorem definitionAfter?_group {opening closing : Token} (ho : opening.kind = .lparen)
    (hc : closing.kind = .rparen) (items : List Derivation) (ts : List Token)
    (hspelled : ∀ t ∈ tokensAll items ++ closing :: ts, t.Spelled) :
    definitionAfter? (tokensAll items ++ closing :: ts) =
      (Derivation.group opening closing ho hc items).definition? := by
  cases items with
  | nil => exact definitionAfter?_of_head (by simp [hc]) ts
  | cons head items =>
    cases head with
    | quoted t ht e => exact definitionAfter?_of_head (by simp [ht]) _
    | group t _ ht _ _ => exact definitionAfter?_of_head (by simp [ht]) _
    | atom head hhead =>
      cases items with
      | nil => exact definitionAfter?_of_name head (by simp [hc]) ts
      | cons name rest =>
        cases name with
        | quoted t ht e => exact definitionAfter?_of_name head (by simp [ht]) _
        | group t _ ht _ _ => exact definitionAfter?_of_name head (by simp [ht]) _
        | atom name hname =>
          have hrest : startsLambda (tokensAll rest ++ closing :: ts) = beginsLambda rest :=
            startsLambda_tokensAll hc rest ts fun t ht =>
              hspelled t (List.mem_cons_of_mem _ (List.mem_cons_of_mem _ ht))
          show definitionAfter? (head :: name :: (tokensAll rest ++ closing :: ts)) = _
          simp [definitionAfter?, Derivation.definition?, hhead, hname, hrest]

/-! ## The definitions among the tokens of expressions -/

theorem definitionsFrom_lparen_inside {t : Token} (h : t.kind = .lparen) (depth : Nat)
    (ts : List Token) : definitionsFrom (depth + 1) (t :: ts) = definitionsFrom (depth + 2) ts := by
  simp [definitionsFrom, h]

theorem definitionsFrom_rparen {t : Token} (h : t.kind = .rparen) (depth : Nat) (ts : List Token) :
    definitionsFrom (depth + 1) (t :: ts) = definitionsFrom depth ts := by
  simp [definitionsFrom, h]

theorem definitionsFrom_atom {t : Token} (h : t.kind = .atom) (depth : Nat) (ts : List Token) :
    definitionsFrom depth (t :: ts) = definitionsFrom depth ts := by
  simp [definitionsFrom, h]

theorem definitionsFrom_quote {t : Token} (h : t.kind = .quote) (depth : Nat) (ts : List Token) :
    definitionsFrom depth (t :: ts) = definitionsFrom depth ts := by
  simp [definitionsFrom, h]

mutual

/-- Inside a group nothing is found, and after an expression as many groups are open as before. -/
theorem definitionsFrom_tokens_inside (d : Derivation) (depth : Nat) (ts : List Token) :
    definitionsFrom (depth + 1) (d.tokens ++ ts) = definitionsFrom (depth + 1) ts := by
  cases d with
  | atom t ht => exact definitionsFrom_atom ht _ ts
  | quoted t ht e =>
    rw [tokens, List.cons_append, definitionsFrom_quote ht, definitionsFrom_tokens_inside e]
  | group opening closing ho hc items =>
    rw [tokens, List.cons_append, definitionsFrom_lparen_inside ho, List.append_assoc,
      definitionsFrom_tokensAll_inside items, List.singleton_append, definitionsFrom_rparen hc]

theorem definitionsFrom_tokensAll_inside (ds : List Derivation) (depth : Nat) (ts : List Token) :
    definitionsFrom (depth + 1) (tokensAll ds ++ ts) = definitionsFrom (depth + 1) ts := by
  cases ds with
  | nil => rfl
  | cons d ds =>
    rw [tokensAll, List.append_assoc, definitionsFrom_tokens_inside d,
      definitionsFrom_tokensAll_inside ds]

end

/-- An expression outside of all groups gives the definition it looks like. -/
theorem definitionsFrom_tokens (d : Derivation) (ts : List Token)
    (hspelled : ∀ t ∈ d.tokens ++ ts, t.Spelled) :
    definitionsFrom 0 (d.tokens ++ ts) = d.definition?.toList ++ definitionsFrom 0 ts := by
  cases d with
  | atom t ht => exact definitionsFrom_atom ht 0 ts
  | quoted t ht e =>
    rw [tokens, List.cons_append, definitionsFrom_quote ht]
    exact definitionsFrom_tokens e ts fun u hu => hspelled u (List.mem_cons_of_mem t hu)
  | group opening closing ho hc items =>
    have hshape : (Derivation.group opening closing ho hc items).tokens ++ ts =
        opening :: (tokensAll items ++ closing :: ts) := by
      simp [tokens]
    rw [hshape] at hspelled ⊢
    have hhere := definitionAfter?_group ho hc items ts fun t ht =>
      hspelled t (List.mem_cons_of_mem opening ht)
    have hopen : definitionsFrom 0 (opening :: (tokensAll items ++ closing :: ts)) =
        (definitionAfter? (tokensAll items ++ closing :: ts)).toList ++
          definitionsFrom 1 (tokensAll items ++ closing :: ts) := by
      simp [definitionsFrom, ho]
    rw [hopen, hhere, definitionsFrom_tokensAll_inside, definitionsFrom_rparen hc]

theorem definitionsFrom_tokensAll (ds : List Derivation)
    (hspelled : ∀ t ∈ tokensAll ds, t.Spelled) :
    definitionsFrom 0 (tokensAll ds) = ds.filterMap definition? := by
  induction ds with
  | nil => rfl
  | cons d ds ih =>
    rw [tokensAll] at hspelled ⊢
    rw [definitionsFrom_tokens d _ hspelled,
      ih fun t ht => hspelled t (List.mem_append_right d.tokens ht), List.filterMap_cons]
    cases d.definition? <;> rfl

end Editor

/-! ## The definitions that forms make -/

namespace Value

open Editor

/-- The name that a form defines. -/
def definedName? : Value → Option Text
  | .list (head :: name :: _) =>
    if head.symbol?.any definesNames.contains then name.symbol? else none
  | _ => none

/-- Whether the third element of a form is a `lambda` form. -/
def definesFunction : Value → Bool
  | .list (_ :: _ :: .list (head :: _) :: _) => head.symbol?.any lambdaNames.contains
  | _ => false

theorem symbol?_ofAtom (t : Text) :
    (ofAtom t).symbol? = if (Binary64.read? t).isSome then none else some t := by
  rw [ofAtom]
  cases Binary64.read? t <;> rfl

/-- A name that is no number can be recognised in an atom or in its value. -/
theorem any_symbol?_ofAtom {names : List Text} (hnames : ∀ t ∈ names, Binary64.read? t = none)
    (t : Text) : (ofAtom t).symbol?.any names.contains = names.contains t := by
  rw [symbol?_ofAtom]
  by_cases hread : (Binary64.read? t).isSome = true
  · have hnot : t ∉ names := fun hmem => by simp [hnames t hmem] at hread
    simp [hread, hnot]
  · simp [hread]

theorem read?_of_mem_definesNames : ∀ t ∈ definesNames, Binary64.read? t = none := by
  decide

theorem read?_of_mem_lambdaNames : ∀ t ∈ lambdaNames, Binary64.read? t = none := by
  decide

end Value

namespace Derivation

open Editor

/-- An expression looks like a definition of the name, but is quoted or has a number for a name. -/
def Mistaken (d : Derivation) (n : Text) : Prop :=
  d.definition?.map Definition.name = some n ∧ (d.isQuoted = true ∨ (Binary64.read? n).isSome = true)

instance (d : Derivation) (n : Text) : Decidable (d.Mistaken n) := inferInstanceAs (Decidable (_ ∧ _))

/-- Of a quoted expression the form is a `quote` form. -/
theorem definedName?_value_quoted (t : Token) (ht : t.kind = .quote) (e : Derivation) :
    (quoted t ht e).value.definedName? = none := rfl

theorem symbol?_value_quoted (t : Token) (ht : t.kind = .quote) (e : Derivation) :
    (quoted t ht e).value.symbol? = none := rfl

theorem symbol?_value_group (opening closing : Token) (ho : opening.kind = .lparen)
    (hc : closing.kind = .rparen) (items : List Derivation) :
    (group opening closing ho hc items).value.symbol? = none := rfl

theorem definedName?_value_group (opening closing : Token) (ho : opening.kind = .lparen)
    (hc : closing.kind = .rparen) (items : List Derivation) (n : Text) :
    (group opening closing ho hc items).value.definedName? = some n ↔
      Binary64.read? n = none ∧
        (group opening closing ho hc items).definition?.map Definition.name = some n := by
  rw [value]
  match items with
  | [] | [_] => simp [valueAll, Value.definedName?, definition?]
  | .quoted .. :: _ :: _ | .group .. :: _ :: _ =>
    simp [valueAll, Value.definedName?, symbol?_value_quoted, symbol?_value_group, definition?]
  | .atom head _ :: .quoted .. :: _ | .atom head _ :: .group .. :: _ =>
    simp [valueAll, Value.definedName?, symbol?_value_quoted, symbol?_value_group, definition?]
  | .atom head _ :: .atom name _ :: rest =>
    have hhead := Value.any_symbol?_ofAtom Value.read?_of_mem_definesNames head.text
    simp only [valueAll, value, Value.definedName?, definition?, hhead]
    rw [Value.symbol?_ofAtom name.text]
    by_cases hdefines : definesNames.contains head.text = true
    · rw [if_pos hdefines, if_pos hdefines, Option.map_some, Option.some.injEq]
      cases hread : Binary64.read? name.text <;> grind
    · rw [if_neg hdefines, if_neg hdefines]
      simp

/-- A form defines a name exactly if its expression looks so and is not mistaken for it. -/
theorem definedName?_value_eq_some_iff (d : Derivation) (n : Text) :
    d.value.definedName? = some n ↔
      d.definition?.map Definition.name = some n ∧ ¬d.Mistaken n := by
  cases d with
  | atom t ht =>
    have hatom : (Value.ofAtom t.text).definedName? = none := by
      rw [Value.ofAtom]
      cases Binary64.read? t.text <;> rfl
    simp [value, hatom, definition?]
  | quoted t ht e =>
    rw [definedName?_value_quoted]
    simp [Mistaken, isQuoted]
  | group opening closing ho hc items =>
    rw [definedName?_value_group]
    simp only [Mistaken, isQuoted, Option.isSome_iff_ne_none]
    grind

theorem definesFunction_value {d : Derivation} {found : Definition} (hquoted : d.isQuoted = false)
    (h : d.definition? = some found) : d.value.definesFunction = found.isFunction := by
  match d with
  | .atom .. => cases h
  | .quoted .. => cases hquoted
  | .group _ _ _ _ [] | .group _ _ _ _ [_] => simp [definition?] at h
  | .group _ _ _ _ (.quoted .. :: _ :: _) | .group _ _ _ _ (.group .. :: _ :: _) =>
    simp [definition?] at h
  | .group _ _ _ _ (.atom .. :: .quoted .. :: _) | .group _ _ _ _ (.atom .. :: .group .. :: _) =>
    simp [definition?] at h
  | .group _ _ _ _ (.atom head _ :: .atom name _ :: rest) =>
    rw [definition?] at h
    split at h
    next =>
      cases h
      match rest with
      | [] => rfl
      | .atom t _ :: _ =>
        simp only [value, valueAll, Value.ofAtom, beginsLambda]
        cases Binary64.read? t.text <;> rfl
      | .quoted .. :: _ => rfl
      | .group _ _ _ _ [] :: _ => rfl
      | .group _ _ _ _ (.quoted .. :: _) :: _ | .group _ _ _ _ (.group .. :: _) :: _ => rfl
      | .group _ _ _ _ (.atom first _ :: _) :: _ =>
        exact Value.any_symbol?_ofAtom Value.read?_of_mem_lambdaNames first.text
    next => cases h

end Derivation

namespace Editor

/-! ## The index and the forms -/

theorem get?_definitions (text n : Text) :
    (indexOf text).definitions.get? n =
      ((definitionsFrom 0 (lex text)).filter fun found => found.name == n).getLast? := by
  rw [indexOf, Table.get?_ofList, List.filter_map, List.getLast?_map, Option.map_map]
  exact Option.map_id'

/-- Where no expression is mistaken, the definitions of a name found are the forms that make them. -/
theorem map_isFunction_eq {ds : List Derivation} {n : Text} (h : ∀ d ∈ ds, ¬d.Mistaken n) :
    ((ds.filterMap Derivation.definition?).filter fun found => found.name == n).map
        Definition.isFunction =
      ((ds.map Derivation.value).filter fun form => form.definedName? == some n).map
        Value.definesFunction := by
  induction ds with
  | nil => rfl
  | cons d ds ih =>
    have hrest := ih fun e he => h e (List.mem_cons_of_mem d he)
    have hd := d.definedName?_value_eq_some_iff n
    have hnot := h d List.mem_cons_self
    cases hfound : d.definition? with
    | none =>
      have hform : ¬d.value.definedName? = some n := by simp [hd, hfound]
      simp [hfound, hform, hrest]
    | some found =>
      by_cases hname : found.name = n
      · have hform : d.value.definedName? = some n := by simp [hd, hfound, hname, hnot]
        have hquoted : d.isQuoted = false := by
          refine Bool.eq_false_iff.mpr fun hquoted => hnot ⟨?_, .inl hquoted⟩
          simp [hfound, hname]
        have hkind := Derivation.definesFunction_value hquoted hfound
        simp [hfound, hname, hform, hkind, hrest]
      · have hform : ¬d.value.definedName? = some n := by simp [hd, hfound, hname]
        simp [hfound, hname, hform, hrest]

theorem exists_definition_iff (ds : List Derivation) (n : Text) :
    (∃ d ∈ ds, d.definition?.map Definition.name = some n) ↔
      (∃ form ∈ ds.map Derivation.value, form.definedName? = some n) ∨ ∃ d ∈ ds, d.Mistaken n := by
  constructor
  · rintro ⟨d, hd, hlooks⟩
    by_cases hmistaken : d.Mistaken n
    · exact .inr ⟨d, hd, hmistaken⟩
    · exact .inl ⟨d.value, List.mem_map_of_mem hd,
        (d.definedName?_value_eq_some_iff n).mpr ⟨hlooks, hmistaken⟩⟩
  · rintro (⟨form, hform, hname⟩ | ⟨d, hd, hlooks, -⟩)
    · obtain ⟨d, hd, rfl⟩ := List.mem_map.mp hform
      exact ⟨d, hd, ((d.definedName?_value_eq_some_iff n).mp hname).1⟩
    · exact ⟨d, hd, hlooks⟩

theorem getLast?_isSome_iff (ds : List Derivation) (n : Text) :
    ((ds.filterMap Derivation.definition?).filter fun found => found.name == n).getLast?.isSome =
        true ↔
      ∃ d ∈ ds, d.definition?.map Definition.name = some n := by
  rw [List.getLast?_isSome]
  simp only [ne_eq, List.filter_eq_nil_iff, List.mem_filterMap, Option.map_eq_some_iff]
  grind

/-- Of a text that can be read, the index has the names that its forms define, and besides them those of
expressions that only look like definitions because they are quoted or have a number for a name.  The
last expression that looks like a definition of a name counts; unless one is mistaken for it, this is
the last form that defines the name, and the kind of the definition is that of the form. -/
theorem indexOf_definitions_of_read (text : Text) (h : (read text).error = none) :
    ∃ ds, Derivation.tokensAll ds = lex text ∧ (read text).forms = ds.map Derivation.value ∧ ∀ n,
      (n ∈ (indexOf text).definitions.keys ↔
        (∃ form ∈ (read text).forms, form.definedName? = some n) ∨ ∃ d ∈ ds, d.Mistaken n) ∧
      (indexOf text).definitions.get? n =
        ((ds.filterMap Derivation.definition?).filter fun found => found.name == n).getLast? ∧
      ((∀ d ∈ ds, ¬d.Mistaken n) →
        ((indexOf text).definitions.get? n).map Definition.isFunction =
          ((read text).forms.filter fun form => form.definedName? == some n).getLast?.map
            Value.definesFunction) := by
  obtain ⟨ds, htokens⟩ := Reader.exists_derivations [] (lex text) h
  have htokens : Derivation.tokensAll ds = lex text := htokens
  have hforms : (read text).forms = ds.map Derivation.value := by
    rw [read, ← htokens, Reader.readAll_program, Derivation.valueAll_eq_map]
  have hfound : definitionsFrom 0 (lex text) = ds.filterMap Derivation.definition? := by
    rw [← htokens]
    exact definitionsFrom_tokensAll ds fun t ht => Token.spelled_of_mem_lex (htokens ▸ ht)
  have hget (n : Text) := get?_definitions text n
  rw [hfound] at hget
  refine ⟨ds, htokens, hforms, fun n => ⟨?_, hget n, fun hnot => ?_⟩⟩
  · rw [Table.mem_keys_iff_isSome_get?, hget, getLast?_isSome_iff, exists_definition_iff, hforms]
  · rw [hget, hforms, ← List.getLast?_map, ← List.getLast?_map, map_isFunction_eq hnot]

/-- The expressions of `(def f (lambda (x) x)) '(def g 1)`. -/
def functionAndQuotedDefinition : List Derivation :=
  [.group ⟨.lparen, "(", 1, 1⟩ ⟨.rparen, ")", 1, 22⟩ rfl rfl
      [.atom ⟨.atom, "def", 1, 2⟩ rfl, .atom ⟨.atom, "f", 1, 6⟩ rfl,
        .group ⟨.lparen, "(", 1, 8⟩ ⟨.rparen, ")", 1, 21⟩ rfl rfl
          [.atom ⟨.atom, "lambda", 1, 9⟩ rfl,
            .group ⟨.lparen, "(", 1, 16⟩ ⟨.rparen, ")", 1, 18⟩ rfl rfl [.atom ⟨.atom, "x", 1, 17⟩ rfl],
            .atom ⟨.atom, "x", 1, 20⟩ rfl]],
    .quoted ⟨.quote, "'", 1, 24⟩ rfl
      (.group ⟨.lparen, "(", 1, 25⟩ ⟨.rparen, ")", 1, 33⟩ rfl rfl
        [.atom ⟨.atom, "def", 1, 26⟩ rfl, .atom ⟨.atom, "g", 1, 30⟩ rfl, .atom ⟨.atom, "1", 1, 32⟩ rfl])]

theorem indexOf_definitions_of_read_function :
    (read "(def f (lambda (x) x)) '(def g 1)").error = none ∧
      ((indexOf "(def f (lambda (x) x)) '(def g 1)").definitions.get? "f").map Definition.isFunction =
        some true ∧
      ("g" : Text) ∈ (indexOf "(def f (lambda (x) x)) '(def g 1)").definitions.keys := by
  have hread : (read "(def f (lambda (x) x)) '(def g 1)").error = none := by rfl
  obtain ⟨ds, htokens, -, hnames⟩ := indexOf_definitions_of_read _ hread
  have hds : ds = functionAndQuotedDefinition := Derivation.tokensAll_inj (htokens.trans rfl)
  subst hds
  refine ⟨hread, ((hnames "f").2.2 (by decide)).trans (by decide), (hnames "g").1.mpr (.inr ?_)⟩
  decide

/-- A quoted list and a list with a number for a name define nothing and are in the index; and a quoted
list can change the kind of a name that a form defines. -/
theorem definitions_of_quoted_and_numbered :
    ((read "'(def x 1)").error = none ∧ (indexOf "'(def x 1)").definitions.keys = [("x" : Text)] ∧
        ∀ form ∈ (read "'(def x 1)").forms, form.definedName? ≠ some "x") ∧
      ((read "(def 5 1)").error = none ∧ (indexOf "(def 5 1)").definitions.keys = [("5" : Text)] ∧
        ∀ form ∈ (read "(def 5 1)").forms, form.definedName? ≠ some "5") ∧
      (read "(def f (lambda (x) x)) '(def f 1)").error = none ∧
        ((indexOf "(def f (lambda (x) x)) '(def f 1)").definitions.get? "f").map
          Definition.isFunction = some false ∧
        ((read "(def f (lambda (x) x)) '(def f 1)").forms.filter fun form =>
          form.definedName? == some ("f" : Text)).getLast?.map Value.definesFunction = some true := by
  exact ⟨⟨rfl, rfl, by decide⟩, ⟨rfl, rfl, by decide⟩, rfl, rfl, rfl⟩

end Editor
end SmallLisp

import SmallLisp.Proofs.Editor.Definitions
import SmallLisp.Proofs.Reader.Layout

/-!
Where the entries of an index stand in a document, which need not be readable.

A definition begins at a place in the tokens of the document (`Site`): outside of all parentheses there are
an opening one, `def` or `define` and a name.  The index lists the definitions in the order of their sites
(`definitionsFrom_cons`), so the entry of a name is the definition at the last site of the name.
-/

namespace SmallLisp
namespace Editor

/-- How many parentheses are open after one more token; one that closes nothing changes nothing. -/
def nest (depth : Nat) (t : Token) : Nat :=
  match t.kind with
  | .lparen => depth + 1
  | .rparen => depth - 1
  | .quote | .atom => depth

/-- Three tokens that follow each other, with the tokens before and after them. -/
structure Site where
  before : List Token
  opening : Token
  head : Token
  name : Token
  after : List Token

namespace Site

def tokens (s : Site) : List Token := s.before ++ s.opening :: s.head :: s.name :: s.after

/-- Outside of all parentheses a definition begins, and `name` is what it defines. -/
structure Defines (s : Site) : Prop where
  outside : s.before.foldl nest 0 = 0
  opens : s.opening.kind = .lparen
  headAtom : s.head.kind = .atom
  head_mem : s.head.text ∈ definesNames
  nameAtom : s.name.kind = .atom

/-- What the index says of it. -/
def definition (s : Site) : Definition :=
  ⟨s.name.text, startsLambda s.after, s.name.line - 1, s.name.column - 1⟩

/-- Among these tokens a definition begins here, and none of the same name begins further on. -/
structure LastIn (ts : List Token) (s : Site) : Prop where
  tokens_eq : s.tokens = ts
  defines : s.Defines
  last : ∀ other : Site, other.tokens = ts → other.Defines → other.name.text = s.name.text →
    other.before.length ≤ s.before.length

end Site

/-- What stands in a span of a text. -/
def Span.textIn (source : Text) (span : Span) : Option Text :=
  (Text.splitOn (.char '\n') source)[span.line]?.map fun line =>
    (line.drop span.character).take span.length

/-! ## The definition that begins with a token -/

def definitionHere? (depth : Nat) : List Token → Option Definition
  | [] => none
  | t :: ts => if t.kind = .lparen ∧ depth = 0 then definitionAfter? ts else none

theorem definitionsFrom_cons (depth : Nat) (t : Token) (ts : List Token) :
    definitionsFrom depth (t :: ts) =
      (definitionHere? depth (t :: ts)).toList ++ definitionsFrom (nest depth t) ts := by
  obtain ⟨kind, text, line, column⟩ := t
  cases kind with
  | lparen =>
    by_cases h : depth = 0
    · simp [definitionsFrom, definitionHere?, nest, h]
    · simp [definitionsFrom, definitionHere?, nest, h]
  | rparen | quote | atom => simp [definitionsFrom, definitionHere?, nest]

theorem Site.Defines.here {s : Site} (h : s.Defines) :
    definitionHere? (s.before.foldl nest 0) (s.opening :: s.head :: s.name :: s.after) =
      some s.definition := by
  rw [definitionHere?, if_pos ⟨h.opens, h.outside⟩, definitionAfter?,
    if_pos ⟨h.headAtom, List.contains_iff_mem.mpr h.head_mem, h.nameAtom⟩]
  rfl

theorem exists_site {before rest : List Token} {found : Definition}
    (h : definitionHere? (before.foldl nest 0) rest = some found) :
    ∃ site : Site, site.before = before ∧ site.tokens = before ++ rest ∧ site.Defines ∧
      site.definition = found := by
  match rest with
  | [] => cases h
  | [_] | [_, _] => simp [definitionHere?, definitionAfter?] at h
  | opening :: head :: name :: after =>
    rw [definitionHere?] at h
    split at h
    next hopens =>
      rw [definitionAfter?] at h
      split at h
      next hshape =>
        refine ⟨⟨before, opening, head, name, after⟩, rfl, rfl, ?_, Option.some.inj h⟩
        exact ⟨hopens.2, hopens.1, hshape.1, List.contains_iff_mem.mp hshape.2.1, hshape.2.2⟩
      next => cases h
    next => cases h

/-! ## The last definition of a name -/

theorem mem_definitionsFrom {depth : Nat} {before rest : List Token} {found : Definition}
    (h : definitionHere? (before.foldl nest depth) rest = some found) :
    found ∈ definitionsFrom depth (before ++ rest) := by
  induction before generalizing depth with
  | nil =>
    cases rest with
    | nil => cases h
    | cons t ts =>
      rw [List.foldl_nil] at h
      rw [List.nil_append, definitionsFrom_cons, h]
      exact List.mem_append_left _ (List.mem_singleton_self found)
  | cons t ts ih =>
    rw [List.cons_append, definitionsFrom_cons]
    exact List.mem_append_right _ (ih h)

theorem exists_last_definition {depth : Nat} {ts : List Token} {found : Definition}
    {p : Definition → Bool} (h : ((definitionsFrom depth ts).filter p).getLast? = some found) :
    ∃ before rest, ts = before ++ rest ∧ definitionHere? (before.foldl nest depth) rest = some found ∧
      ∀ before' rest' other, ts = before' ++ rest' →
        definitionHere? (before'.foldl nest depth) rest' = some other → p other = true →
        before'.length ≤ before.length := by
  induction ts generalizing depth with
  | nil => cases h
  | cons t ts ih =>
    rw [definitionsFrom_cons, List.filter_append, List.getLast?_append] at h
    cases hlater : ((definitionsFrom (nest depth t) ts).filter p).getLast? with
    | some later =>
      rw [hlater, Option.some_or] at h
      cases h
      obtain ⟨before, rest, rfl, hhere, hlast⟩ := ih hlater
      refine ⟨t :: before, rest, rfl, hhere, fun before' rest' other hts hother hp => ?_⟩
      cases before' with
      | nil => exact Nat.zero_le _
      | cons u us =>
        obtain ⟨rfl, hrest⟩ := List.cons.inj hts
        exact Nat.succ_le_succ (hlast us rest' other hrest hother hp)
    | none =>
      rw [hlater, Option.none_or] at h
      have hnone := List.getLast?_eq_none_iff.mp hlater
      refine ⟨[], t :: ts, rfl, ?_, fun before' rest' other hts hother hp => ?_⟩
      · have hmem := (List.mem_filter.mp (List.mem_of_getLast? h)).1
        exact Option.mem_toList.mp hmem
      · cases before' with
        | nil => exact Nat.zero_le _
        | cons u us =>
          obtain ⟨rfl, hrest⟩ := List.cons.inj hts
          have hmem : other ∈ definitionsFrom (nest depth t) ts :=
            hrest ▸ mem_definitionsFrom hother
          rw [List.filter_eq_nil_iff] at hnone
          exact absurd hp (hnone other hmem)

/-! ## The entries of an index -/

/-- The entry of a name is the definition at its last site. -/
theorem exists_lastIn {text n : Text} {found : Definition}
    (h : (indexOf text).definitions.get? n = some found) :
    ∃ site : Site, site.LastIn (lex text) ∧ site.name.text = n ∧ site.definition = found := by
  rw [get?_definitions] at h
  have hname : found.name = n := by
    simpa using (List.mem_filter.mp (List.mem_of_getLast? h)).2
  obtain ⟨before, rest, htokens, hhere, hlast⟩ := exists_last_definition h
  obtain ⟨site, rfl, hsite, hdefines, rfl⟩ := exists_site hhere
  refine ⟨site, ⟨hsite.trans htokens.symm, hdefines, fun other hother hdef heq => ?_⟩, hname, rfl⟩
  refine hlast _ _ other.definition hother.symm hdef.here ?_
  exact beq_iff_eq.mpr (heq.trans hname)

theorem Site.Defines.mem_keys {text : Text} {s : Site} (h : s.Defines) (htokens : s.tokens = lex text) :
    s.name.text ∈ (indexOf text).definitions.keys := by
  have hmem : s.definition ∈ definitionsFrom 0 (lex text) := htokens ▸ mem_definitionsFrom h.here
  rw [Table.mem_keys_iff_isSome_get?, get?_definitions, List.getLast?_isSome]
  exact List.ne_nil_of_mem (List.mem_filter.mpr ⟨hmem, beq_iff_eq.mpr rfl⟩)

theorem Site.name_mem (s : Site) : s.name ∈ s.tokens := by simp [tokens]

/-- A token of a text stands in a line and a column, counted from one. -/
theorem one_le_of_mem_lex {text : Text} {t : Token} (ht : t ∈ lex text) : 1 ≤ t.line ∧ 1 ≤ t.column := by
  obtain ⟨before, after, -, hplaced, -⟩ := Token.exists_stands_of_mem_lex ht
  rw [hplaced]
  exact ⟨Nat.le_add_left 1 _, Nat.le_add_left 1 _⟩

/-- Where a name is bound at a site, the name is there. -/
theorem Site.textIn_eq {text : Text} {s : Site} (htokens : s.tokens = lex text) :
    Span.textIn text ⟨s.definition.line, s.definition.character, s.name.text.length⟩ =
      some s.name.text :=
  Token.slice_of_mem_lex (htokens ▸ s.name_mem)

/-- In every document, readable or not, the entry of a name is the definition that begins at the last
site of the name, and stands where the name stands there; and every site has an entry for its name.  So a
span of the outline holds the name that it is of. -/
theorem indexOf_definitions_at_sites (text : Text) :
    (∀ n found, (n, found) ∈ (indexOf text).definitions →
      ∃ site : Site, site.LastIn (lex text) ∧ site.name.text = n ∧ site.definition = found ∧
        found.line + 1 = site.name.line ∧ found.character + 1 = site.name.column ∧
        Span.textIn text ⟨found.line, found.character, n.length⟩ = some n) ∧
    (∀ site : Site, site.tokens = lex text → site.Defines →
      site.name.text ∈ (indexOf text).definitions.keys) ∧
    ∀ entry ∈ outline (indexOf text), entry.span.textIn text = some entry.name := by
  have hentries (n : Text) (found : Definition) (h : (n, found) ∈ (indexOf text).definitions) :
      ∃ site : Site, site.LastIn (lex text) ∧ site.name.text = n ∧ site.definition = found ∧
        found.line + 1 = site.name.line ∧ found.character + 1 = site.name.column ∧
        Span.textIn text ⟨found.line, found.character, n.length⟩ = some n := by
    have hget := (Table.get?_eq_some_iff (Table.nodup_keys_ofList _) n found).mpr h
    obtain ⟨site, hlast, rfl, rfl⟩ := exists_lastIn hget
    obtain ⟨hline, hcolumn⟩ := one_le_of_mem_lex (hlast.tokens_eq ▸ site.name_mem)
    refine ⟨site, hlast, rfl, rfl, ?_, ?_, Site.textIn_eq hlast.tokens_eq⟩
    · exact Nat.sub_add_cancel hline
    · exact Nat.sub_add_cancel hcolumn
  refine ⟨hentries, fun site htokens hdefines => hdefines.mem_keys htokens, fun entry hentry => ?_⟩
  obtain ⟨⟨n, found⟩, hmem, rfl⟩ := List.mem_map.mp hentry
  obtain ⟨_, _, _, _, _, _, htext⟩ := hentries n found hmem
  exact htext

/-- Parentheses without a partner open nothing, and the later definition counts. -/
theorem indexOf_definitions_at_sites_unreadable :
    (("f", ⟨"f", true, 1, 6⟩) : Text × Definition) ∈
        (indexOf ")(define f 1) )\n'(def f (lambda (x) x)) (def").definitions ∧
      Span.textIn ")(define f 1) )\n'(def f (lambda (x) x)) (def" ⟨1, 6, 1⟩ = some "f" := by
  have hmem : (("f", ⟨"f", true, 1, 6⟩) : Text × Definition) ∈
      (indexOf ")(define f 1) )\n'(def f (lambda (x) x)) (def").definitions := by decide
  obtain ⟨_, _, _, _, _, _, htext⟩ := (indexOf_definitions_at_sites _).1 _ _ hmem
  exact ⟨hmem, htext⟩

end Editor
end SmallLisp

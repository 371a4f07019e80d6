import Mathlib.Data.List.Basic
import Mathlib.Data.List.Induction
import SmallLisp.Environment
import SmallLisp.Proofs.Eval.Effect
import SmallLisp.Proofs.Store.Ownership

/-!
Environments and the history of the calls on them.

A `History` is a sequence of calls that make frames, bind a name in a frame or bind the names of a
mapping there.  A call that is refused halfway leaves behind what it has bound by then.  The history alone
tells what has been bound in a frame, and in which order (`log`), and which frames are seen from it
(`chain`).  Each call keeps the store in step with both (`Follows`), so every answer about names can be
read off the history (`answers_follow_history`).
-/

namespace SmallLisp

/-! ## Tables -/

namespace Table

variable {α : Type}

/-- The keys stand in the order in which they are first written. -/
theorem keys_ofList (entries : List (Text × α)) :
    (ofList entries).keys = (entries.map Prod.fst).eraseDups := by
  induction entries using List.reverseRecOn with
  | nil => rfl
  | append_singleton entries entry ih =>
    have hmem : entry.1 ∈ (ofList entries).keys ↔ entry.1 ∈ entries.map Prod.fst := by
      rw [ih, List.mem_eraseDups]
    rw [ofList_concat, keys_insert, List.map_append, List.eraseDups_append, ← ih]
    by_cases h : entry.1 ∈ entries.map Prod.fst
    · rw [if_pos (hmem.mpr h)]
      simp [List.removeAll, h]
    · rw [if_neg (hmem.not.mpr h)]
      simp [List.removeAll, h, List.eraseDups_cons]

/-- A table that has each key once is told by its keys and by what it answers. -/
theorem eq_filterMap_keys {t : Table α} (h : t.keys.Nodup) :
    t = t.keys.filterMap fun key => (t.get? key).map fun value => (key, value) := by
  induction t with
  | nil => rfl
  | cons entry rest ih =>
    obtain ⟨k, v⟩ := entry
    obtain ⟨hk, hrest⟩ := List.nodup_cons.mp h
    have hlater : (keys rest).filterMap (fun key => (get? key ((k, v) :: rest)).map fun value =>
        (key, value)) = rest := by
      refine (List.filterMap_congr fun key hkey => ?_).trans (ih hrest).symm
      have hne : k ≠ key := fun heq => hk (heq ▸ hkey)
      rw [get?_cons, if_neg hne]
    show (k, v) :: rest = (k :: keys rest).filterMap _
    rw [List.filterMap_cons, get?_cons, if_pos rfl, hlater]
    rfl

end Table

namespace Environment

/-! ## What a call binds -/

/-- The bindings of the pairs before the first whose key is not a symbol. -/
def accepted : List (Value × Value) → List (Text × Value)
  | [] => []
  | (key, v) :: rest =>
    match key.symbol? with
    | some name => (name, v) :: accepted rest
    | none => []

/-- The first key that is not a symbol. -/
def offending? (pairs : List (Value × Value)) : Option Value :=
  (pairs.map Prod.fst).find? fun key => key.symbol?.isNone

/-- How a call ends that has come to this key, if so many stack frames are left for writing it out. -/
def refusal (stack : Nat) : Option Value → Except Fault Unit
  | none => .ok ()
  | some key =>
    .error (if key.inspectsWithin stack then .error (.invalidName key.inspectName) else .overflow)

theorem eq_symbol_of_symbol? {key : Value} {name : Text} (h : key.symbol? = some name) :
    key = .symbol name := by
  cases key <;> cases h
  rfl

section NotSymbol

variable {key : Value} (h : key.symbol? = none) (v : Value) (rest : List (Value × Value))
include h

theorem accepted_of_not_symbol : accepted ((key, v) :: rest) = [] := by simp [accepted, h]

theorem offending?_of_not_symbol : offending? ((key, v) :: rest) = some key := by
  simp [offending?, h]

theorem define_of_not_symbol (stack frame : Nat) (s : State) :
    define stack frame key v s = (refusal stack (some key), s) := by
  have hdefine : define stack frame key v =
      nameText stack key >>= fun text => Run.fail (.invalidName text) := by
    cases key with
    | symbol name => cases h
    | number | bool | list | closure | builtin | unspecified => rfl
  rw [hdefine, nameText, refusal]
  split <;> rfl

end NotSymbol

theorem define_eq (stack frame : Nat) (name v : Value) (s : State) :
    define stack frame name v s =
      (refusal stack (offending? [(name, v)]),
        { s with store := s.store.defineAll frame (accepted [(name, v)]) }) := by
  cases hname : name.symbol? with
  | some x =>
    rw [eq_symbol_of_symbol? hname]
    rfl
  | none =>
    rw [define_of_not_symbol hname, accepted_of_not_symbol hname, offending?_of_not_symbol hname]
    rfl

theorem defineEach_eq (stack frame : Nat) (pairs : List (Value × Value)) (s : State) :
    defineEach stack frame pairs s =
      (refusal stack (offending? pairs),
        { s with store := s.store.defineAll frame (accepted pairs) }) := by
  induction pairs generalizing s with
  | nil => rfl
  | cons pair rest ih =>
    obtain ⟨key, v⟩ := pair
    show (define stack frame key v >>= fun _ => defineEach stack frame rest : Run Unit) s = _
    cases hkey : key.symbol? with
    | some name =>
      rw [eq_symbol_of_symbol? hkey]
      exact ih { s with store := s.store.define frame name v }
    | none =>
      rw [accepted_of_not_symbol hkey, offending?_of_not_symbol hkey]
      exact Run.bind_error (define_of_not_symbol hkey v stack frame s)

/-! ## Mappings -/

/-- Keys with values, each key once; a list cannot be a key. -/
structure Mapping where
  entries : List (Value × Value)
  not_list : ∀ entry ∈ entries, entry.1.list? = none
  nodup : (entries.filterMap fun entry => entry.1.symbol?).Nodup

theorem insertPair_of_not_mem {name : Text} {pairs : List (Value × Value)}
    (h : name ∉ pairs.filterMap fun pair => pair.1.symbol?) (v : Value) :
    insertPair name v pairs = pairs ++ [(.symbol name, v)] := by
  induction pairs with
  | nil => rfl
  | cons pair rest ih =>
    obtain ⟨key, w⟩ := pair
    have hkey : key.symbol? ≠ some name := fun heq =>
      h (List.mem_filterMap.mpr ⟨_, List.mem_cons_self, heq⟩)
    have hrest : name ∉ rest.filterMap fun pair => pair.1.symbol? := by
      intro hmem
      obtain ⟨pair, hpair, heq⟩ := List.mem_filterMap.mp hmem
      exact h (List.mem_filterMap.mpr ⟨pair, List.mem_cons_of_mem _ hpair, heq⟩)
    rw [insertPair, if_neg hkey, ih hrest]
    rfl

/-- There is nothing to collapse where each symbol stands once. -/
theorem collapse_eq {pairs : List (Value × Value)}
    (h : (pairs.filterMap fun pair => pair.1.symbol?).Nodup) : collapse pairs = pairs := by
  induction pairs using List.reverseRecOn with
  | nil => rfl
  | append_singleton pairs pair ih =>
    obtain ⟨key, v⟩ := pair
    rw [List.filterMap_append] at h
    have hpairs := ih (List.nodup_append.mp h).1
    rw [collapse] at hpairs ⊢
    rw [List.foldl_append, hpairs]
    cases key with
    | symbol name =>
      refine insertPair_of_not_mem (fun hmem => ?_) v
      exact (List.nodup_append.mp h).2.2 name hmem name List.mem_cons_self rfl
    | number | bool | list | closure | builtin | unspecified => rfl

theorem update_eq (stack frame : Nat) (m : Mapping) (s : State) :
    update stack frame m.entries s =
      (refusal stack (offending? m.entries),
        { s with store := s.store.defineAll frame (accepted m.entries) }) := by
  have hlists : ¬(m.entries.any fun pair => pair.1.list?.isSome) = true := by
    rw [List.any_eq_true]
    rintro ⟨entry, hentry, hlist⟩
    rw [m.not_list entry hentry] at hlist
    cases hlist
  rw [update, if_neg hlists, collapse_eq m.nodup, defineEach_eq]

/-! ## Histories -/

/-- Calls that have made so many frames.  A call names only frames that were made before it. -/
inductive History : (made : Nat) → Type
  | start : History 0
  | new {made : Nat} (h : History made) (outer : Option (Fin made)) : History (made + 1)
  | define {made : Nat} (h : History made) (stack : Nat) (frame : Fin made) (name v : Value) :
    History made
  | update {made : Nat} (h : History made) (stack : Nat) (frame : Fin made) (m : Mapping) :
    History made

namespace History

variable {made : Nat}

/-- The state after the calls, which go on whether a call is refused or not. -/
def after {made : Nat} (h : History made) (s : State) : State :=
  match h with
  | .start => { s with store := .empty }
  | .new h outer => (Environment.new (outer.map Fin.val) (h.after s)).2
  | .define h stack frame name v => (Environment.define stack frame name v (h.after s)).2
  | .update h stack frame m => (Environment.update stack frame m.entries (h.after s)).2

/-- What has been bound in frame `i`, in order. -/
def log {made : Nat} (h : History made) (i : Nat) : List (Text × Value) :=
  match h with
  | .start => []
  | .new h _ => h.log i
  | .define h _ frame name v => h.log i ++ if i = frame then accepted [(name, v)] else []
  | .update h _ frame m => h.log i ++ if i = frame then accepted m.entries else []

/-- The frames seen from frame `i`, innermost first. -/
def chain {made : Nat} (h : History made) (i : Nat) : List Nat :=
  match made, h with
  | _, .start => []
  | made + 1, .new h outer =>
    if i = made then
      i :: match outer with
        | some j => h.chain j
        | none => []
    else h.chain i
  | _, .define h .. => h.chain i
  | _, .update h .. => h.chain i

/-- The names ever bound in frame `i`, in the order in which they were bound first. -/
def names (h : History made) (i : Nat) : List Text := ((h.log i).map Prod.fst).eraseDups

/-- The value most recently bound to a name in frame `i`. -/
def last? (h : History made) (i : Nat) (name : Text) : Option Value :=
  ((h.log i).filter fun entry => entry.1 == name).getLast?.map Prod.snd

/-- The names of frame `i` with their values. -/
def listing (h : History made) (i : Nat) : Table Value :=
  (h.names i).filterMap fun name => (h.last? i name).map fun v => (name, v)

/-- The nearest frame seen from `i` in which a name was ever bound. -/
def nearest? (h : History made) (i : Nat) (name : Text) : Option Nat :=
  (h.chain i).find? fun j => decide (name ∈ h.names j)

theorem chain_new (h : History made) (outer : Option (Fin made)) (i : Nat) :
    (h.new outer).chain i =
      if i = made then
        i :: match outer with
          | some j => h.chain j
          | none => []
      else h.chain i :=
  rfl

/-! ## The store after a history -/

/-- The frames of a store are those of the history, and hold what it has bound in them. -/
structure Follows (h : History made) (s : Store) : Prop where
  size_eq : s.frames.size = made
  bindings_eq (i : Nat) : s.bindings i = Table.ofList (h.log i)
  rooted {i : Nat} : i < made → ∃ g, s.Rooted g i
  chain_eq {i : Nat} : i < made → s.chain i = h.chain i

theorem follows_start : Follows .start .empty where
  size_eq := rfl
  bindings_eq _ := rfl
  rooted hi := absurd hi (Nat.not_lt_zero _)
  chain_eq hi := absurd hi (Nat.not_lt_zero _)

theorem Follows.new {h : History made} {s : Store} (hs : h.Follows s) (outer : Option (Fin made)) :
    (h.new outer).Follows (s.newFrame (outer.map Fin.val)).2 := by
  have hgrows := s.grows_newFrame (outer.map Fin.val)
  have houter := s.outer?_newFrame_size (outer.map Fin.val)
  have hlast : ∃ g, (s.newFrame (outer.map Fin.val)).2.Rooted g s.frames.size := by
    cases outer with
    | none => exact ⟨_, Store.rooted_newFrame_none s⟩
    | some j =>
      obtain ⟨g, hg⟩ := hs.rooted j.isLt
      exact ⟨g, Store.rooted_newFrame_some hg⟩
  rw [hs.size_eq] at houter hlast
  refine ⟨?_, fun i => ?_, fun {i} hi => ?_, fun {i} hi => ?_⟩
  · rw [Store.size_newFrame, hs.size_eq]
  · rw [Store.bindings_newFrame, hs.bindings_eq]
    rfl
  · rcases Nat.lt_succ_iff_lt_or_eq.mp hi with hi | rfl
    · obtain ⟨g, hg⟩ := hs.rooted hi
      exact ⟨g, hg.mono hgrows⟩
    · exact hlast
  · rw [chain_new]
    split
    next heq =>
      subst heq
      obtain ⟨g, hg⟩ := hlast
      cases outer with
      | none => exact hg.chain_of_none houter
      | some j =>
        obtain ⟨g', hg'⟩ := hs.rooted j.isLt
        rw [hg.chain_of_outer? houter]
        show i :: _ = i :: h.chain j
        rw [← hs.chain_eq j.isLt]
        exact congrArg _ (hg'.chain_eq hgrows)
    next hne =>
      have hold : i < made := by omega
      obtain ⟨g, hg⟩ := hs.rooted hold
      rw [hg.chain_eq hgrows, hs.chain_eq hold]

/-- Binding names in a frame adds to its log, and the frames seen are the same. -/
theorem Follows.defineAll {h h' : History made} {s : Store} (hs : h.Follows s) (frame : Fin made)
    {entries : List (Text × Value)}
    (hlog : ∀ i, h'.log i = h.log i ++ if i = frame then entries else [])
    (hchain : ∀ i, h'.chain i = h.chain i) : h'.Follows (s.defineAll frame entries) := by
  have hframe : frame.val < s.frames.size := by
    rw [hs.size_eq]
    exact frame.isLt
  have hgrows := Store.grows_defineAll hframe entries
  refine ⟨?_, fun i => ?_, fun {i} hi => ?_, fun {i} hi => ?_⟩
  · rw [Store.size_defineAll, hs.size_eq]
  · rw [hlog]
    by_cases hi : i = frame
    · subst hi
      rw [if_pos rfl, Store.bindings_defineAll_self hframe, hs.bindings_eq, Table.ofList, Table.ofList,
        List.foldl_append]
    · rw [if_neg hi, List.append_nil, Store.bindings_defineAll_of_ne s hi, hs.bindings_eq]
  · obtain ⟨g, hg⟩ := hs.rooted hi
    exact ⟨g, hg.mono hgrows⟩
  · obtain ⟨g, hg⟩ := hs.rooted hi
    rw [hchain, hg.chain_eq hgrows, hs.chain_eq hi]

theorem follows_after (h : History made) (s : State) : h.Follows (h.after s).store := by
  induction h with
  | start => exact follows_start
  | new h outer ih => exact ih.new outer
  | define h stack frame name v ih =>
    rw [after, define_eq]
    exact ih.defineAll frame (fun _ => rfl) fun _ => rfl
  | update h stack frame m ih =>
    rw [after, update_eq]
    exact ih.defineAll frame (fun _ => rfl) fun _ => rfl

/-! ## What a client is told -/

theorem listing_eq (h : History made) (i : Nat) : h.listing i = Table.ofList (h.log i) := by
  have hlisted := Table.eq_filterMap_keys (Table.nodup_keys_ofList (h.log i))
  rw [Table.keys_ofList] at hlisted
  rw [hlisted, listing]
  refine List.filterMap_congr fun name _ => ?_
  rw [Table.get?_ofList]
  rfl

theorem keys_listing (h : History made) (i : Nat) : (h.listing i).keys = h.names i := by
  rw [listing_eq, Table.keys_ofList]
  rfl

theorem length_listing (h : History made) (i : Nat) : (h.listing i).length = (h.names i).length := by
  rw [← keys_listing, Table.keys, List.length_map]

theorem get?_listing (h : History made) (i : Nat) (name : Text) :
    (h.listing i).get? name = h.last? i name := by
  rw [listing_eq, Table.get?_ofList]
  rfl

/-- Where a name was ever bound it has a value. -/
theorem exists_last? {h : History made} {i j : Nat} {name : Text} (hj : h.nearest? i name = some j) :
    ∃ v, h.last? j name = some v := by
  have hname : name ∈ h.names j :=
    of_decide_eq_true (List.find?_some (p := fun j => decide (name ∈ h.names j)) hj)
  rw [← keys_listing, Table.mem_keys_iff_isSome_get?, get?_listing] at hname
  exact Option.isSome_iff_exists.mp hname

namespace Follows

variable {h : History made} {s : Store}

theorem bindings_eq_listing (hs : h.Follows s) (i : Nat) : s.bindings i = h.listing i :=
  (hs.bindings_eq i).trans (h.listing_eq i).symm

theorem find?_eq (hs : h.Follows s) {i : Nat} (hi : i < made) (name : Text) :
    s.find? i name = h.nearest? i name := by
  have hbound (j : Nat) : (s.bindings j).contains name = decide (name ∈ h.names j) := by
    rw [Bool.eq_iff_iff, Table.contains_iff_mem_keys, hs.bindings_eq_listing, keys_listing,
      decide_eq_true_iff]
  rw [Store.find?, hs.chain_eq hi, nearest?]
  exact congrArg (List.find? · _) (funext hbound)

theorem lookup?_of_nearest? (hs : h.Follows s) {i j : Nat} (hi : i < made) {name : Text}
    (hj : h.nearest? i name = some j) : s.lookup? i name = h.last? j name := by
  rw [Store.lookup?, hs.find?_eq hi, hj]
  show (s.bindings j).get? name = _
  rw [hs.bindings_eq_listing, get?_listing]

theorem lookup?_eq_none (hs : h.Follows s) {i : Nat} (hi : i < made) {name : Text}
    (hnone : h.nearest? i name = none) : s.lookup? i name = none := by
  rw [Store.lookup?, hs.find?_eq hi, hnone]

theorem describe_eq (hs : h.Follows s) {i : Nat} (hi : i < made) :
    s.describe i = "\x7b" ++
      Text.join ", " ((h.listing i).map fun entry => entry.1 ++ ": " ++ entry.2.inspect) ++ "\x7d" ++
        if h.chain i = [i] then "" else " -> ..." := by
  obtain ⟨g, hg⟩ := hs.rooted hi
  have houter : (s.outer? i).isSome = true ↔ ¬h.chain i = [i] := by
    rw [hg.outer?_isSome, hs.chain_eq hi]
  simp only [Store.describe, hs.bindings_eq_listing, houter, ite_not]

theorem describesWithin_iff (hs : h.Follows s) (stack i : Nat) :
    s.describesWithin stack i = true ↔ ∀ entry ∈ h.listing i, entry.2.inspectsWithin stack = true := by
  rw [Store.describesWithin, hs.bindings_eq_listing, List.all_eq_true]

theorem describeChain_eq (hs : h.Follows s) {i : Nat} (hi : i < made) :
    s.describeChain i = "<Environment chain: " ++
      Text.join " -> " ((h.chain i).map fun j => Text.ofNat (h.names j).length) ++ ">" := by
  have hsizes (j : Nat) : (s.bindings j).length = (h.names j).length := by
    rw [hs.bindings_eq_listing, length_listing]
  simp only [Store.describeChain, hs.chain_eq hi, hsizes]

end Follows

/-- What a history says about frame `i` is what a client is told in the state `t`. -/
structure Answers (h : History made) (i : Nat) (t : State) : Prop where
  find (name : Text) : find? i (.symbol name) t = (.ok (h.nearest? i name), t)
  bound {name : Text} {j : Nat} (stack : Nat) : h.nearest? i name = some j →
    ∃ v, h.last? j name = some v ∧ lookup stack i (.symbol name) t = (.ok v, t)
  unbound {name : Text} (stack : Nat) : h.nearest? i name = none →
    lookup stack i (.symbol name) t = (.error (.error (.unbound name)), t)
  keys : (t.store.bindings i).keys = h.names i
  listed (stack : Nat) : describe stack i t =
    (if ∀ entry ∈ h.listing i, entry.2.inspectsWithin stack = true then
      .ok ("\x7b" ++ Text.join ", " ((h.listing i).map fun entry => entry.1 ++ ": " ++ entry.2.inspect) ++
        "\x7d" ++ if h.chain i = [i] then "" else " -> ...")
    else .error .overflow, t)
  sizes : t.store.describeChain i = "<Environment chain: " ++
    Text.join " -> " ((h.chain i).map fun j => Text.ofNat (h.names j).length) ++ ">"
  defines (stack : Nat) (name v : Value) :
    (Environment.define stack i name v t).1 = refusal stack (offending? [(name, v)])
  updates (stack : Nat) (m : Mapping) :
    (Environment.update stack i m.entries t).1 = refusal stack (offending? m.entries)

/-- After any calls on a tree of frames, a name has the value most recently bound to it in the nearest
frame in which it was ever bound, and is unbound exactly if there is none.  A frame lists its names in the
order in which they were bound first, and a chain shows how many names were ever bound in its frames. -/
theorem answers_after (h : History made) (s : State) (i : Fin made) : h.Answers i (h.after s) := by
  have hs := h.follows_after s
  refine ⟨fun name => ?_, fun {name j} stack hj => ?_, fun {name} stack hnone => ?_, ?_, fun stack => ?_,
    hs.describeChain_eq i.isLt, fun stack name v => ?_, fun stack m => ?_⟩
  · rw [find?, hs.find?_eq i.isLt]
  · obtain ⟨v, hv⟩ := exists_last? hj
    refine ⟨v, hv, ?_⟩
    show Run.lookup i name (h.after s) = _
    rw [Run.lookup, hs.lookup?_of_nearest? i.isLt hj, hv]
  · show Run.lookup i name (h.after s) = _
    rw [Run.lookup, hs.lookup?_eq_none i.isLt hnone]
  · rw [hs.bindings_eq_listing, keys_listing]
  · simp only [describe, hs.describesWithin_iff, hs.describe_eq i.isLt]
    split <;> rfl
  · rw [define_eq]
  · rw [update_eq]

/-- Two frames, one in the other, and a mapping for the outer one whose second key is refused. -/
def refusedUpdate : History 2 :=
  ((start.new none).new (some 0)).update 100 0
    { entries := [(.symbol "a", .bool true), (.unspecified, .bool true), (.symbol "b", .bool false)],
      not_list := by simp [Value.list?],
      nodup := by decide }

theorem answers_after_refusedUpdate :
    let t := refusedUpdate.after ⟨.empty, .start [], []⟩
    (∃ v, refusedUpdate.last? 0 "a" = some v ∧ lookup 100 1 (.symbol "a") t = (.ok v, t)) ∧
      lookup 100 1 (.symbol "b") t = (.error (.error (.unbound "b")), t) ∧
      t.store.describeChain 1 = "<Environment chain: 0 -> 1>" := by
  intro t
  have hanswers := refusedUpdate.answers_after ⟨.empty, .start [], []⟩ 1
  have ha : refusedUpdate.nearest? 1 "a" = some 0 := by decide
  have hb : refusedUpdate.nearest? 1 "b" = none := by decide
  exact ⟨hanswers.bound 100 ha, hanswers.unbound 100 hb, hanswers.sizes.trans (by decide)⟩

end History
end Environment
end SmallLisp

import SmallLisp.Text.Basic

/-!
Tables: keys with values, in the order in which the keys were first written.  Writing a key again
changes its value and keeps its place.
-/

namespace SmallLisp

abbrev Table (α : Type) := List (Text × α)

namespace Table

variable {α : Type}

def insert (key : Text) (value : α) : Table α → Table α
  | [] => [(key, value)]
  | (k, v) :: rest => if k == key then (k, value) :: rest else (k, v) :: insert key value rest

def get? (key : Text) (t : Table α) : Option α :=
  (t.find? fun entry => entry.1 == key).map Prod.snd

def contains (key : Text) (t : Table α) : Bool :=
  t.any fun entry => entry.1 == key

def erase (key : Text) (t : Table α) : Table α :=
  t.filter fun entry => entry.1 != key

def keys (t : Table α) : List Text := t.map Prod.fst

/-- The table that holds `entries`, written in order. -/
def ofList (entries : List (Text × α)) : Table α :=
  entries.foldl (fun t entry => t.insert entry.1 entry.2) []

theorem get?_cons (key k : Text) (v : α) (t : Table α) :
    get? key ((k, v) :: t) = if k = key then some v else get? key t := by
  by_cases h : k = key <;> simp [get?, h]

theorem get?_insert_self (key : Text) (value : α) (t : Table α) :
    (t.insert key value).get? key = some value := by
  induction t with
  | nil => simp [insert, get?_cons]
  | cons entry rest ih =>
    obtain ⟨k, v⟩ := entry
    by_cases h : k = key <;> simp [insert, h, get?_cons, ih]

theorem get?_insert_of_ne {key other : Text} (h : other ≠ key) (value : α) (t : Table α) :
    (t.insert key value).get? other = t.get? other := by
  induction t with
  | nil => simp [insert, get?, h.symm]
  | cons entry rest ih =>
    obtain ⟨k, v⟩ := entry
    by_cases hk : k = key
    · subst hk
      simp [insert, get?_cons, h.symm]
    · simp [insert, hk, get?_cons, ih]

/-- A key that is there keeps its place, and a new one comes last. -/
theorem keys_insert (key : Text) (value : α) (t : Table α) :
    (t.insert key value).keys = if key ∈ t.keys then t.keys else t.keys ++ [key] := by
  induction t with
  | nil => simp [insert, keys]
  | cons entry rest ih =>
    obtain ⟨k, v⟩ := entry
    simp only [keys] at ih ⊢
    by_cases h : k = key
    · simp [insert, h]
    · by_cases hm : key ∈ rest.map Prod.fst
      · simp [insert, h, ih, hm]
      · simp [insert, h, ih, hm, Ne.symm h]

theorem contains_iff_mem_keys (key : Text) (t : Table α) :
    t.contains key = true ↔ key ∈ t.keys := by
  simp [contains, keys]

theorem mem_keys_iff_isSome_get? (key : Text) (t : Table α) :
    key ∈ t.keys ↔ (t.get? key).isSome = true := by
  induction t with
  | nil => simp [keys, get?]
  | cons entry rest ih =>
    obtain ⟨k, v⟩ := entry
    have hkeys : keys ((k, v) :: rest) = k :: keys rest := rfl
    rw [hkeys, List.mem_cons, get?_cons]
    by_cases h : k = key
    · simp [h]
    · rw [if_neg h, ih]
      simp [Ne.symm h]

theorem get?_erase_self (key : Text) (t : Table α) : (t.erase key).get? key = none := by
  induction t with
  | nil => rfl
  | cons entry rest ih =>
    obtain ⟨k, v⟩ := entry
    simp only [erase] at ih ⊢
    by_cases h : k = key
    · simp [h, ih]
    · simp [h, get?_cons, ih]

theorem get?_erase_of_ne {key other : Text} (h : other ≠ key) (t : Table α) :
    (t.erase key).get? other = t.get? other := by
  induction t with
  | nil => rfl
  | cons entry rest ih =>
    obtain ⟨k, v⟩ := entry
    simp only [erase] at ih ⊢
    by_cases hk : k = key
    · simp [hk, get?_cons, h.symm, ih]
    · simp [hk, get?_cons, ih]

theorem get?_foldl_insert (key : Text) (entries : List (Text × α)) (t : Table α) :
    get? key (entries.foldl (fun t entry => insert entry.1 entry.2 t) t) =
      ((entries.filter fun entry => entry.1 == key).getLast?.map Prod.snd).or (t.get? key) := by
  induction entries generalizing t with
  | nil => rfl
  | cons entry rest ih =>
    obtain ⟨k, v⟩ := entry
    rw [List.foldl_cons, ih]
    by_cases h : k = key
    · subst h
      rw [get?_insert_self, List.filter_cons_of_pos (by simp), List.getLast?_cons]
      cases (rest.filter fun entry => entry.1 == k).getLast? <;> rfl
    · rw [get?_insert_of_ne (Ne.symm h), List.filter_cons_of_neg (by simp [h])]

/-- Of several entries with one key, the last one counts. -/
theorem get?_ofList (key : Text) (entries : List (Text × α)) :
    (ofList entries).get? key =
      (entries.filter fun entry => entry.1 == key).getLast?.map Prod.snd := by
  rw [ofList, get?_foldl_insert]
  exact Option.or_none

theorem get?_ofList_of_last {entries : List (Text × α)} {key : Text} {value : α} {k : Nat}
    (hk : entries[k]? = some (key, value))
    (hlast : ∀ j entry, k < j → entries[j]? = some entry → entry.1 ≠ key) :
    (ofList entries).get? key = some value := by
  obtain ⟨hlt, hentry⟩ := List.getElem?_eq_some_iff.mp hk
  have hcut : entries = entries.take k ++ (key, value) :: entries.drop (k + 1) := by
    rw [← hentry, ← List.drop_eq_getElem_cons hlt, List.take_append_drop]
  have hafter : (entries.drop (k + 1)).filter (fun entry => entry.1 == key) = [] := by
    rw [List.filter_eq_nil_iff]
    intro entry hmem hkey
    obtain ⟨j, hj⟩ := List.mem_iff_getElem?.mp hmem
    rw [List.getElem?_drop] at hj
    exact hlast (k + 1 + j) entry (by omega) hj (eq_of_beq hkey)
  rw [get?_ofList, hcut, List.filter_append, List.filter_cons_of_pos (by simp), hafter,
    List.getLast?_concat]
  rfl

theorem nodup_keys_insert (key : Text) (value : α) {t : Table α} (h : t.keys.Nodup) :
    (t.insert key value).keys.Nodup := by
  rw [keys_insert]
  by_cases hkey : key ∈ t.keys
  · rw [if_pos hkey]
    exact h
  · rw [if_neg hkey, List.nodup_append]
    refine ⟨h, List.pairwise_singleton _ key, fun k hk k' hk' heq => hkey ?_⟩
    rw [List.mem_singleton.mp hk'] at heq
    rwa [← heq]

theorem ofList_concat (entries : List (Text × α)) (entry : Text × α) :
    ofList (entries ++ [entry]) = (ofList entries).insert entry.1 entry.2 := by
  rw [ofList, List.foldl_append]
  rfl

theorem nodup_keys_ofList (entries : List (Text × α)) : (ofList entries).keys.Nodup := by
  have hfold (t : Table α) (h : t.keys.Nodup) :
      keys (entries.foldl (fun t entry => t.insert entry.1 entry.2) t) |>.Nodup := by
    induction entries generalizing t with
    | nil => exact h
    | cons entry rest ih => exact ih _ (nodup_keys_insert entry.1 entry.2 h)
  exact hfold [] List.nodup_nil

/-- A table that has each key once holds what it answers. -/
theorem get?_eq_some_iff {t : Table α} (h : t.keys.Nodup) (key : Text) (value : α) :
    t.get? key = some value ↔ (key, value) ∈ t := by
  induction t with
  | nil => simp [get?]
  | cons entry rest ih =>
    obtain ⟨k, v⟩ := entry
    obtain ⟨hk, hrest⟩ := List.nodup_cons.mp h
    rw [get?_cons, List.mem_cons, Prod.mk.injEq]
    by_cases heq : k = key
    · subst heq
      have hnot : (k, value) ∉ rest := fun hmem => hk (List.mem_map.mpr ⟨_, hmem, rfl⟩)
      simp [hnot, eq_comm]
    · rw [if_neg heq, ih hrest]
      simp [Ne.symm heq]

end Table
end SmallLisp

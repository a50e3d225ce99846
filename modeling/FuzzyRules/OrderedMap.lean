/-!
# Maps in order of insertion

A map from names to things of one type, as the list of its entries. A name occurs once.
Inserting an existing name replaces what it is bound to and keeps its place; a new name
goes to the end.
-/

namespace FuzzyRules

/-- A map from names, in order of first insertion. -/
structure OrderedMap (α : Type) where
  entries : List (String × α)
  nodup : (entries.map Prod.fst).Nodup

namespace OrderedMap

variable {α : Type}

/-- Bind a name in a list of entries. -/
def insertEntry (key : String) (value : α) : List (String × α) → List (String × α)
  | [] => [(key, value)]
  | (k, v) :: rest =>
    if k = key then (k, value) :: rest else (k, v) :: insertEntry key value rest

/-- The names after an insertion: the same ones, or the new one at the end. -/
theorem keys_insertEntry (key : String) (value : α) (entries : List (String × α)) :
    (insertEntry key value entries).map Prod.fst =
      if key ∈ entries.map Prod.fst then entries.map Prod.fst
      else entries.map Prod.fst ++ [key] := by
  induction entries with
  | nil => rfl
  | cons entry rest ih =>
    obtain ⟨k, v⟩ := entry
    by_cases h : k = key
    · simp [insertEntry, h]
    · have h' : ¬ key = k := fun e => h e.symm
      simp only [insertEntry, h, if_false, List.map_cons, ih, List.mem_cons, h', false_or]
      split <;> rfl

theorem nodup_insertEntry (key : String) (value : α) {entries : List (String × α)}
    (h : (entries.map Prod.fst).Nodup) : ((insertEntry key value entries).map Prod.fst).Nodup := by
  rw [keys_insertEntry]
  split
  · exact h
  · rename_i hk
    rw [List.nodup_append]
    refine ⟨h, by simp, ?_⟩
    intro a ha b hb hab
    simp only [List.mem_singleton] at hb
    exact hk (hb ▸ hab ▸ ha)

def empty : OrderedMap α := ⟨[], .nil⟩

/-- Bind a name: in its place if it is there already, else at the end. -/
def insert (m : OrderedMap α) (key : String) (value : α) : OrderedMap α :=
  ⟨insertEntry key value m.entries, nodup_insertEntry key value m.nodup⟩

/-- What a name is bound to. -/
def get? (m : OrderedMap α) (key : String) : Option α := m.entries.lookup key

def contains (m : OrderedMap α) (key : String) : Bool := (m.get? key).isSome

/-- The names, in order of first insertion. -/
def keys (m : OrderedMap α) : List String := m.entries.map Prod.fst

def size (m : OrderedMap α) : Nat := m.entries.length

/-- Bind the names of a list one after the other. -/
def insertAll (m : OrderedMap α) (entries : List (String × α)) : OrderedMap α :=
  entries.foldl (fun m entry => m.insert entry.1 entry.2) m

def ofList (entries : List (String × α)) : OrderedMap α := empty.insertAll entries

/-- Both maps in one; where both bind a name, the second one counts. -/
def union (m n : OrderedMap α) : OrderedMap α := m.insertAll n.entries

theorem mem_entries_of_get? {m : OrderedMap α} {key : String} {value : α}
    (h : m.get? key = some value) : (key, value) ∈ m.entries := by
  obtain ⟨before, after, hsplit, -⟩ := List.lookup_eq_some_iff.mp h
  simp [hsplit]

/-! ## What an insertion changes -/

theorem lookup_cons_if (k k' : String) (v : α) (rest : List (String × α)) :
    ((k', v) :: rest).lookup k = if k = k' then some v else rest.lookup k := by
  rw [List.lookup_cons]
  by_cases h : k = k'
  · simp [h]
  · rw [beq_false_of_ne h, if_neg h]

theorem lookup_insertEntry (key : String) (value : α) (entries : List (String × α)) (k : String) :
    (insertEntry key value entries).lookup k =
      if k = key then some value else entries.lookup k := by
  induction entries with
  | nil => rw [insertEntry, lookup_cons_if]
  | cons entry rest ih =>
    obtain ⟨k', v⟩ := entry
    rw [insertEntry]
    split
    · rename_i h
      rw [lookup_cons_if, lookup_cons_if, h]
      split <;> rfl
    · rename_i h
      rw [lookup_cons_if, lookup_cons_if, ih]
      split
      · rename_i hk
        rw [if_neg (hk ▸ h)]
      · rfl

@[simp] theorem get?_insert (m : OrderedMap α) (key : String) (value : α) (k : String) :
    (m.insert key value).get? k = if k = key then some value else m.get? k :=
  lookup_insertEntry key value m.entries k

@[simp] theorem keys_insert (m : OrderedMap α) (key : String) (value : α) :
    (m.insert key value).keys = if key ∈ m.keys then m.keys else m.keys ++ [key] :=
  keys_insertEntry key value m.entries

theorem lookup_eq_none_iff_not_mem {entries : List (String × α)} {k : String} :
    entries.lookup k = none ↔ k ∉ entries.map Prod.fst := by
  induction entries with
  | nil => simp
  | cons entry rest ih =>
    obtain ⟨k', v⟩ := entry
    rw [lookup_cons_if, List.map_cons, List.mem_cons, not_or, ← ih]
    by_cases h : k = k'
    · simp [h]
    · simp [h]

theorem get?_insertAll (m : OrderedMap α) {entries : List (String × α)}
    (h : (entries.map Prod.fst).Nodup) (k : String) :
    (m.insertAll entries).get? k = (entries.lookup k).or (m.get? k) := by
  induction entries generalizing m with
  | nil => rfl
  | cons entry rest ih =>
    obtain ⟨key, value⟩ := entry
    rw [List.map_cons, List.nodup_cons] at h
    show ((m.insert key value).insertAll rest).get? k = _
    rw [ih _ h.2, get?_insert, lookup_cons_if]
    by_cases hk : k = key
    · have hrest : rest.lookup k = none := lookup_eq_none_iff_not_mem.mpr (hk ▸ h.1)
      rw [hrest, if_pos hk, if_pos hk]
      rfl
    · rw [if_neg hk, if_neg hk]

/-- Of two maps in one, the second one counts where it binds a name. -/
@[simp] theorem get?_union (m n : OrderedMap α) (k : String) :
    (m.union n).get? k = (n.get? k).or (m.get? k) :=
  get?_insertAll m n.nodup k

theorem get?_union_of_not_mem {m n : OrderedMap α} {k : String} (h : k ∉ n.keys) :
    (m.union n).get? k = m.get? k := by
  have hn : n.get? k = none := lookup_eq_none_iff_not_mem.mpr h
  rw [get?_union, hn, Option.none_or]

end OrderedMap

end FuzzyRules

import FuzzyRules.OrderedMap

/-!
# Maps by their names and bindings

A map is known by its names in order and by what they are bound to (`ext_keys`). After a row of
insertions a name is bound to what was inserted last for it (`get?_insertAll_eq`), and new names
stand in the order in which they came first (`keys_insertAll`). So a union puts the new names of
the second map behind those of the first (`keys_union`). Insertions into the second map can be made
into the union instead (`union_insertAll`); hence unions associate, and they are a monoid with the
empty map, in which every map is idempotent.
-/

namespace FuzzyRules

theorem eraseDups_of_nodup {names : List String} (h : names.Nodup) : names.eraseDups = names := by
  induction names with
  | nil => rfl
  | cons name rest ih =>
    rw [List.nodup_cons] at h
    have hfilter : rest.filter (fun other => !other == name) = rest := by
      refine List.filter_eq_self.mpr fun other hother => ?_
      have hne : other ≠ name := fun heq => h.1 (heq ▸ hother)
      simp [hne]
    rw [List.eraseDups_cons, hfilter, ih h.2]

namespace OrderedMap

variable {α : Type}

/-! ## Extensionality -/

theorem lookup_eq_of_lookup_cons {k : String} {v w : α} {rest rest' : List (String × α)}
    (hk : k ∉ rest.map Prod.fst) (hk' : k ∉ rest'.map Prod.fst)
    (h : ∀ name, ((k, v) :: rest).lookup name = ((k, w) :: rest').lookup name) (name : String) :
    rest.lookup name = rest'.lookup name := by
  by_cases hname : name = k
  · rw [hname, lookup_eq_none_iff_not_mem.mpr hk, lookup_eq_none_iff_not_mem.mpr hk']
  · have hrest := h name
    rwa [lookup_cons_if, lookup_cons_if, if_neg hname, if_neg hname] at hrest

theorem entries_eq_of_lookup {entries entries' : List (String × α)}
    (hkeys : entries.map Prod.fst = entries'.map Prod.fst) (hnodup : (entries.map Prod.fst).Nodup)
    (h : ∀ name, entries.lookup name = entries'.lookup name) : entries = entries' := by
  induction entries generalizing entries' with
  | nil => exact (List.map_eq_nil_iff.mp hkeys.symm).symm
  | cons entry rest ih =>
    obtain ⟨k, v⟩ := entry
    cases entries' with
    | nil => cases hkeys
    | cons entry' rest' =>
      obtain ⟨k', w⟩ := entry'
      rw [List.map_cons, List.map_cons, List.cons.injEq] at hkeys
      obtain ⟨rfl, hrest⟩ := hkeys
      rw [List.map_cons, List.nodup_cons] at hnodup
      have hvalue : v = w := by
        have hk := h k
        rw [lookup_cons_if, lookup_cons_if, if_pos rfl, if_pos rfl] at hk
        exact Option.some.inj hk
      rw [hvalue, ih hrest hnodup.2
        (lookup_eq_of_lookup_cons hnodup.1 (hrest ▸ hnodup.1) h)]

/-- Maps with the same names in the same order, bound to the same, are the same. -/
theorem ext_keys {m n : OrderedMap α} (hkeys : m.keys = n.keys)
    (h : ∀ name, m.get? name = n.get? name) : m = n := by
  obtain ⟨entries, hnodup⟩ := m
  obtain ⟨entries', hnodup'⟩ := n
  obtain rfl : entries = entries' := entries_eq_of_lookup hkeys hnodup h
  rfl

theorem get?_eq_none_iff {m : OrderedMap α} {name : String} :
    m.get? name = none ↔ name ∉ m.keys :=
  lookup_eq_none_iff_not_mem

theorem contains_iff {m : OrderedMap α} {name : String} :
    m.contains name = true ↔ name ∈ m.keys := by
  rw [contains, Option.isSome_iff_ne_none, ne_eq, get?_eq_none_iff, Decidable.not_not]

@[simp] theorem insertAll_nil (m : OrderedMap α) : m.insertAll [] = m := rfl

@[simp] theorem insertAll_cons (m : OrderedMap α) (key : String) (value : α)
    (entries : List (String × α)) :
    m.insertAll ((key, value) :: entries) = (m.insert key value).insertAll entries := rfl

/-- New names come behind the old ones, in the order in which they were inserted first. -/
theorem keys_insertAll (m : OrderedMap α) (entries : List (String × α)) :
    (m.insertAll entries).keys =
      m.keys ++ ((entries.map Prod.fst).filter (· ∉ m.keys)).eraseDups := by
  induction entries generalizing m with
  | nil => simp
  | cons entry rest ih =>
    obtain ⟨key, value⟩ := entry
    rw [insertAll_cons, ih, keys_insert, List.map_cons, List.filter_cons]
    by_cases hkey : key ∈ m.keys
    · rw [if_pos hkey, if_neg (by simp [hkey])]
    · have hfilter : (rest.map Prod.fst).filter (· ∉ m.keys ++ [key]) =
          ((rest.map Prod.fst).filter (· ∉ m.keys)).filter (fun name => !name == key) := by
        rw [List.filter_filter]
        refine List.filter_congr fun name _ => ?_
        by_cases hname : name = key <;> simp [hname]
      rw [if_neg hkey, if_pos (by simp [hkey]), List.eraseDups_cons, hfilter, List.append_assoc,
        List.singleton_append]

theorem get?_empty (name : String) : (empty : OrderedMap α).get? name = none := rfl

/-- The names of the first map, and behind them the new names of the second. -/
theorem keys_union (m n : OrderedMap α) :
    (m.union n).keys = m.keys ++ n.keys.filter (· ∉ m.keys) := by
  rw [union, keys_insertAll]
  exact congrArg (m.keys ++ ·) (eraseDups_of_nodup (n.nodup.filter _))

theorem get?_union_eq (m n : OrderedMap α) (name : String) :
    (m.union n).get? name = if n.contains name then n.get? name else m.get? name := by
  rw [get?_union, contains]
  cases n.get? name <;> rfl

/-- An insertion into the second map can be made into the union. -/
theorem union_insert (m n : OrderedMap α) (key : String) (value : α) :
    m.union (n.insert key value) = (m.union n).insert key value := by
  refine ext_keys ?_ fun name => ?_
  · simp only [keys_union, keys_insert, List.mem_append, List.mem_filter, decide_eq_true_eq]
    by_cases hn : key ∈ n.keys
    · by_cases hm : key ∈ m.keys <;> simp [hn, hm]
    · by_cases hm : key ∈ m.keys <;> simp [hn, hm, List.filter_append]
  · simp only [get?_union, get?_insert]
    split <;> rfl

theorem union_insertAll (m n : OrderedMap α) (entries : List (String × α)) :
    m.union (n.insertAll entries) = (m.union n).insertAll entries := by
  induction entries generalizing n with
  | nil => rfl
  | cons entry rest ih => rw [insertAll_cons, ih, union_insert, insertAll_cons]

theorem union_assoc (m n p : OrderedMap α) : (m.union n).union p = m.union (n.union p) :=
  (union_insertAll m n p.entries).symm

@[simp] theorem union_empty (m : OrderedMap α) : m.union empty = m := rfl

theorem union_ofList (m : OrderedMap α) (entries : List (String × α)) :
    m.union (ofList entries) = m.insertAll entries := by
  rw [ofList, union_insertAll, union_empty]

@[simp] theorem empty_union (m : OrderedMap α) : empty.union m = m := by
  refine ext_keys ?_ fun name => ?_
  · rw [keys_union]
    simp [keys, empty]
  · rw [get?_union, get?_empty, Option.or_none]

theorem union_self (m : OrderedMap α) : m.union m = m := by
  refine ext_keys ?_ fun name => ?_
  · rw [keys_union]
    simp
  · rw [get?_union, Option.or_self]

end OrderedMap

end FuzzyRules

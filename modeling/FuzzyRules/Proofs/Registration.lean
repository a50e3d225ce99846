import FuzzyRules.Host.Binding
import FuzzyRules.Proofs.Dictionary
import FuzzyRules.Proofs.Insertion

/-!
# Tables and what hosts add to them

Tables are a monoid under union, in which the second table counts. A host adds the entries of a
dictionary to a table. They are checked together with the entries of the table: those of the table
come first, each with the handler that counts, and then the new ones (`insertEntries_merged`).
The first entry that is refused gives the error (`register_eq`); if none is, the result is the union
with the table of the dictionary (`withObjects_of_accepted`).
-/

namespace FuzzyRules

open Host (Object)

namespace Table

/-- Why an entry is refused: its key is no text or, if it is one, there is no handler. A key that
is no text is shown; one that cannot be shown is refused for that. -/
def refusal? : Object × Object → Option Host.Error
  | (.str _, .function _ _) => none
  | (.str name, _) => some (.notCallable name)
  | (key, _) => some (.showing key .invalidName)

/-- The handler that an entry registers. -/
def registration? : Object × Object → Option (String × Handler)
  | (.str name, .function h _) => some (name, h)
  | _ => none

/-- Whether an object is a name of a table. -/
def hasName (table : Table) : Object → Bool
  | .str name => table.contains name
  | _ => false

/-- The entries of a table, each with what the dictionary gives for its name, and behind them the
entries of the dictionary that are new. -/
def merged (table : Table) (items : List (Object × Object)) : List (Object × Object) :=
  (table.entries.map fun entry =>
    (.str entry.1, (Object.given? items entry.1).getD (.function entry.2 entry.1))) ++
  items.filter fun p => !table.hasName p.1

/-! ## Single entries -/

section Entry

variable {table : Table} {key v : Object} {name : String} {h : Handler}

/-- An entry is refused unless it registers a handler. -/
theorem registered_or_refused (p : Object × Object) :
    (∃ name h shown, p = (.str name, .function h shown) ∧ refusal? p = none) ∨
      ∃ error, refusal? p = some error := by
  obtain ⟨key, v⟩ := p
  cases key with
  | str name =>
    cases v with
    | function h shown => exact .inl ⟨name, h, shown, rfl, rfl⟩
    | _ => exact .inr ⟨_, rfl⟩
  | _ => exact .inr ⟨_, rfl⟩

theorem refusal?_eq_none_iff {p : Object × Object} :
    refusal? p = none ↔ ∃ name h shown, p = (.str name, .function h shown) := by
  constructor
  · intro hp
    rcases registered_or_refused p with ⟨name, h, shown, hentry, -⟩ | ⟨error, herror⟩
    · exact ⟨name, h, shown, hentry⟩
    · rw [herror] at hp
      cases hp
  · rintro ⟨name, h, shown, rfl⟩
    rfl

theorem register_cons_of_refused {p : Object × Object} {error : Host.Error}
    (hp : refusal? p = some error) (rest : List (Object × Object)) :
    table.register (p :: rest) = .error error := by
  obtain ⟨key, v⟩ := p
  cases key with
  | str name =>
    cases v with
    | function h => cases hp
    | _ =>
      cases hp
      rfl
  | _ =>
    cases hp
    rfl

end Entry

/-! ## Registration -/

/-- The first entry that is refused gives the error; if none is, all are inserted. -/
theorem register_eq (table : Table) (entries : List (Object × Object)) :
    table.register entries =
      match entries.findSome? refusal? with
      | some error => .error error
      | none => .ok (table.insertAll (entries.filterMap registration?)) := by
  induction entries generalizing table with
  | nil => rfl
  | cons p rest ih =>
    rw [List.findSome?_cons]
    rcases registered_or_refused p with ⟨name, h, shown, rfl, hp⟩ | ⟨error, hp⟩
    · rw [hp, register, ih]
      rfl
    · rw [hp, register_cons_of_refused hp]

theorem ofObjects_eq_error_iff {entries : List (Object × Object)} {error : Host.Error} :
    ofObjects entries = .error error ↔ entries.findSome? refusal? = some error := by
  rw [ofObjects, register_eq]
  split
  · next hrefused => simp [hrefused]
  · next hnone => simp [hnone]

theorem ofObjects_of_accepted {entries : List (Object × Object)}
    (h : ∀ p ∈ entries, refusal? p = none) :
    ofObjects entries = .ok (.ofList (entries.filterMap registration?)) := by
  rw [ofObjects, register_eq, List.findSome?_eq_none_iff.mpr h]
  rfl

/-! ## Tables as dictionaries -/

theorem toObjects_accepted (table : Table) : ∀ p ∈ table.toObjects, refusal? p = none := by
  intro p hp
  obtain ⟨entry, -, rfl⟩ := List.mem_map.mp hp
  rfl

theorem filterMap_registration?_toObjects (table : Table) :
    table.toObjects.filterMap registration? = table.entries := by
  rw [toObjects, List.filterMap_map]
  exact List.filterMap_some

theorem ofObjects_toObjects (table : Table) : ofObjects table.toObjects = .ok table := by
  rw [ofObjects_of_accepted table.toObjects_accepted, filterMap_registration?_toObjects]
  exact congrArg Except.ok (OrderedMap.empty_union table)

theorem distinct_toObjects (table : Table) : Object.Distinct table.toObjects := by
  refine Object.distinct_of_names ?_ table.nodup
  rw [toObjects, List.map_map, List.map_map]
  rfl

section Insertion

variable {entries items : List (Object × Object)}

theorem accepted_insertEntry (h : ∀ p ∈ entries, refusal? p = none) (name : String)
    (handler : Handler) (shown : String) :
    ∀ p ∈ Object.insertEntry entries (.str name) (.function handler shown), refusal? p = none := by
  induction entries with
  | nil => exact List.forall_mem_singleton.mpr rfl
  | cons p rest ih =>
    obtain ⟨hp, hrest⟩ := List.forall_mem_cons.mp h
    obtain ⟨k, w, text, rfl⟩ := refusal?_eq_none_iff.mp hp
    rw [Object.insertEntry]
    split
    · exact List.forall_mem_cons.mpr ⟨rfl, hrest⟩
    · exact List.forall_mem_cons.mpr ⟨hp, ih hrest⟩

/-- An insertion into a dictionary of handlers as an insertion into a table. -/
theorem registrations_insertEntry (h : ∀ p ∈ entries, refusal? p = none) (name : String)
    (handler : Handler) (shown : String) :
    (Object.insertEntry entries (.str name) (.function handler shown)).filterMap registration? =
      OrderedMap.insertEntry name handler (entries.filterMap registration?) := by
  induction entries with
  | nil => rfl
  | cons p rest ih =>
    obtain ⟨hp, hrest⟩ := List.forall_mem_cons.mp h
    obtain ⟨k, w, text, rfl⟩ := refusal?_eq_none_iff.mp hp
    have hentry : registration? (.str k, .function w text) = some (k, w) := rfl
    rw [Object.insertEntry, List.filterMap_cons_some hentry, OrderedMap.insertEntry]
    by_cases hk : k = name
    · rw [if_pos hk, if_pos (Object.sameKey_str_right.mpr (congrArg _ hk))]
      rfl
    · rw [if_neg hk, if_neg, List.filterMap_cons_some hentry, ih hrest]
      rw [Object.sameKey_str_right, Object.str.injEq]
      exact hk

/-- Handlers that are inserted into the entries of a table make the entries of another one. -/
theorem insertEntries_accepted (table : Table) (hentries : ∀ p ∈ entries, refusal? p = none)
    (hitems : ∀ p ∈ items, refusal? p = none)
    (htable : entries.filterMap registration? = table.entries) :
    (∀ p ∈ Object.insertEntries entries items, refusal? p = none) ∧
      (Object.insertEntries entries items).filterMap registration? =
        (table.insertAll (items.filterMap registration?)).entries := by
  induction items generalizing entries table with
  | nil => exact ⟨hentries, htable⟩
  | cons p rest ih =>
    obtain ⟨hp, hrest⟩ := List.forall_mem_cons.mp hitems
    obtain ⟨name, handler, shown, rfl⟩ := refusal?_eq_none_iff.mp hp
    refine ih (table.insert name handler) (accepted_insertEntry hentries name handler shown) hrest
      ?_
    rw [registrations_insertEntry hentries, htable]
    rfl

end Insertion

theorem withObjects_eq (table : Table) (items : List (Object × Object)) :
    table.withObjects items = ofObjects (Object.insertEntries table.toObjects items) := by
  rw [withObjects, Object.collapse_append, Object.collapse_of_distinct table.distinct_toObjects]

/-- Entries that are accepted make a table, and its union with the first one is the result. -/
theorem withObjects_of_accepted (table : Table) {items : List (Object × Object)}
    (h : ∀ p ∈ items, refusal? p = none) :
    ∃ added, ofObjects items = .ok added ∧ table.withObjects items = .ok (table.union added) := by
  refine ⟨_, ofObjects_of_accepted h, ?_⟩
  obtain ⟨haccepted, hentries⟩ := insertEntries_accepted table table.toObjects_accepted h
    table.filterMap_registration?_toObjects
  rw [withObjects_eq, ofObjects_of_accepted haccepted, hentries, OrderedMap.union_ofList]
  exact congrArg Except.ok (OrderedMap.empty_union _)

/-! ## The merged entries -/

section Merged

variable {table : Table} {items : List (Object × Object)} {key v : Object} {name : String}

theorem merged_nil (table : Table) : table.merged [] = table.toObjects := List.append_nil _

theorem hasName_of_mem {entry : String × Handler} (h : entry ∈ table.entries) :
    table.hasName (.str entry.1) = true :=
  OrderedMap.contains_iff.mpr (List.mem_map_of_mem h)

theorem exists_of_hasName (h : table.hasName key = true) :
    ∃ entry ∈ table.entries, key = .str entry.1 := by
  cases key with
  | str name =>
    obtain ⟨entry, hentry, rfl⟩ := List.mem_map.mp (OrderedMap.contains_iff.mp h)
    exact ⟨entry, hentry, rfl⟩
  | _ => cases h

/-- An insertion changes the one entry of its name. -/
theorem insertEntry_map_str {entries : List (String × Handler)}
    (hnodup : (entries.map Prod.fst).Nodup) (hname : name ∈ entries.map Prod.fst)
    (given : String × Handler → Object) (v : Object) :
    Object.insertEntry (entries.map fun entry => (.str entry.1, given entry)) (.str name) v =
      entries.map fun entry => (.str entry.1, if entry.1 = name then v else given entry) := by
  induction entries with
  | nil => cases hname
  | cons entry rest ih =>
    rw [List.map_cons, List.nodup_cons] at hnodup
    rw [List.map_cons, List.map_cons, Object.insertEntry]
    by_cases hentry : entry.1 = name
    · rw [if_pos (Object.sameKey_str_right.mpr (congrArg _ hentry)), if_pos hentry]
      refine congrArg _ (List.map_congr_left fun other hother => ?_)
      rw [if_neg]
      intro heq
      exact hnodup.1 (hentry.trans heq.symm ▸ List.mem_map_of_mem hother)
    · have hrest : name ∈ rest.map Prod.fst := by
        rw [List.map_cons, List.mem_cons] at hname
        exact hname.resolve_left fun heq => hentry heq.symm
      rw [if_neg, if_neg hentry, ih hnodup.2 hrest]
      rw [Object.sameKey_str_right, Object.str.injEq]
      exact hentry

/-- What a text is given with one more entry behind others that are not for its key. -/
theorem given?_append_new (hnew : ∀ p ∈ items, p.1.sameKey key = false) (other : String) :
    (Object.given? (items ++ [(key, v)]) other) =
      (Object.givenBy? other (key, v)).or (Object.given? items other) := by
  rw [← Object.insertEntry_of_new hnew, Object.given?_insertEntry]

/-- One more entry goes where its name stands in the table, or to the end. -/
theorem insertEntry_merged (hnew : ∀ p ∈ items, p.1.sameKey key = false) (v : Object) :
    Object.insertEntry (table.merged items) key v = table.merged (items ++ [(key, v)]) := by
  cases hname : table.hasName key with
  | true =>
    obtain ⟨entry, hentry, rfl⟩ := exists_of_hasName hname
    have hkey := Object.sameKey_str_right.mpr (Eq.refl (Object.str entry.1))
    rw [merged, Object.insertEntry_append ⟨_, List.mem_map_of_mem hentry, hkey⟩,
      insertEntry_map_str table.nodup (List.mem_map_of_mem hentry), merged, List.filter_append]
    congr 1
    · refine List.map_congr_left fun other _ => ?_
      rw [given?_append_new hnew]
      by_cases hother : other.1 = entry.1
      · rw [if_pos hother, ← hother, Object.givenBy?_str]
        rfl
      · have hne : Object.str entry.1 ≠ .str other.1 := by simpa using Ne.symm hother
        rw [if_neg hother, Object.givenBy?_of_ne hne, Option.none_or]
    · simp [hname]
  | false =>
    have hne {entry : String × Handler} (hentry : entry ∈ table.entries) :
        key ≠ .str entry.1 := by
      rintro rfl
      rw [hasName_of_mem hentry] at hname
      cases hname
    have hmerged : ∀ p ∈ table.merged items, p.1.sameKey key = false := by
      intro p hp
      rcases List.mem_append.mp hp with hp | hp
      · obtain ⟨entry, hentry, rfl⟩ := List.mem_map.mp hp
        rw [Bool.eq_false_iff, ne_eq, Object.sameKey_str_left]
        exact hne hentry
      · exact hnew p (List.mem_filter.mp hp).1
    rw [Object.insertEntry_of_new hmerged, merged, merged, List.filter_append, List.append_assoc]
    congr 1
    · refine List.map_congr_left fun entry hentry => ?_
      rw [given?_append_new hnew, Object.givenBy?_of_ne (hne hentry), Option.none_or]
    · simp [hname]

theorem insertEntries_merged {done rest : List (Object × Object)}
    (h : Object.Distinct (done ++ rest)) :
    Object.insertEntries (table.merged done) rest = table.merged (done ++ rest) := by
  induction rest generalizing done with
  | nil => rw [List.append_nil]; rfl
  | cons p rest ih =>
    obtain ⟨key, v⟩ := p
    have hsplit : done ++ (key, v) :: rest = (done ++ [(key, v)]) ++ rest := List.append_cons ..
    rw [Object.insertEntries_cons, insertEntry_merged h.forall_sameKey, hsplit]
    exact ih (hsplit ▸ h)

theorem withObjects_eq_merged (table : Table) (h : Object.Distinct items) :
    table.withObjects items = ofObjects (table.merged items) := by
  have hempty : Object.Distinct ([] ++ items) := h
  rw [withObjects_eq, ← merged_nil, insertEntries_merged hempty, List.nil_append]

/-- All entries of the dictionary are among the merged ones. -/
theorem mem_merged (h : Object.Distinct items) {p : Object × Object} (hp : p ∈ items) :
    p ∈ table.merged items := by
  cases hname : table.hasName p.1 with
  | false => exact List.mem_append_right _ (List.mem_filter.mpr ⟨hp, by rw [hname]; rfl⟩)
  | true =>
    obtain ⟨key, v⟩ := p
    obtain ⟨entry, hentry, rfl⟩ := exists_of_hasName hname
    refine List.mem_append_left _ (List.mem_map.mpr ⟨entry, hentry, ?_⟩)
    rw [Object.given?_of_mem h hp]
    rfl

theorem accepted_of_withObjects (h : Object.Distinct items) {after : Table}
    (hafter : table.withObjects items = .ok after) : ∀ p ∈ items, refusal? p = none := by
  intro p hp
  cases hrefused : (table.merged items).findSome? refusal? with
  | none => exact List.findSome?_eq_none_iff.mp hrefused p (mem_merged h hp)
  | some error =>
    rw [withObjects_eq_merged table h, ofObjects_eq_error_iff.mpr hrefused] at hafter
    cases hafter

theorem exists_error_iff (table : Table) (h : Object.Distinct items) :
    (∃ error, table.withObjects items = .error error) ↔ ∃ p ∈ items, refusal? p ≠ none := by
  constructor
  · rintro ⟨error, herror⟩
    refine Classical.byContradiction fun hnone => ?_
    have haccepted : ∀ p ∈ items, refusal? p = none := by simpa using hnone
    obtain ⟨added, -, hafter⟩ := table.withObjects_of_accepted haccepted
    rw [hafter] at herror
    cases herror
  · rintro ⟨p, hp, hrefused⟩
    cases hresult : table.withObjects items with
    | error error => exact ⟨error, rfl⟩
    | ok after => exact absurd (accepted_of_withObjects h hresult p hp) hrefused

theorem withObjects_eq_ok_iff (table : Table) (h : Object.Distinct items) {after : Table} :
    table.withObjects items = .ok after ↔
      ∃ added, ofObjects items = .ok added ∧ after = table.union added := by
  constructor
  · intro hafter
    obtain ⟨added, hadded, hunion⟩ :=
      table.withObjects_of_accepted (accepted_of_withObjects h hafter)
    rw [hunion] at hafter
    cases hafter
    exact ⟨added, hadded, rfl⟩
  · rintro ⟨added, hadded, rfl⟩
    have haccepted : items.findSome? refusal? = none := by
      cases hrefused : items.findSome? refusal? with
      | none => rfl
      | some error =>
        rw [ofObjects_eq_error_iff.mpr hrefused] at hadded
        cases hadded
    obtain ⟨added', hadded', hafter⟩ :=
      table.withObjects_of_accepted (List.findSome?_eq_none_iff.mp haccepted)
    rw [hadded] at hadded'
    cases hadded'
    exact hafter

end Merged

/-- The entries that pairs make are accepted unless a key is no text, or what a text is given last
is no handler. -/
theorem exists_refused_collapse_iff {pairs : List (Object × Object)} :
    (∃ p ∈ Object.collapse pairs, refusal? p ≠ none) ↔
      (∃ k ∈ pairs.map Prod.fst, ∀ name, k ≠ .str name) ∨
        ∃ name v, Object.given? pairs.reverse name = some v ∧
          ∀ h shown, v ≠ .function h shown := by
  rw [← Object.exists_not_text_collapse]
  simp only [← Object.given?_collapse]
  constructor
  · rintro ⟨⟨key, v⟩, hp, hrefused⟩
    cases key with
    | str name =>
      refine .inr ⟨name, v, Object.given?_of_mem (Object.distinct_collapse pairs) hp, ?_⟩
      rintro h shown rfl
      exact hrefused rfl
    | _ => exact .inl ⟨_, List.mem_map_of_mem hp, by simp⟩
  · rintro (⟨k, hk, htext⟩ | ⟨name, v, hgiven, hv⟩)
    · obtain ⟨p, hp, rfl⟩ := List.mem_map.mp hk
      refine ⟨p, hp, fun haccepted => ?_⟩
      obtain ⟨name, h, shown, rfl⟩ := refusal?_eq_none_iff.mp haccepted
      exact htext name rfl
    · refine ⟨_, Object.mem_of_given? hgiven, fun haccepted => ?_⟩
      obtain ⟨other, h, shown, heq⟩ := refusal?_eq_none_iff.mp haccepted
      cases heq
      exact hv h shown rfl

/-- Tables are a monoid under union. What a dictionary adds to a table is the union with the table
of the dictionary, unless one of the merged entries is refused; the first one that is gives the
error. -/
theorem union_monoid_and_withObjects :
    (∀ a b : Table, a.withObjects b.toObjects = .ok (a.union b) ∧
      (∀ name, (a.union b).get? name = if b.contains name then b.get? name else a.get? name) ∧
      (a.union b).keys = a.keys ++ b.keys.filter (· ∉ a.keys)) ∧
    (∀ a b c : Table, (a.union b).union c = a.union (b.union c)) ∧
    (∀ a : Table, OrderedMap.empty.union a = a ∧ a.union .empty = a ∧ a.union a = a) ∧
    ∀ (a : Table) (pairs : List (Object × Object)),
      ((∃ error, a.withObjects (Object.collapse pairs) = .error error) ↔
        (∃ k ∈ pairs.map Prod.fst, ∀ name, k ≠ .str name) ∨
        ∃ name v, Object.given? pairs.reverse name = some v ∧
          ∀ h shown, v ≠ .function h shown) ∧
      (∀ error, a.withObjects (Object.collapse pairs) = .error error ↔
        (a.merged (Object.collapse pairs)).findSome? refusal? = some error) ∧
      ∀ after, a.withObjects (Object.collapse pairs) = .ok after ↔
        ∃ b, ofObjects (Object.collapse pairs) = .ok b ∧ after = a.union b := by
  refine ⟨fun a b => ⟨?_, OrderedMap.get?_union_eq a b, OrderedMap.keys_union a b⟩,
    OrderedMap.union_assoc, fun a => ⟨OrderedMap.empty_union a, OrderedMap.union_empty a,
      OrderedMap.union_self a⟩, fun a pairs => ?_⟩
  · obtain ⟨added, hadded, hafter⟩ := a.withObjects_of_accepted b.toObjects_accepted
    rw [ofObjects_toObjects] at hadded
    cases hadded
    exact hafter
  · have hdistinct := Object.distinct_collapse pairs
    refine ⟨?_, fun error => ?_, fun after => a.withObjects_eq_ok_iff hdistinct⟩
    · rw [a.exists_error_iff hdistinct, exists_refused_collapse_iff]
    · rw [withObjects_eq_merged a hdistinct, ofObjects_eq_error_iff]

-- a name of the table is checked in its place, so before keys that are new
example : Table.classical.withObjects [(.int 1, .null), (.str "or", .null)] =
    .error (.notCallable "or") := rfl

end Table

end FuzzyRules

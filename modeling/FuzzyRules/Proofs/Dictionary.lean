import FuzzyRules.Host.Object

/-!
# Dictionaries of a host

The entries of a dictionary have `Distinct` keys, whatever pairs it is made from
(`distinct_collapse`), and distinct entries stay as they are (`collapse_of_distinct`). A text is the
same key as itself only. So what a dictionary gives for a text is what the pairs give for it last
(`given?_collapse`), and it has a key that is no text if one of the pairs has
(`exists_not_text_collapse`).
-/

namespace FuzzyRules.Host.Object

/-! ## Texts as keys -/

theorem sameKey_str_left {name : String} {key : Object} :
    sameKey (.str name) key = true ↔ key = .str name := by
  cases key with
  | str text =>
    rw [sameKey, beq_iff_eq, str.injEq]
    exact eq_comm
  | _ => simp [sameKey, asInt?]

theorem sameKey_str_right {key : Object} {name : String} :
    sameKey key (.str name) = true ↔ key = .str name := by
  cases key with
  | str text => simp [sameKey]
  | _ => simp [sameKey, asInt?]

/-! ## Insertion -/

section Insertion

variable {entries rest : List (Object × Object)} {key v : Object}

theorem insertEntry_of_new (h : ∀ p ∈ entries, p.1.sameKey key = false) :
    insertEntry entries key v = entries ++ [(key, v)] := by
  induction entries with
  | nil => rfl
  | cons p rest ih =>
    obtain ⟨k, w⟩ := p
    have hk : k.sameKey key = false := h (k, w) (by simp)
    rw [insertEntry, hk, ih fun q hq => h q (by simp [hq])]
    rfl

/-- A key that is there is found before anything behind it. -/
theorem insertEntry_append (h : ∃ p ∈ entries, p.1.sameKey key = true) :
    insertEntry (entries ++ rest) key v = insertEntry entries key v ++ rest := by
  induction entries with
  | nil =>
    obtain ⟨p, hp, -⟩ := h
    cases hp
  | cons p entries ih =>
    obtain ⟨k, w⟩ := p
    rw [List.cons_append, insertEntry, insertEntry]
    cases hk : k.sameKey key with
    | true => rfl
    | false =>
      have hrest : ∃ q ∈ entries, q.1.sameKey key = true := by
        obtain ⟨q, hq, hsame⟩ := h
        rcases List.mem_cons.mp hq with rfl | hq
        · rw [hk] at hsame
          cases hsame
        · exact ⟨q, hq, hsame⟩
      rw [ih hrest]
      rfl

/-- The keys after an insertion: the same ones, or the new one at the end. -/
theorem map_fst_insertEntry (entries : List (Object × Object)) (key v : Object) :
    (insertEntry entries key v).map Prod.fst =
      if entries.any (fun p => p.1.sameKey key) then entries.map Prod.fst
      else entries.map Prod.fst ++ [key] := by
  induction entries with
  | nil => rfl
  | cons p rest ih =>
    obtain ⟨k, w⟩ := p
    rw [insertEntry, List.any_cons]
    cases hk : k.sameKey key with
    | true => rfl
    | false =>
      rw [Bool.false_or, if_neg Bool.false_ne_true, List.map_cons, ih]
      split <;> rfl

end Insertion

/-! ## Distinct keys -/

/-- No two entries have the same key. -/
def Distinct (entries : List (Object × Object)) : Prop :=
  (entries.map Prod.fst).Pairwise fun k key => k.sameKey key = false

theorem distinct_insertEntry {entries : List (Object × Object)} (h : Distinct entries)
    (key v : Object) : Distinct (insertEntry entries key v) := by
  rw [Distinct, map_fst_insertEntry]
  split
  · exact h
  · next hnew =>
    refine List.pairwise_append.mpr ⟨h, List.pairwise_singleton _ _, ?_⟩
    rintro k hk key' hkey
    rw [List.mem_singleton.mp hkey]
    obtain ⟨p, hp, rfl⟩ := List.mem_map.mp hk
    simpa using List.any_eq_false.mp (Bool.eq_false_iff.mpr hnew) p hp

/-- Insert the entries of a list one after the other. -/
def insertEntries (entries pairs : List (Object × Object)) : List (Object × Object) :=
  pairs.foldl (fun entries pair => insertEntry entries pair.1 pair.2) entries

theorem insertEntries_cons (entries : List (Object × Object)) (key v : Object)
    (pairs : List (Object × Object)) :
    insertEntries entries ((key, v) :: pairs) = insertEntries (insertEntry entries key v) pairs :=
  rfl

theorem collapse_append (pairs pairs' : List (Object × Object)) :
    collapse (pairs ++ pairs') = insertEntries (collapse pairs) pairs' :=
  List.foldl_append

theorem distinct_insertEntries {entries : List (Object × Object)} (h : Distinct entries)
    (pairs : List (Object × Object)) : Distinct (insertEntries entries pairs) := by
  induction pairs generalizing entries with
  | nil => exact h
  | cons p rest ih => exact ih (distinct_insertEntry h p.1 p.2)

theorem distinct_nil : Distinct [] := List.Pairwise.nil

theorem distinct_collapse (pairs : List (Object × Object)) : Distinct (collapse pairs) :=
  distinct_insertEntries distinct_nil pairs

theorem distinct_of_names {entries : List (Object × Object)} {names : List String}
    (hkeys : entries.map Prod.fst = names.map .str) (h : names.Nodup) : Distinct entries := by
  rw [Distinct, hkeys, List.pairwise_map]
  refine h.imp fun {name other} hne => ?_
  rw [Bool.eq_false_iff, ne_eq, sameKey_str_right, str.injEq]
  exact hne

theorem Distinct.forall_sameKey {done rest : List (Object × Object)} {key v : Object}
    (h : Distinct (done ++ (key, v) :: rest)) : ∀ p ∈ done, p.1.sameKey key = false := by
  intro p hp
  rw [Distinct, List.map_append, List.pairwise_append] at h
  exact h.2.2 p.1 (List.mem_map_of_mem hp) key (by simp)

theorem insertEntries_of_distinct {done rest : List (Object × Object)}
    (h : Distinct (done ++ rest)) : insertEntries done rest = done ++ rest := by
  induction rest generalizing done with
  | nil => exact (List.append_nil done).symm
  | cons p rest ih =>
    obtain ⟨key, v⟩ := p
    have hsplit : done ++ (key, v) :: rest = (done ++ [(key, v)]) ++ rest := List.append_cons ..
    rw [insertEntries_cons, insertEntry_of_new h.forall_sameKey, hsplit]
    exact ih (hsplit ▸ h)

theorem collapse_of_distinct {entries : List (Object × Object)} (h : Distinct entries) :
    collapse entries = entries := by
  have hempty : Distinct ([] ++ entries) := h
  exact insertEntries_of_distinct hempty

/-! ## What a text is given -/

/-- What an entry gives for a text. -/
def givenBy? (name : String) : Object × Object → Option Object
  | (.str text, v) => if text = name then some v else none
  | _ => none

/-- What the first entry for a text gives. -/
def given? (entries : List (Object × Object)) (name : String) : Option Object :=
  entries.findSome? (givenBy? name)

section Given

variable {entries : List (Object × Object)} {key v : Object} {name : String}

theorem givenBy?_str (name : String) (v : Object) : givenBy? name (.str name, v) = some v :=
  if_pos rfl

theorem givenBy?_of_ne (h : key ≠ .str name) (v : Object) : givenBy? name (key, v) = none := by
  cases key with
  | str text =>
    refine if_neg ?_
    rintro rfl
    exact h rfl
  | _ => rfl

theorem given?_cons (key v : Object) (entries : List (Object × Object)) (name : String) :
    given? ((key, v) :: entries) name = (givenBy? name (key, v)).or (given? entries name) := by
  rw [given?, List.findSome?_cons, given?]
  cases givenBy? name (key, v) <;> rfl

theorem given?_append (entries entries' : List (Object × Object)) (name : String) :
    given? (entries ++ entries') name = (given? entries name).or (given? entries' name) :=
  List.findSome?_append

/-- An insertion counts for its own key only. -/
theorem given?_insertEntry (entries : List (Object × Object)) (key v : Object) (name : String) :
    given? (insertEntry entries key v) name =
      (givenBy? name (key, v)).or (given? entries name) := by
  induction entries with
  | nil => exact given?_cons key v [] name
  | cons p rest ih =>
    obtain ⟨k, w⟩ := p
    rw [insertEntry]
    split
    · next hsame =>
      rw [given?_cons, given?_cons]
      by_cases hkey : key = .str name
      · rw [hkey] at hsame ⊢
        rw [sameKey_str_right.mp hsame, givenBy?_str]
        rfl
      · have hk : k ≠ .str name := by
          rintro rfl
          exact hkey (sameKey_str_left.mp hsame)
        rw [givenBy?_of_ne hkey, givenBy?_of_ne hk, givenBy?_of_ne hk, Option.none_or,
          Option.none_or]
    · next hsame =>
      rw [given?_cons, given?_cons, ih]
      by_cases hkey : key = .str name
      · have hk : k ≠ .str name := by
          rintro rfl
          exact hsame (sameKey_str_left.mpr hkey)
        rw [givenBy?_of_ne hk, Option.none_or, Option.none_or]
      · rw [givenBy?_of_ne hkey, Option.none_or, Option.none_or]

theorem given?_insertEntries (entries pairs : List (Object × Object)) (name : String) :
    given? (insertEntries entries pairs) name =
      (given? pairs.reverse name).or (given? entries name) := by
  induction pairs generalizing entries with
  | nil => rfl
  | cons p rest ih =>
    obtain ⟨key, v⟩ := p
    rw [insertEntries_cons, ih, given?_insertEntry, List.reverse_cons, given?_append, given?_cons,
      Option.or_assoc]
    show _ = (given? rest.reverse name).or (((givenBy? name (key, v)).or none).or _)
    rw [Option.or_none]

/-- A dictionary gives for a text what the pairs give for it last. -/
theorem given?_collapse (pairs : List (Object × Object)) (name : String) :
    given? (collapse pairs) name = given? pairs.reverse name :=
  (given?_insertEntries [] pairs name).trans Option.or_none

theorem mem_of_given? (h : given? entries name = some v) : (.str name, v) ∈ entries := by
  obtain ⟨⟨k, w⟩, hmem, hgiven⟩ := List.exists_of_findSome?_eq_some h
  by_cases hk : k = .str name
  · rw [hk, givenBy?_str] at hgiven
    cases hgiven
    exact hk ▸ hmem
  · rw [givenBy?_of_ne hk] at hgiven
    cases hgiven

theorem given?_of_mem (hdistinct : Distinct entries) (h : (.str name, v) ∈ entries) :
    given? entries name = some v := by
  obtain ⟨done, rest, rfl⟩ := List.append_of_mem h
  have hdone : given? done name = none := by
    refine List.findSome?_eq_none_iff.mpr fun p hp => givenBy?_of_ne ?_ p.2
    intro hkey
    have hsame := hdistinct.forall_sameKey p hp
    rw [sameKey_str_right.mpr hkey] at hsame
    cases hsame
  rw [given?_append, hdone, Option.none_or, given?_cons, givenBy?_str]
  rfl

end Given

/-! ## Keys that are no texts -/

theorem exists_not_text_insertEntry {entries : List (Object × Object)} {key v : Object} :
    (∃ k ∈ (insertEntry entries key v).map Prod.fst, ∀ name, k ≠ .str name) ↔
      (∃ k ∈ entries.map Prod.fst, ∀ name, k ≠ .str name) ∨ ∀ name, key ≠ .str name := by
  rw [map_fst_insertEntry]
  split
  · next hsame =>
    refine ⟨.inl, ?_⟩
    rintro (h | hkey)
    · exact h
    · obtain ⟨p, hp, hp'⟩ := List.any_eq_true.mp hsame
      refine ⟨p.1, List.mem_map_of_mem hp, fun name hname => hkey name ?_⟩
      rw [hname] at hp'
      exact sameKey_str_left.mp hp'
  · simp only [List.mem_append, List.mem_singleton, or_and_right, exists_or, exists_eq_left]

theorem exists_not_text_insertEntries {entries pairs : List (Object × Object)} :
    (∃ k ∈ (insertEntries entries pairs).map Prod.fst, ∀ name, k ≠ .str name) ↔
      (∃ k ∈ entries.map Prod.fst, ∀ name, k ≠ .str name) ∨
        ∃ k ∈ pairs.map Prod.fst, ∀ name, k ≠ .str name := by
  induction pairs generalizing entries with
  | nil => simp [insertEntries]
  | cons p rest ih =>
    rw [insertEntries_cons, ih, exists_not_text_insertEntry, List.map_cons, or_assoc]
    simp only [List.mem_cons, or_and_right, exists_or, exists_eq_left]

theorem exists_not_text_collapse {pairs : List (Object × Object)} :
    (∃ k ∈ (collapse pairs).map Prod.fst, ∀ name, k ≠ .str name) ↔
      ∃ k ∈ pairs.map Prod.fst, ∀ name, k ≠ .str name := by
  have h : (∃ k ∈ (collapse pairs).map Prod.fst, ∀ name, k ≠ .str name) ↔ _ ∨ _ :=
    exists_not_text_insertEntries
  rw [h]
  simp

end FuzzyRules.Host.Object

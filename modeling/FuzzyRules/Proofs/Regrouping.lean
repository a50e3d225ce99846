import FuzzyRules.Proofs.Demand
import FuzzyRules.Proofs.Extremum

/-!
# Operands in groups

The connectives of any number of operands can be applied to blocks of their operands first, and then
to what these give. One block in front of other operands is one operand (`untilDecisive_append`,
`combine_append`): what decides in the block, or fails in it, does so outside, and an extremum goes
on from a block as it would have gone on through it. So the blocks can be put together one by one
(`sameRun_regroup`). The result and the trace stay the same; the debug notes of the inner calls are
added.
-/

namespace FuzzyRules

namespace Journaled

variable {α β : Type}

theorem bind_assoc {γ : Type} (m : Journaled α) (f : α → Journaled β) (g : β → Journaled γ) :
    m >>= f >>= g = m >>= fun a => f a >>= g := by
  show Journaled.mk _ ((m.events ++ _) ++ _) = Journaled.mk _ (m.events ++ (_ ++ _))
  rw [List.append_assoc]
  rfl

/-- The same result and the same trace; debug notes do not count. -/
def SameRun (m n : Journaled α) : Prop := m.result = n.result ∧ m.traceLines = n.traceLines

namespace SameRun

variable {m n k : Journaled α}

theorem refl (m : Journaled α) : m.SameRun m := ⟨rfl, rfl⟩

theorem symm (h : m.SameRun n) : n.SameRun m := ⟨h.1.symm, h.2.symm⟩

theorem trans (h : m.SameRun n) (h' : n.SameRun k) : m.SameRun k :=
  ⟨h.1.trans h'.1, h.2.trans h'.2⟩

theorem bind (h : m.SameRun n) {f g : α → Journaled β} (hfg : ∀ a, (f a).SameRun (g a)) :
    (m >>= f).SameRun (n >>= g) := by
  obtain ⟨hresult, htrace⟩ := hfg n.result
  constructor
  · rw [result_bind, result_bind, h.1, hresult]
  · rw [traceLines_bind, traceLines_bind, h.1, h.2, htrace]

theorem emit_note (note : Note) (m : Journaled α) : (emit (.note note) >>= fun _ => m).SameRun m :=
  ⟨rfl, rfl⟩

end SameRun

end Journaled

/-- A call of a connective runs as the connective does on the arguments. -/
theorem sameRun_call {table : Table} {c : Connective} (env : Environment)
    (hget : table.get? c.name = some (.connective c)) (programs : List Value) :
    (evaluate table env (c.call programs)).SameRun (c.apply (arguments table env programs)) := by
  rw [Connective.call, evaluate, Value.asString, callNamed, if_neg c.name_ne_lookupName, hget]
  exact .emit_note _ _

theorem arguments_append (table : Table) (env : Environment) (programs programs' : List Value) :
    arguments table env (programs ++ programs') =
      arguments table env programs ++ arguments table env programs' := by
  simp only [arguments_eq_map, List.map_append]

namespace Connective

variable {c : Connective} {a b : Argument} {program : Value}

/-! ## Operands that are operations -/

theorem sameRun_onBool {next next' : Bool → Journaled Value} (h : (a.run ()).SameRun (b.run ()))
    (hnext : ∀ t, (next t).SameRun (next' t)) :
    (onBool c a next).SameRun (onBool c b next') := by
  refine h.bind fun v => ?_
  cases v with
  | bool t => exact hnext t
  | _ => exact .refl _

theorem sameRun_onFloat {next next' : Double → Journaled Value}
    (h : (a.run ()).SameRun (b.run ())) (hnext : ∀ x, (next x).SameRun (next' x)) :
    (onFloat c a next).SameRun (onFloat c b next') := by
  refine h.bind fun v => ?_
  cases v with
  | float x => exact hnext x
  | _ => exact .refl _

/-- What fails inside fails outside, with the same complaint. -/
theorem onBool_onBool (inner next : Bool → Journaled Value) :
    onBool c ⟨program, fun _ => onBool c a inner⟩ next =
      onBool c a fun t => onBool c ⟨program, fun _ => inner t⟩ next := by
  unfold onBool
  rw [Journaled.bind_assoc]
  congr 1
  funext v
  cases v <;> rfl

theorem onFloat_onFloat (inner next : Double → Journaled Value) :
    onFloat c ⟨program, fun _ => onFloat c a inner⟩ next =
      onFloat c a fun x => onFloat c ⟨program, fun _ => inner x⟩ next := by
  unfold onFloat
  rw [Journaled.bind_assoc]
  congr 1
  funext v
  cases v <;> rfl

/-! ## One block in front -/

theorem untilDecisive_append (program : Value) (decisive : Bool) (block rest : List Argument) :
    untilDecisive c decisive (block ++ rest) =
      onBool c ⟨program, fun _ => untilDecisive c decisive block⟩ fun t =>
        if t = decisive then pure (.bool decisive) else untilDecisive c decisive rest := by
  induction block with
  | nil => cases decisive <;> rfl
  | cons a block ih =>
    rw [List.cons_append, untilDecisive, ih, untilDecisive, onBool_onBool]
    congr 1
    funext t
    split
    · cases decisive <;> rfl
    · rfl

section Extremum

variable {op : Double → Double → Double} {start x y : Double} {Range : Double → Prop}

/-- By induction on the block: after it, the operation on `x` and what the block gives is what it
gives from `op x y` on. -/
theorem combine_append_from (hop : Double.IsExtremum op start Range) (program : Value)
    (hx : Range x) (hy : Range y) (block rest : List Argument) :
    combine c op (op x y) (block ++ rest) =
      onFloat c ⟨program, fun _ => combine c op y block⟩ fun z => combine c op (op x z) rest := by
  induction block generalizing y with
  | nil => rfl
  | cons a block ih =>
    rw [List.cons_append, combine, combine, onFloat_onFloat]
    congr 1
    funext z
    rw [hop.op_assoc hx hy, ih (hop.op_mem hy z)]

theorem combine_append (hop : Double.IsExtremum op start Range) (program : Value) (hx : Range x)
    (block rest : List Argument) :
    combine c op x (block ++ rest) =
      onFloat c ⟨program, fun _ => combine c op start block⟩ fun z =>
        combine c op (op x z) rest := by
  rw [← combine_append_from hop program hx hop.start_mem, hop.op_start hx]

end Extremum

/-! ## All blocks -/

section Blocks

variable {table : Table} {env : Environment} {blocks : List (List Value)}

theorem untilDecisive_regroup {decisive : Bool}
    (hcall : ∀ block, block ≠ [] → (evaluate table env (c.call block)).SameRun
      (untilDecisive c decisive (arguments table env block)))
    (hblocks : ∀ block ∈ blocks, block ≠ []) :
    (untilDecisive c decisive (arguments table env blocks.flatten)).SameRun
      (untilDecisive c decisive (arguments table env (blocks.map c.call))) := by
  induction blocks with
  | nil => exact .refl _
  | cons block rest ih =>
    rw [List.flatten_cons, arguments_append, untilDecisive_append (c.call block), List.map_cons,
      arguments, untilDecisive]
    refine sameRun_onBool (hcall block (hblocks block (by simp))).symm fun t => ?_
    split
    · exact .refl _
    · exact ih fun other hother => hblocks other (by simp [hother])

theorem combine_regroup {op : Double → Double → Double} {start x : Double}
    {Range : Double → Prop} (hop : Double.IsExtremum op start Range)
    (hcall : ∀ block, block ≠ [] → (evaluate table env (c.call block)).SameRun
      (combine c op start (arguments table env block)))
    (hx : Range x) (hblocks : ∀ block ∈ blocks, block ≠ []) :
    (combine c op x (arguments table env blocks.flatten)).SameRun
      (combine c op x (arguments table env (blocks.map c.call))) := by
  induction blocks generalizing x with
  | nil => exact .refl _
  | cons block rest ih =>
    rw [List.flatten_cons, arguments_append, combine_append hop (c.call block) hx, List.map_cons,
      arguments, combine]
    refine sameRun_onFloat (hcall block (hblocks block (by simp))).symm fun z => ?_
    exact ih (hop.op_mem hx z) fun other hother => hblocks other (by simp [hother])

end Blocks

/-- The connectives of any number of operands. -/
def variadic : List Connective := [conjunction, disjunction, minimum, maximum]

section Apply

variable {args : List Argument}

theorem apply_conjunction (h : args ≠ []) :
    conjunction.apply args = untilDecisive conjunction false args := by
  cases args with
  | nil => exact absurd rfl h
  | cons a rest => rfl

theorem apply_disjunction (h : args ≠ []) :
    disjunction.apply args = untilDecisive disjunction true args := by
  cases args with
  | nil => exact absurd rfl h
  | cons a rest => rfl

theorem apply_minimum (h : args ≠ []) :
    minimum.apply args = combine minimum .lower .one args := by
  cases args with
  | nil => exact absurd rfl h
  | cons a rest => rfl

theorem apply_maximum (h : args ≠ []) :
    maximum.apply args = combine maximum .upper .zero args := by
  cases args with
  | nil => exact absurd rfl h
  | cons a rest => rfl

end Apply

/-- They look for a decisive operand, or they go to an extremum. -/
theorem apply_variadic (hc : c ∈ variadic) :
    (∃ decisive, ∀ args, args ≠ [] → c.apply args = untilDecisive c decisive args) ∨
      ∃ op start Range, Double.IsExtremum op start Range ∧
        ∀ args, args ≠ [] → c.apply args = combine c op start args := by
  cases c with
  | conjunction => exact .inl ⟨false, fun _ => apply_conjunction⟩
  | disjunction => exact .inl ⟨true, fun _ => apply_disjunction⟩
  | minimum => exact .inr ⟨_, _, _, Double.isExtremum_lower, fun _ => apply_minimum⟩
  | maximum => exact .inr ⟨_, _, _, Double.isExtremum_upper, fun _ => apply_maximum⟩
  | _ => exact absurd hc (by decide)

/-- Calls of a connective on blocks of its operands, and of the connective on these calls, run as
the call on all operands. -/
theorem sameRun_regroup {table : Table} (env : Environment) (hc : c ∈ variadic)
    (hget : table.get? c.name = some (.connective c)) {blocks : List (List Value)}
    (hblocks : ∀ block ∈ blocks, block ≠ []) :
    (evaluate table env (c.call blocks.flatten)).SameRun
      (evaluate table env (c.call (blocks.map c.call))) := by
  cases blocks with
  | nil => exact .refl _
  | cons block rest =>
    have hnonempty {programs : List Value} (h : programs ≠ []) :
        arguments table env programs ≠ [] := by
      rw [arguments_eq_map]
      simpa using h
    have hflat : (block :: rest).flatten ≠ [] := by simp [hblocks block (by simp)]
    refine (sameRun_call env hget _).trans (.trans ?_ (sameRun_call env hget _).symm)
    rcases apply_variadic hc with ⟨decisive, happly⟩ | ⟨op, start, Range, hop, happly⟩
    · rw [happly _ (hnonempty hflat), happly _ (hnonempty (by simp))]
      refine untilDecisive_regroup (fun block hblock => ?_) hblocks
      rw [← happly _ (hnonempty hblock)]
      exact sameRun_call env hget block
    · rw [happly _ (hnonempty hflat), happly _ (hnonempty (by simp))]
      refine combine_regroup hop (fun block hblock => ?_) hop.start_mem hblocks
      rw [← happly _ (hnonempty hblock)]
      exact sameRun_call env hget block

end Connective

/-- The operands of a connective that takes any number of them can be grouped into blocks: the
result and the trace stay the same. -/
theorem evaluate_regroup (table : Table) (env : Environment) (c : Connective)
    (hc : c ∈ Connective.variadic) (builtin : table.get? c.name = some (.connective c))
    (blocks : List (List Value)) (hblocks : ∀ block ∈ blocks, block ≠ []) :
    (evaluate table env (c.call blocks.flatten)).result =
        (evaluate table env (c.call (blocks.map c.call))).result ∧
      (evaluate table env (c.call blocks.flatten)).traceLines =
        (evaluate table env (c.call (blocks.map c.call))).traceLines :=
  Connective.sameRun_regroup env hc builtin hblocks

theorem evaluate_regroup_signed_zeros :
    let table : Table := .ofList [("fand", .connective .minimum), ("t", .trace "t")]
    let traced (x : Double) : Value := .expr [.str "t", .float x]
    let blocks : List (List Value) :=
      [[traced (.nan none)], [traced (.signed true .zero), traced .zero],
        [.float (.signed false .infinite), traced .one]]
    Connective.minimum ∈ Connective.variadic ∧
      table.get? Connective.minimum.name = some (.connective .minimum) ∧
      (∀ block ∈ blocks, block ≠ []) ∧
      (evaluate table .empty (.expr (.str "fand" :: blocks.flatten))).result =
        .float (.signed true .zero) ∧
      (evaluate table .empty (.expr (.str "fand" :: blocks.map Connective.minimum.call))).result =
        .float (.signed true .zero) ∧
      (evaluate table .empty (.expr (.str "fand" :: blocks.flatten))).traceLines =
        ["t nan", "t -0.0", "t 0.0", "t 1.0"] ∧
      (evaluate table .empty (.expr (.str "fand" :: blocks.map Connective.minimum.call))).traceLines
        = ["t nan", "t -0.0", "t 0.0", "t 1.0"] := by
  intro table traced blocks
  have hblocks : ∀ block ∈ blocks, block ≠ [] := by simp [blocks]
  obtain ⟨hresult, htrace⟩ := evaluate_regroup table .empty .minimum (by decide) rfl blocks hblocks
  have hflat : (evaluate table .empty (.expr (.str "fand" :: blocks.flatten))).result =
      .float (.signed true .zero) := by decide +kernel
  have hlines : (evaluate table .empty (.expr (.str "fand" :: blocks.flatten))).traceLines =
      ["t nan", "t -0.0", "t 0.0", "t 1.0"] := by decide +kernel
  exact ⟨by decide, rfl, hblocks, hflat, hresult.symm.trans hflat, hlines, htrace.symm.trans hlines⟩

end FuzzyRules

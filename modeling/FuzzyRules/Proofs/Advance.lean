import FuzzyRules.Proofs.Balance
import FuzzyRules.Proofs.Offset

/-!
# How far a cursor gets

A failure leaves the cursor where the reader gave up, and a host may go on from there. Where all
words have values, an operation at an index comes to one of a few things (`exists_passage`): a list
that is closed ends within the tokens, and one that is not closed takes the cursor to the end
(`readList_passage`). So the cursor never goes back, and after any row of operations it stands
between its start and the end (`exists_performAll`).
-/

namespace FuzzyRules.Cursor

/-- What can be asked of a cursor. -/
inductive Operation where
  | peek
  | advance
  | readForm
  | readList

/-- Whether an operation reads a value. -/
def Operation.reads : Operation → Bool
  | peek | advance => false
  | readForm | readList => true

/-- What an operation gives if it does not fail. -/
inductive Reply where
  | token (found : Option Token)
  | value (v : Value)

/-- Perform an operation: the reply, and the cursor after it, also if it fails. -/
def perform (c : Cursor) : Operation → Except ReadError Reply × Cursor
  | .peek => (c.peek.map .token, c)
  | .advance => (c.advance.1.map .token, c.advance.2)
  | .readForm => (c.readForm.1.map .value, c.readForm.2)
  | .readList => (c.readList.1.map .value, c.readList.2)

/-- Perform operations one after the other, whatever they give. -/
def performAll (c : Cursor) (ops : List Operation) : Cursor :=
  ops.foldl (fun c op => (c.perform op).2) c

/-- The token at the cursor can start a form: it is an opening one, or a word and the only token. -/
def StartsForm (c : Cursor) : Prop :=
  ∃ t, c.peek = .ok (some t) ∧ (t.kind = .opening ∨ t.kind = .atom ∧ c.tokens.size = 1)

/-! ## Single operations -/

/-- All that an operation at an index can come to, with the index after it. -/
inductive Passage (tokens : List Token) (i : Nat) :
    Operation → Except ReadError Reply → Nat → Prop where
  | peeked : Passage tokens i .peek (.ok (.token tokens[i]?)) i
  | advanced : i < tokens.length → Passage tokens i .advance (.ok (.token tokens[i]?)) (i + 1)
  | ended : tokens.length ≤ i → Passage tokens i .advance (.ok (.token none)) i
  | read {op : Operation} {v : Value} {j : Nat} : op.reads = true →
      (op = .readForm → StartsForm ⟨tokens.toArray, i⟩) → i < j → j ≤ tokens.length →
      Passage tokens i op (.ok (.value v)) j
  | refused {error : ReadError} : ¬StartsForm ⟨tokens.toArray, i⟩ →
      error.position? = some (i : Int) → Passage tokens i .readForm (.error error) i
  | unmatched {op : Operation} : op.reads = true →
      (op = .readForm → StartsForm ⟨tokens.toArray, i⟩) →
      Passage tokens i op (.error (.unmatched (max i tokens.length : Nat))) (max i tokens.length)

section Passages

variable {tokens : List Token} {i : Nat}

theorem startsForm_iff :
    StartsForm ⟨tokens.toArray, i⟩ ↔
      ∃ t, tokens[i]? = some t ∧ (t.kind = .opening ∨ t.kind = .atom ∧ tokens.length = 1) := by
  unfold StartsForm
  simp only [peek_natCast, Except.ok.injEq, List.size_toArray]

theorem advance_natCast (tokens : List Token) (i : Nat) :
    advance ⟨tokens.toArray, i⟩ =
      (.ok tokens[i]?, ⟨tokens.toArray, (if i < tokens.length then i + 1 else i : Nat)⟩) := by
  unfold advance
  rw [peek_natCast]
  by_cases hi : i < tokens.length
  · rw [List.getElem?_eq_getElem hi, if_pos hi]
    rfl
  · rw [List.getElem?_eq_none (by omega), if_neg hi]

/-- A list ends within the tokens, or it is not closed and all of them are consumed. -/
theorem readList_passage (readable : ∀ t ∈ tokens, ∃ v, Atom.read t.text = .ok v) (i : Nat) :
    (∃ v j, readList ⟨tokens.toArray, i⟩ = (.ok v, ⟨tokens.toArray, (j : Nat)⟩) ∧
      i < j ∧ j ≤ tokens.length) ∨
    readList ⟨tokens.toArray, i⟩ = (.error (.unmatched (max i tokens.length : Nat)),
      ⟨tokens.toArray, (max i tokens.length : Nat)⟩) := by
  have houtcome := readItems_outcome [] [] (tokens.drop i).tail
  have hlength := List.length_drop (i := i) (l := tokens)
  unfold readList
  rw [ahead?_natCast]
  simp only [move]
  generalize readItems [] [] (tokens.drop i).tail = result at houtcome
  cases houtcome with
  | @closed v used last rest heq _ _ _ =>
    have htail := congrArg List.length heq
    rw [List.length_tail, List.length_append, List.length_cons] at htail
    refine .inl ⟨v, i + ((tokens.drop i).length - rest.length), ?_, by omega, by omega⟩
    rw [Int.natCast_add]
  | unmatched _ =>
    have hstop : (i : Int) + ((tokens.drop i).length - ([] : List Token).length : Nat) =
        (max i tokens.length : Nat) := by
      rw [List.length_nil]
      omega
    simp only [hstop]
    exact .inr trivial
  | @stuck error before word rest heq _ _ hread _ _ _ =>
    have hword : word ∈ (tokens.drop i).tail := by
      rw [heq]
      simp
    obtain ⟨v, hv⟩ := readable word (List.mem_of_mem_drop (List.mem_of_mem_tail hword))
    rw [hv] at hread
    cases hread

/-- Where no form starts, the cursor stays. -/
theorem readForm_of_not_startsForm (h : ¬StartsForm ⟨tokens.toArray, i⟩) :
    ∃ error, readForm ⟨tokens.toArray, i⟩ = (.error error, ⟨tokens.toArray, i⟩) ∧
      error.position? = some (i : Int) := by
  rw [startsForm_iff] at h
  unfold readForm
  rw [peek_natCast]
  cases ht : tokens[i]? with
  | none => exact ⟨.noToken i, rfl, rfl⟩
  | some t =>
    have hlone : ¬(t.kind = .atom ∧ tokens.toArray.size = 1) := fun hlone => h ⟨t, ht, .inr hlone⟩
    have hopen : t.kind ≠ .opening := fun hopen => h ⟨t, ht, .inl hopen⟩
    simp only [hlone, hopen, if_false]
    exact ⟨.notOpening t.text i, rfl, rfl⟩

/-- A lone word is read for its value. -/
theorem readForm_word {t : Token} {v : Value} (ht : tokens[i]? = some t) (hk : t.kind = .atom)
    (hlone : tokens.length = 1) (hread : Atom.read t.text = .ok v) :
    readForm ⟨tokens.toArray, i⟩ = (.ok v, ⟨tokens.toArray, (i + 1 : Nat)⟩) := by
  unfold readForm
  rw [peek_natCast, ht]
  simp only [hk, List.size_toArray, hlone, and_self, if_true, hread]
  rfl

/-- An operation that reads a list, having looked at the token in front or not. -/
theorem exists_passage_of_list (readable : ∀ t ∈ tokens, ∃ v, Atom.read t.text = .ok v)
    {op : Operation} (hop : op.reads = true)
    (hstarts : op = .readForm → StartsForm ⟨tokens.toArray, i⟩)
    (hperform : perform ⟨tokens.toArray, i⟩ op = perform ⟨tokens.toArray, i⟩ .readList) :
    ∃ result j, perform ⟨tokens.toArray, i⟩ op = (result, ⟨tokens.toArray, (j : Nat)⟩) ∧
      Passage tokens i op result j := by
  rw [hperform, perform]
  rcases readList_passage readable i with ⟨v, j, hread, hlt, hle⟩ | hread
  · rw [hread]
    exact ⟨_, j, rfl, .read hop hstarts hlt hle⟩
  · rw [hread]
    exact ⟨_, _, rfl, .unmatched hop hstarts⟩

/-- An operation comes to one of the passages. -/
theorem exists_passage (readable : ∀ t ∈ tokens, ∃ v, Atom.read t.text = .ok v) (i : Nat)
    (op : Operation) :
    ∃ result j, perform ⟨tokens.toArray, i⟩ op = (result, ⟨tokens.toArray, (j : Nat)⟩) ∧
      Passage tokens i op result j := by
  cases op with
  | peek =>
    rw [perform, peek_natCast]
    exact ⟨_, i, rfl, .peeked⟩
  | advance =>
    rw [perform, advance_natCast]
    by_cases hi : i < tokens.length
    · rw [if_pos hi]
      exact ⟨_, i + 1, rfl, .advanced hi⟩
    · rw [if_neg hi, List.getElem?_eq_none (by omega)]
      exact ⟨_, i, rfl, .ended (by omega)⟩
  | readList => exact exists_passage_of_list readable rfl nofun rfl
  | readForm =>
    by_cases hstarts : StartsForm ⟨tokens.toArray, i⟩
    · obtain ⟨t, ht, hopen | ⟨hatom, hlone⟩⟩ := startsForm_iff.mp hstarts
      · refine exists_passage_of_list readable rfl (fun _ => hstarts) ?_
        rw [perform, readForm_opening ht hopen, perform]
      · obtain ⟨hi, -⟩ := List.getElem?_eq_some_iff.mp ht
        obtain ⟨v, hv⟩ := readable t (List.mem_of_getElem? ht)
        rw [perform, readForm_word ht hatom hlone hv]
        exact ⟨_, i + 1, rfl, .read rfl (fun _ => hstarts) (by omega) (by omega)⟩
    · obtain ⟨error, hread, hposition⟩ := readForm_of_not_startsForm hstarts
      rw [perform, hread]
      exact ⟨_, i, rfl, .refused hstarts hposition⟩

end Passages

/-! ## What a passage says -/

namespace Passage

variable {tokens : List Token} {i j : Nat} {op : Operation} {result : Except ReadError Reply}

theorem bounds (h : Passage tokens i op result j) : i ≤ j ∧ j ≤ max i tokens.length := by
  cases h <;> omega

theorem of_peek (h : Passage tokens i .peek result j) : j = i := by
  cases h with
  | peeked => rfl
  | read hop | unmatched hop => cases hop

theorem of_advance (h : Passage tokens i .advance result j) :
    j = if i < tokens.length then i + 1 else i := by
  cases h with
  | advanced hi => rw [if_pos hi]
  | ended hi => rw [if_neg (by omega)]
  | read hop | unmatched hop => cases hop

theorem of_not_startsForm (h : Passage tokens i .readForm result j)
    (hstarts : ¬StartsForm ⟨tokens.toArray, i⟩) : (∃ error, result = .error error) ∧ j = i := by
  cases h with
  | refused => exact ⟨⟨_, rfl⟩, rfl⟩
  | read _ hform | unmatched _ hform => exact absurd (hform rfl) hstarts

theorem position?_eq {error : ReadError} (h : Passage tokens i op (.error error) j) :
    error.position? = some (j : Int) := by
  cases h with
  | refused _ hposition => exact hposition
  | unmatched => rfl

/-- Every failure to read other than that no form starts is for want of a closing token. -/
theorem eq_max {error : ReadError} (h : Passage tokens i op (.error error) j)
    (hstarts : op = .readForm → StartsForm ⟨tokens.toArray, i⟩) : j = max i tokens.length := by
  cases h with
  | refused hnone => exact absurd (hstarts rfl) hnone
  | unmatched => rfl

theorem lt_of_value {v : Value} (h : Passage tokens i op (.ok (.value v)) j) : i < j := by
  cases h with
  | read _ _ hlt _ => exact hlt

end Passage

/-! ## Rows of operations -/

/-- After any row of operations the cursor stands between its start and the end. -/
theorem exists_performAll {tokens : List Token}
    (readable : ∀ t ∈ tokens, ∃ v, Atom.read t.text = .ok v) (start : Nat) (ops : List Operation) :
    ∃ i, performAll ⟨tokens.toArray, start⟩ ops = ⟨tokens.toArray, (i : Nat)⟩ ∧
      start ≤ i ∧ i ≤ max start tokens.length := by
  induction ops generalizing start with
  | nil => exact ⟨start, rfl, by omega, by omega⟩
  | cons op ops ih =>
    obtain ⟨result, j, hperform, hpassage⟩ := exists_passage readable start op
    have hbounds := hpassage.bounds
    obtain ⟨i, hrest, hlow, hhigh⟩ := ih j
    refine ⟨i, ?_, by omega, by omega⟩
    rw [performAll, List.foldl_cons, hperform]
    exact hrest

/-- Among tokens whose words have values, whatever was done with a cursor before: its position never
goes down, nor beyond its start and the end of the tokens. A failure has the position after it. If
no form starts at the cursor, reading a form leaves it there; any other failure takes it to the end,
and what is read takes it further. -/
theorem position_of_perform (tokens : List Token)
    (readable : ∀ t ∈ tokens, ∃ v, Atom.read t.text = .ok v) (start : Nat) (ops : List Operation)
    (op : Operation) :
    let c := performAll ⟨tokens.toArray, start⟩ ops
    let result := (c.perform op).1
    let after := (c.perform op).2
    c.position ≤ after.position ∧ after.position ≤ max start tokens.length ∧
    (op = .peek → after = c) ∧
    (op = .advance →
      after.position = if c.position < tokens.length then c.position + 1 else c.position) ∧
    (∀ error, result = .error error → error.position? = some after.position) ∧
    (op = .readForm → ¬c.StartsForm → (∃ error, result = .error error) ∧ after = c) ∧
    (∀ error, result = .error error → (op = .readForm → c.StartsForm) →
      after.position = max start tokens.length) ∧
    ∀ v, result = .ok (.value v) → c.position < after.position := by
  intro c
  obtain ⟨i, hc, hlow, hhigh⟩ := exists_performAll readable start ops
  obtain ⟨result, j, hperform, hpassage⟩ := exists_passage readable i op
  have hbounds := hpassage.bounds
  rw [show c = _ from hc, hperform]
  refine ⟨by simpa using hbounds.1, by simp only; omega, ?_, ?_, ?_, ?_, ?_, ?_⟩
  · rintro rfl
    rw [hpassage.of_peek]
  · rintro rfl
    have hj := hpassage.of_advance
    simp only [Int.ofNat_lt]
    split at hj <;> simp_all
  · rintro error rfl
    exact hpassage.position?_eq
  · rintro rfl hstarts
    obtain ⟨herror, rfl⟩ := hpassage.of_not_startsForm hstarts
    exact ⟨herror, rfl⟩
  · rintro error rfl hstarts
    have hj := hpassage.eq_max hstarts
    simp only
    omega
  · rintro v rfl
    exact Int.ofNat_lt.mpr hpassage.lt_of_value

/-- Over a form, a word and a list that is not closed: a form is read, no second one starts, and
after that failure the reader of a list skips the word and runs to the end. -/
theorem position_of_perform_after_failure :
    let tokens : List Token :=
      [.openParen, ⟨.atom, "f"⟩, .closeParen, ⟨.blank, "x"⟩, .openParen, ⟨.atom, "g"⟩]
    let c := performAll ⟨tokens.toArray, (0 : Nat)⟩ [.readForm]
    let d := performAll ⟨tokens.toArray, (0 : Nat)⟩ [.readForm, .readForm]
    (∀ t ∈ tokens, ∃ v, Atom.read t.text = .ok v) ∧
      (0 : Int) < c.position ∧ c.position = 3 ∧
      ¬c.StartsForm ∧ (c.perform .readForm).2 = c ∧
      (∃ error, (d.perform .readList).1 = .error error ∧ error.position? = some 6) ∧
      (d.perform .readList).2.position = 6 := by
  intro tokens c d
  have readable : ∀ t ∈ tokens, ∃ v, Atom.read t.text = .ok v := by
    intro t ht
    simp only [tokens, List.mem_cons, List.not_mem_nil, or_false] at ht
    rcases ht with rfl | rfl | rfl | rfl | rfl | rfl <;> exact ⟨_, rfl⟩
  have hform : readForm ⟨tokens.toArray, (0 : Nat)⟩ =
      (.ok (.expr [.str "f"]), ⟨tokens.toArray, (3 : Nat)⟩) :=
    readForm_listTokens ⟨_, [⟨.atom, "f"⟩, .closeParen], rfl, rfl, fun _ => rfl⟩ []
      [⟨.blank, "x"⟩, .openParen, ⟨.atom, "g"⟩]
  have hc : c = ⟨tokens.toArray, (3 : Nat)⟩ := congrArg Prod.snd hform
  have hstarts : ¬c.StartsForm := by
    rw [hc, startsForm_iff]
    rintro ⟨t, ht, hkind⟩
    cases ht
    rcases hkind with hkind | ⟨hkind, -⟩ <;> cases hkind
  have hlist : readList ⟨tokens.toArray, (3 : Nat)⟩ =
      (.error (.unmatched 6), ⟨tokens.toArray, 6⟩) := by
    rw [readList, ahead?_natCast]
    rfl
  obtain ⟨-, -, -, -, -, -, -, hread⟩ := position_of_perform tokens readable 0 [] .readForm
  obtain ⟨-, -, -, -, -, hstay, -⟩ := position_of_perform tokens readable 0 [.readForm] .readForm
  obtain ⟨-, -, -, -, hposition, -, hend, -⟩ :=
    position_of_perform tokens readable 0 [.readForm, .readForm] .readList
  have hd : d = c := (hstay rfl hstarts).2
  have herror : (d.perform .readList).1 = .error (.unmatched 6) := by
    rw [hd, hc, perform, hlist]
    rfl
  have hafter := hend _ herror (by simp)
  have hvalue : (perform ⟨tokens.toArray, (0 : Nat)⟩ .readForm).1 =
      .ok (.value (.expr [.str "f"])) := by
    rw [perform, hform]
    rfl
  exact ⟨readable, hread _ hvalue, by rw [hc]; rfl, hstarts, hd,
    ⟨_, herror, by rw [hposition _ herror, hafter]; rfl⟩, by rw [hafter]; rfl⟩

end FuzzyRules.Cursor

import FuzzyRules.Atom
import FuzzyRules.Proofs.Numeral
import FuzzyRules.Value.Text

/-!
# The leaves that words spell

A leaf is `Spellable` if some word is read as it. The text of such a leaf is a word
(`Spellable.isWord_render`) that is read as it again (`Spellable.read_render`), and only
such leaves are read (`spellable_of_read`).
-/

namespace FuzzyRules

open Literal

/-- The leaves that words are read as. They are new objects, so that no NaN has a holder. -/
inductive Spellable : Value → Prop where
  | bool (truth : Bool) : Spellable (.bool truth)
  | int {i : Int} : -2 ^ 31 ≤ i → i ≤ 2 ^ 31 - 1 → Spellable (.int i)
  | nan : Spellable (.float (.nan none))
  | infinite (negative : Bool) : Spellable (.float (.signed negative .infinite))
  | finite {x : Double} : x.within Atom.singleMax → Spellable (.float x)
  | str {text : String} : Token.IsWord text → Atom.read text = .ok (.str text) →
      Spellable (.str text)

/-! ## Signs -/

theorem isWordChar_of_mem_signText {negative : Bool} {c : Char} (h : c ∈ signText negative) :
    Token.isWordChar c := by
  cases negative with
  | false => cases h
  | true => cases List.mem_singleton.mp h; decide

section Unsigned

variable {negative : Bool} {c : Char} {cs : List Char} {text : String} (hc : isDigit c)
include hc

theorem splitSign_signText_append :
    splitSign (signText negative ++ c :: cs) = (negative, c :: cs) := by
  cases negative with
  | true => rfl
  | false =>
    show splitSign (c :: cs) = (false, c :: cs)
    unfold splitSign
    split
    · next h => cases h; exact absurd hc (by decide)
    · next h => cases h; exact absurd hc (by decide)
    · rfl

theorem foldCase_ne : foldCase c ≠ 'i' ∧ foldCase c ≠ 'n' := by
  have hrange := isDigit_iff.mp hc
  have hforeign : isForeignI c = false := by
    rw [isForeignI, Bool.or_eq_false_iff, decide_eq_false_iff_not, decide_eq_false_iff_not]
    constructor <;> (rintro rfl; revert hrange; decide)
  have hlower : c.toLower = c := by
    unfold Char.toLower
    rw [dif_neg]
    simp only [ge_iff_le, UInt32.le_iff_toNat_le]
    show ¬(65 ≤ c.toNat ∧ c.toNat ≤ 90)
    omega
  rw [foldCase, hforeign, if_neg nofun, hlower]
  constructor <;> (rintro rfl; revert hrange; decide)

/-- What starts with a digit after its sign is none of the words with a meaning. -/
theorem not_word_of_splitSign (htext : splitSign text.toList = (negative, c :: cs)) :
    text ≠ "true" ∧ text ≠ "false" ∧ word? text.toList = none := by
  refine ⟨?_, ?_, ?_⟩
  · rintro rfl; cases htext; exact absurd hc (by decide)
  · rintro rfl; cases htext; exact absurd hc (by decide)
  · obtain ⟨hi, hn⟩ := foldCase_ne hc
    unfold word?
    rw [htext]
    simp [hi, hn]

end Unsigned

/-! ## Numbers -/

namespace Atom

theorem toList_toString (i : Int) :
    (toString i).toList = signText (decide (i < 0)) ++ Nat.toDigits 10 i.natAbs := by
  rw [Int.toString_eq_repr, Int.repr_eq_if]
  by_cases h : 0 ≤ i
  · have habs : i.toNat = i.natAbs := by omega
    have hsign : decide (i < 0) = false := by simpa using h
    rw [if_pos h, Nat.toList_repr, habs, hsign]
    rfl
  · have habs : (-i).toNat = i.natAbs := by omega
    have hsign : decide (i < 0) = true := by simpa using h
    rw [if_neg h, String.toList_append, Nat.toList_repr, habs, hsign]
    rfl

theorem read_toString {i : Int} (hlow : -2 ^ 31 ≤ i) (hhigh : i ≤ 2 ^ 31 - 1) :
    read (toString i) = .ok (.int i) := by
  obtain ⟨c, cs, hcs⟩ := List.exists_cons_of_ne_nil (Nat.toDigits_ne_nil (n := i.natAbs) (b := 10))
  have hdigits : ∀ d ∈ c :: cs, isDigit d := by
    rw [← hcs]
    exact fun d => isDigit_of_mem_toDigits
  have hsplit : splitSign (toString i).toList = (decide (i < 0), c :: cs) := by
    rw [toList_toString, hcs]
    exact splitSign_signText_append (hdigits c (by simp))
  have hlength : (c :: cs).length ≤ 10 := by
    rw [← hcs]
    exact (Nat.length_toDigits_le_iff (by omega) (by omega)).mpr (by omega)
  have hinteger : integerDigits? (toString i).toList = some (decide (i < 0), c :: cs) := by
    unfold integerDigits?
    rw [hsplit]
    simp only [List.all_eq_true.mpr hdigits]
    rfl
  have hvalue : applySign (decide (i < 0)) (ofDigits 10 (c :: cs)) = i := by
    rw [← hcs, ofDigits_toDigits, applySign]
    simp only [decide_eq_true_eq]
    split <;> omega
  have hint32 : isInt32 i = true := by
    rw [isInt32, Bool.and_eq_true, decide_eq_true_eq, decide_eq_true_eq]
    exact ⟨hlow, hhigh⟩
  have hlimit : ¬digitLimit < (c :: cs).length := by
    unfold digitLimit
    omega
  obtain ⟨htrue, hfalse, -⟩ := not_word_of_splitSign (hdigits c (by simp)) hsplit
  rw [read, if_neg htrue, if_neg hfalse, hinteger]
  simp only [if_neg hlimit, hvalue, hint32, if_true]

/-- A numeral of single-precision range is read as the float that it spells. -/
theorem read_numeral {negative : Bool} {body : List Char} {m : Magnitude} {text : String}
    (hbody : Numeral body m) (htext : text.toList = signText negative ++ body)
    (hm : m.rank ≤ singleMax.rank) : read text = .ok (.float (.signed negative m)) := by
  obtain ⟨c, cs, hcons, hc⟩ := hbody.exists_cons
  have hsplit : splitSign text.toList = (negative, body) := by
    rw [htext, hcons]
    exact splitSign_signText_append hc
  have hinteger : integerDigits? text.toList = none := by
    obtain ⟨d, hmem, hd⟩ := hbody.exists_not_isDigit
    have hall : body.all isDigit = false := List.all_eq_false.mpr ⟨d, hmem, by simp [hd]⟩
    unfold integerDigits?
    rw [hsplit]
    simp [hall]
  have hreal : readReal text = .float (.signed negative m) := by
    have hwithin : (Double.signed negative m).within singleMax = true := decide_eq_true hm
    rw [readReal, hbody.decimal?_eq hsplit]
    simp only [Option.some_or, hwithin, if_true]
  obtain ⟨htrue, hfalse, hword⟩ := not_word_of_splitSign hc (hcons ▸ hsplit)
  rw [read, if_neg htrue, if_neg hfalse, hinteger, hword, hreal]

theorem singleMax_rank_lt : singleMax.rank < Magnitude.infiniteRank := by decide +kernel

end Atom

theorem Magnitude.isInfinite_eq_false {m : Magnitude}
    (h : m.rank ≤ Atom.singleMax.rank) : m.isInfinite = false := by
  have hlt := Atom.singleMax_rank_lt
  rw [Magnitude.isInfinite, beq_eq_false_iff_ne]
  omega

namespace Spellable

variable {v : Value}

theorem isWord_render (h : Spellable v) : Token.IsWord v.render := by
  cases h with
  | bool truth => cases truth <;> decide
  | @int i _ _ =>
    show Token.IsWord (toString i)
    unfold Token.IsWord
    rw [Atom.toList_toString]
    refine ⟨by simp [Nat.toDigits_ne_nil], fun c hc => ?_⟩
    rcases List.mem_append.mp hc with hc | hc
    · exact isWordChar_of_mem_signText hc
    · exact isWordChar_of_isDigit (isDigit_of_mem_toDigits hc)
  | nan => decide
  | infinite negative => cases negative <;> decide
  | @finite x hx =>
    cases x with
    | nan => cases hx
    | signed negative m =>
      obtain ⟨body, hbody, htext⟩ :=
        Double.exists_numeral_text (Magnitude.isInfinite_eq_false (of_decide_eq_true hx))
      show Token.IsWord (Double.signed negative m).text
      unfold Token.IsWord
      rw [htext negative]
      obtain ⟨c, cs, hcons, -⟩ := hbody.exists_cons
      refine ⟨by simp [hcons], fun d hd => ?_⟩
      rcases List.mem_append.mp hd with hd | hd
      · exact isWordChar_of_mem_signText hd
      · exact hbody.isWordChar d hd
  | str hword _ => exact hword

/-- A spellable leaf is read back from its text. -/
theorem read_render (h : Spellable v) : Atom.read v.render = .ok v := by
  cases h with
  | bool truth => cases truth <;> rfl
  | int hlow hhigh => exact Atom.read_toString hlow hhigh
  | nan => rfl
  | infinite negative => cases negative <;> rfl
  | @finite x hx =>
    cases x with
    | nan => cases hx
    | signed negative m =>
      have hm : m.rank ≤ Atom.singleMax.rank := of_decide_eq_true hx
      obtain ⟨body, hbody, htext⟩ :=
        Double.exists_numeral_text (Magnitude.isInfinite_eq_false hm)
      exact Atom.read_numeral hbody (htext negative) hm
  | str _ hread => exact hread

end Spellable

/-! ## What is read -/

theorem spellable_word? {cs : List Char} {x : Double} (h : word? cs = some x) :
    Spellable (.float x) := by
  unfold word? at h
  simp only at h
  split at h
  · cases h; exact .infinite _
  · split at h
    · cases h; exact .nan
    · cases h

theorem Atom.readReal_cases (text : String) :
    readReal text = .str text ∨ ((readReal text).kind ≠ .string ∧ Spellable (readReal text)) := by
  unfold readReal
  split
  · split
    · next hx => exact .inr ⟨nofun, .finite hx⟩
    · exact .inl rfl
  · exact .inl rfl

/-- What is read is a spellable leaf that is no string, or the text itself. -/
theorem Atom.read_cases {text : String} {v : Value} (h : read text = .ok v) :
    v = .str text ∨ (v.kind ≠ .string ∧ Spellable v) := by
  unfold read at h
  split at h
  · cases h; exact .inr ⟨nofun, .bool true⟩
  split at h
  · cases h; exact .inr ⟨nofun, .bool false⟩
  split at h
  · split at h
    · cases h
    · simp only [Except.ok.injEq] at h
      split at h
      · next hint =>
        subst h
        rw [isInt32, Bool.and_eq_true, decide_eq_true_eq, decide_eq_true_eq] at hint
        exact .inr ⟨nofun, .int hint.1 hint.2⟩
      · subst h
        exact readReal_cases text
  · split at h
    · next x hx =>
      split at h
      · cases h
      · cases h
        exact .inr ⟨nofun, spellable_word? hx⟩
    · cases h
      exact readReal_cases text

/-- Words are read as spellable leaves only. -/
theorem spellable_of_read {text : String} {v : Value} (hword : Token.IsWord text)
    (hread : Atom.read text = .ok v) : Spellable v := by
  rcases Atom.read_cases hread with rfl | ⟨-, hspell⟩
  · exact .str hword hread
  · exact hspell

end FuzzyRules

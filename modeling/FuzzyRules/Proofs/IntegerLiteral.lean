import FuzzyRules.Proofs.Inference
import FuzzyRules.Proofs.Monotone

/-!
# Integer literals of all sizes

An integer of 32 bits is read as it is, a larger one as the nearest number, and beyond the
single-precision range as its text. The range is tested after rounding: the greatest magnitude of
single precision has an even rank, so that the integers up to the middle between it and the next
magnitude are still read as numbers (`toRat_le_singleMax_iff`).
-/

namespace FuzzyRules

open Literal

/-- Spellings of an integer, `[+-]? digits` with at most 4300 digits. -/
inductive IntegerLiteral (text : String) : Int → Prop where
  | intro {sign digits : List Char} {ds : List Nat} : IsSign sign → Digits 10 digits ds → ds ≠ [] →
      digits.length ≤ 4300 → text.toList = sign ++ digits →
      IntegerLiteral text (if sign = ['-'] then -(numberOf 10 ds : Int) else numberOf 10 ds)

/-! ## The end of the range -/

/-- The magnitude after the greatest one of single precision. -/
def singleNext : Magnitude := .ofRank (Atom.singleMax.rank + 1)

theorem toRat_singleNext : singleNext.toRat = (2 ^ 24 - 1) * 2 ^ 104 + 2 ^ 75 := by
  have hunits : singleNext.units = ((2 ^ 24 - 1) * 2 ^ 104 + 2 ^ 75) * 2 ^ 1074 := by decide +kernel
  rw [Magnitude.toRat, hunits, Nat.cast_mul, Nat.cast_pow, Nat.cast_ofNat,
    mul_div_cancel_right₀ _ (by positivity)]
  norm_num

theorem toRat_le_singleMax_iff {m : Magnitude} {q : ℚ} (h : m.IsNearest q) :
    m.toRat ≤ (2 ^ 24 - 1) * 2 ^ 104 ↔ q ≤ (2 ^ 24 - 1) * 2 ^ 104 + 2 ^ 74 := by
  have hnext : singleNext.rank = Atom.singleMax.rank + 1 := by decide +kernel
  have heven : Atom.singleMax.rank % 2 = 0 := by decide +kernel
  have hmiddle := h.rank_le_iff hnext
  rw [and_iff_left heven, ← le_iff_lt_or_eq, ← Magnitude.toRat_le_toRat, toRat_singleMax,
    toRat_singleNext] at hmiddle
  rw [hmiddle]
  constructor <;> intro hq <;> linarith

/-! ## Reading -/

theorem readReal_eq_str_of_not_le {text : String} {negative : Bool} {q : ℚ} {m : Magnitude}
    (htext : DecimalText text.toList negative q) (hm : m.IsNearest q)
    (hmax : ¬m.toRat ≤ (2 ^ 24 - 1) * 2 ^ 104) : Atom.readReal text = .str text := by
  rw [Atom.readReal, numeral?_eq_some_iff.mpr ⟨negative, q, m, .inl htext, hm, rfl⟩]
  exact if_neg fun hwithin => hmax (within_singleMax_iff.mp hwithin)

theorem splitSign_digits {sign digits : List Char} {ds : List Nat} (hsign : IsSign sign)
    (hdigits : Digits 10 digits ds) :
    splitSign (sign ++ digits) = (decide (sign = ['-']), digits) := by
  refine splitSign_append hsign fun c hc => ne_sign (.inl ?_)
  exact ((digits_iff digitClass_decimal).mp hdigits).1 c (List.mem_of_mem_head? hc)

section Reading

variable {text : String} {n : Int} (h : IntegerLiteral text n)
include h

theorem IntegerLiteral.integerText : IntegerText text.toList n := by
  obtain ⟨hsign, hdigits, hne, -, htext⟩ := h
  rw [htext]
  exact .intro hsign hdigits hne

/-- A text has one sign and one row of digits. -/
theorem IntegerLiteral.length_le {sign digits : List Char} {ds : List Nat} (hsign : IsSign sign)
    (hdigits : Digits 10 digits ds) (htext : text.toList = sign ++ digits) :
    digits.length ≤ 4300 := by
  obtain ⟨hsign', hdigits', -, hshort, htext'⟩ := h
  have hsame := splitSign_digits hsign hdigits
  rw [← htext, htext', splitSign_digits hsign' hdigits'] at hsame
  obtain ⟨-, rfl⟩ := Prod.mk.inj hsame
  exact hshort

/-- The nearest number has the sign of the text. -/
theorem IntegerLiteral.exists_isNearest :
    ∃ negative m, DecimalText text.toList negative |(n : ℚ)| ∧ m.IsNearest |(n : ℚ)| ∧
      Double.IsNearest n (.signed negative m) := by
  obtain @⟨sign, digits, ds, hsign, hdigits, hne, -, htext⟩ := h
  have hdecimal := DecimalText.intro hsign (.whole hdigits hne) (.inl ⟨rfl, rfl⟩)
  have habs : |((if sign = ['-'] then -(numberOf 10 ds : Int) else numberOf 10 ds : Int) : ℚ)| =
      numberOf 10 ds := by
    split <;> simp
  rw [List.append_nil, ← htext, pow_zero, zpow_zero, div_one, mul_one, ← habs] at hdecimal
  have hnearest := Magnitude.isNearest_ofRatio (numberOf 10 ds) Nat.one_pos
  rw [Nat.cast_one, div_one, ← habs] at hnearest
  refine ⟨_, _, hdecimal, hnearest, ?_, hnearest⟩
  by_cases hminus : sign = ['-']
  · simp [hminus]
  · simp [hminus]

theorem IntegerLiteral.read_of_mem (hrange : -2 ^ 31 ≤ n ∧ n ≤ 2 ^ 31 - 1) :
    Atom.read text = .ok (.int n) :=
  read_of_int32Text (fun _ _ _ => h.length_le) ⟨h.integerText, hrange⟩

/-- Past 32 bits a literal is read as a real, whose nearest number decides between number and
text. -/
theorem IntegerLiteral.exists_read (hrange : ¬(-2 ^ 31 ≤ n ∧ n ≤ 2 ^ 31 - 1)) :
    ∃ negative m, m.IsNearest |(n : ℚ)| ∧ Double.IsNearest n (.signed negative m) ∧
      Atom.read text = .ok (if m.toRat ≤ (2 ^ 24 - 1) * 2 ^ 104 then .float (.signed negative m)
        else .str text) := by
  have hinteger := integer?_eq_some_iff.mpr h.integerText
  have htrue : text ≠ "true" := by rintro rfl; cases hinteger
  have hfalse : text ≠ "false" := by rintro rfl; cases hinteger
  have hint : ∀ i, ¬Int32Text text.toList i := by
    rintro i ⟨htext, hi⟩
    rw [integer?_eq_some_iff.mpr htext] at hinteger
    cases hinteger
    exact hrange hi
  obtain ⟨negative, m, hdecimal, hm, hx⟩ := h.exists_isNearest
  refine ⟨negative, m, hm, hx, ?_⟩
  have hword := h.integerText.word?_eq_none
  rw [read_of_word?_eq_none (fun _ _ _ => h.length_le) htrue hfalse hint hword]
  split
  · next hmax => rw [readReal_eq_float (.inl hdecimal) hm hmax]
  · next hmax => rw [readReal_eq_str_of_not_le hdecimal hm hmax]

/-- A number that a literal is read as is the nearest one, and of the single-precision range. -/
theorem IntegerLiteral.isNearest_of_read {x : Double} (hread : Atom.read text = .ok (.float x)) :
    Double.IsNearest n x ∧ |x.toRat| ≤ (2 ^ 24 - 1) * 2 ^ 104 := by
  by_cases hrange : -2 ^ 31 ≤ n ∧ n ≤ 2 ^ 31 - 1
  · rw [h.read_of_mem hrange] at hread
    cases hread
  · obtain ⟨negative, m, -, hx, hread'⟩ := h.exists_read hrange
    rw [hread] at hread'
    split at hread'
    · next hmax =>
      cases hread'
      exact ⟨hx, by rwa [Double.abs_toRat_signed]⟩
    · cases hread'

end Reading

theorem abs_le_singleMax_iff {n : Int} {m : Magnitude} (h : m.IsNearest |(n : ℚ)|) :
    m.toRat ≤ (2 ^ 24 - 1) * 2 ^ 104 ↔ |n| ≤ (2 ^ 24 - 1) * 2 ^ 104 + 2 ^ 74 := by
  rw [toRat_le_singleMax_iff h]
  norm_cast

/-- A literal of an integer is read as that integer if it has 32 bits, else as the nearest number if
it is at most `2 ^ 74` beyond the single-precision range, and as its own text if it is farther out.
The numbers stay within that range, and are in the order of the integers. -/
theorem read_integerLiteral (text : String) (n : Int) (h : IntegerLiteral text n) :
    (-2 ^ 31 ≤ n ∧ n ≤ 2 ^ 31 - 1 → Atom.read text = .ok (.int n)) ∧
    (¬(-2 ^ 31 ≤ n ∧ n ≤ 2 ^ 31 - 1) → |n| ≤ (2 ^ 24 - 1) * 2 ^ 104 + 2 ^ 74 →
      ∃ x, Double.IsNearest n x ∧ Atom.read text = .ok (.float x)) ∧
    ((2 ^ 24 - 1) * 2 ^ 104 + 2 ^ 74 < |n| → Atom.read text = .ok (.str text)) ∧
    ∀ x, Atom.read text = .ok (.float x) → |x.toRat| ≤ (2 ^ 24 - 1) * 2 ^ 104 ∧
      ∀ text' n' x', IntegerLiteral text' n' → Atom.read text' = .ok (.float x') → n ≤ n' →
        x.le x' = true := by
  refine ⟨h.read_of_mem, ?_, ?_, ?_⟩
  · intro hrange hnear
    obtain ⟨negative, m, hm, hx, hread⟩ := h.exists_read hrange
    rw [if_pos ((abs_le_singleMax_iff hm).mpr hnear)] at hread
    exact ⟨_, hx, hread⟩
  · intro hfar
    have hrange : ¬(-2 ^ 31 ≤ n ∧ n ≤ 2 ^ 31 - 1) := by
      rintro ⟨hlow, hhigh⟩
      have hsmall : |n| ≤ 2 ^ 31 := abs_le.mpr ⟨hlow, by omega⟩
      omega
    obtain ⟨negative, m, hm, -, hread⟩ := h.exists_read hrange
    rwa [if_neg fun hmax => absurd ((abs_le_singleMax_iff hm).mp hmax) (not_le.mpr hfar)] at hread
  · intro x hread
    obtain ⟨hx, hmax⟩ := h.isNearest_of_read hread
    refine ⟨hmax, fun text' n' x' h' hread' hle => ?_⟩
    exact hx.le (h'.isNearest_of_read hread').1 (Int.cast_le.mpr hle)

theorem integerLiteral_of_integer? {text : String} {n : Int} (h : integer? text.toList = some n)
    (hshort : text.toList.length ≤ 4300) : IntegerLiteral text n := by
  obtain ⟨⟨negative, digits⟩, hdigits, rfl⟩ := Option.map_eq_some_iff.mp h
  obtain ⟨sign, hsign, rfl, htext, hne, hall⟩ := exists_of_integerDigits? hdigits
  rw [htext, List.length_append] at hshort
  show IntegerLiteral text (applySign (decide (sign = ['-'])) (ofDigits 10 digits))
  rw [applySign_decide, ofDigits_eq_numberOf]
  exact .intro hsign ((digits_iff digitClass_decimal).mpr ⟨hall, rfl⟩) (by simpa using hne)
    (by omega) htext

/-- The last integer that is read as a number, one beyond it with a minus sign, and a signed
zero. -/
theorem read_integerLiteral_bounds :
    let last := "+0340282346638528878701170114963097780224"
    let beyond := "-340282346638528878701170114963097780225"
    let bound : Int := (2 ^ 24 - 1) * 2 ^ 104 + 2 ^ 74
    IntegerLiteral last bound ∧ IntegerLiteral beyond (-(bound + 1)) ∧ IntegerLiteral "-0" 0 ∧
      (∃ x, Double.IsNearest bound x ∧ Atom.read last = .ok (.float x) ∧
        |x.toRat| ≤ (2 ^ 24 - 1) * 2 ^ 104) ∧
      Atom.read beyond = .ok (.str beyond) ∧ Atom.read "-0" = .ok (.int 0) := by
  intro last beyond bound
  have hlast : IntegerLiteral last bound :=
    integerLiteral_of_integer? (by decide +kernel) (by decide +kernel)
  have hbeyond : IntegerLiteral beyond (-(bound + 1)) :=
    integerLiteral_of_integer? (by decide +kernel) (by decide +kernel)
  have hzero : IntegerLiteral "-0" 0 :=
    integerLiteral_of_integer? (by decide +kernel) (by decide +kernel)
  obtain ⟨-, hfloat, -, hmax⟩ := read_integerLiteral last bound hlast
  obtain ⟨x, hx, hread⟩ := hfloat (by decide) (by decide)
  exact ⟨hlast, hbeyond, hzero, ⟨x, hx, hread, (hmax x hread).1⟩,
    (read_integerLiteral beyond _ hbeyond).2.2.1 (by decide),
    (read_integerLiteral "-0" 0 hzero).1 (by decide)⟩

end FuzzyRules

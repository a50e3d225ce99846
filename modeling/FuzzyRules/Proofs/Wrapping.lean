import FuzzyRules.Proofs.Offset

/-!
# Reading from a negative position

A negative position counts from the end, and a cursor that starts there goes on with the first token
after the last one. So it sees the last tokens and then all of them: at each position the token is
that of the wrapped sequence (`tokenAt?_sub`), the tokens ahead are the same (`ahead?_sub`), and
lists and forms are read alike, with positions moved by the number of tokens that come twice
(`readList_sub`, `readForm_sub`).
-/

namespace FuzzyRules

/-- The same error at a position moved by an offset. -/
def ReadError.shift (offset : Int) : ReadError → ReadError
  | noToken position => noToken (position + offset)
  | unmatched position => unmatched (position + offset)
  | notOpening found position => notOpening found (position + offset)
  | trailing found position => trailing found (position + offset)
  | atom error => atom error
  | outOfRange => outOfRange

namespace Cursor

/-- The last `k` tokens, and behind them all tokens. -/
def wrapped (tokens : List Token) (k : Nat) : List Token :=
  tokens.drop (tokens.length - k) ++ tokens

/-- What reading the wrapped sequence comes to, with positions in the sequence itself. -/
def unwrap (tokens : List Token) (k : Nat) (outcome : Except ReadError Value × Cursor) :
    Except ReadError Value × Cursor :=
  (outcome.1.mapError (.shift (-k)), ⟨tokens.toArray, outcome.2.position - k⟩)

section Wrapped

variable {tokens : List Token} {k : Nat} (hk : k ≤ tokens.length)
include hk

theorem length_wrapped : (wrapped tokens k).length = tokens.length + k := by
  unfold wrapped
  rw [List.length_append, List.length_drop]
  omega

/-- Up to `k` the position is negative, and from there on it is an index. -/
theorem tokenAt?_sub (i : Nat) :
    tokenAt? tokens.toArray (i - k) = tokenAt? (wrapped tokens k).toArray i := by
  have hlast : (tokens.drop (tokens.length - k)).length = k := by
    rw [List.length_drop]
    omega
  rw [tokenAt?_natCast, wrapped]
  by_cases hi : i < k
  · have hfrom : ((i : Int) - k + tokens.length).toNat = tokens.length - k + i := by omega
    rw [List.getElem?_append_left (by omega), List.getElem?_drop]
    unfold tokenAt?
    rw [if_neg (by omega), if_pos (by simp only [List.size_toArray]; omega)]
    simp only [List.size_toArray, hfrom, List.getElem?_toArray]
  · rw [List.getElem?_append_right (by omega), hlast, ← tokenAt?_natCast]
    congr 1
    omega

theorem peek_sub (i : Nat) :
    peek ⟨tokens.toArray, i - k⟩ = peek ⟨(wrapped tokens k).toArray, i⟩ := by
  have hlt : (i : Int) - k < tokens.length ↔ (i : Int) < (wrapped tokens k).length := by
    rw [length_wrapped hk]
    omega
  unfold peek
  simp only [List.size_toArray, hlt, tokenAt?_sub hk]

theorem ahead?_sub (i : Nat) :
    ahead? ⟨tokens.toArray, i - k⟩ = ahead? ⟨(wrapped tokens k).toArray, i⟩ := by
  have hcount : ((tokens.length : Int) - (i - k)).toNat =
      ((wrapped tokens k).length - (i : Int)).toNat := by
    rw [length_wrapped hk]
    omega
  have htoken (j : Nat) : tokenAt? tokens.toArray (i - k + j) =
      tokenAt? (wrapped tokens k).toArray (i + j) := by
    rw [← Int.natCast_add, ← tokenAt?_sub hk, Int.natCast_add]
    congr 1
    omega
  unfold ahead?
  rw [if_neg (by simp only [List.size_toArray]; omega), if_neg (by simp only; omega)]
  simp only [List.size_toArray, hcount, htoken]

theorem readList_sub (i : Nat) :
    readList ⟨tokens.toArray, i - k⟩ =
      unwrap tokens k (readList ⟨(wrapped tokens k).toArray, i⟩) := by
  unfold readList
  rw [ahead?_sub hk, ahead?_natCast]
  simp only [move]
  generalize readItems [] [] ((wrapped tokens k).drop i).tail = result
  obtain ⟨result, rest⟩ := result
  have hstop (count : Nat) : (i : Int) - k + count = i + count - k := by omega
  rw [hstop]
  cases result with
  | ok v => rfl
  | error error => cases error <;> rfl

/-- Neither sequence is a lone word. -/
theorem readForm_sub (hlength : 2 ≤ tokens.length) (i : Nat) :
    readForm ⟨tokens.toArray, i - k⟩ =
      unwrap tokens k (readForm ⟨(wrapped tokens k).toArray, i⟩) := by
  have hwrapped := length_wrapped hk
  have hlone (t : Token) (ts : List Token) (hts : 2 ≤ ts.length) :
      ¬(t.kind = .atom ∧ ts.toArray.size = 1) := by
    rw [List.size_toArray]
    omega
  unfold readForm
  rw [peek_sub hk, peek_natCast]
  cases (wrapped tokens k)[i]? with
  | none => rfl
  | some t =>
    simp only [hlone t tokens hlength, hlone t (wrapped tokens k) (by omega), if_false]
    by_cases hopen : t.kind = .opening
    · simp only [hopen, if_true]
      exact readList_sub hk i
    · simp only [hopen, if_false]
      rfl

end Wrapped

end Cursor

open Cursor

/-- Reading from the `k`-th last token is reading the wrapped sequence, with the end, or the
position of an error, moved back by `k`. There is no token before the first one. -/
theorem readFormAt_neg (tokens : List Token) (k : Nat) (hlength : 2 ≤ tokens.length) :
    (k ≤ tokens.length →
      readFormAt tokens (-k) =
        match readFormAt (tokens.drop (tokens.length - k) ++ tokens) 0 with
        | .ok (v, stop) => .ok (v, stop - k)
        | .error error => .error (error.shift (-k))) ∧
    (tokens.length < k → readFormAt tokens (-k) = .error .outOfRange) := by
  constructor
  · intro hk
    have hread := readForm_sub hk hlength 0
    rw [Int.natCast_zero, Int.zero_sub] at hread
    unfold readFormAt
    rw [hread, ← wrapped]
    rcases readForm ⟨(wrapped tokens k).toArray, 0⟩ with ⟨error | v, stop⟩ <;> rfl
  · intro hk
    have hpeek : peek ⟨tokens.toArray, -k⟩ = .error .outOfRange := by
      unfold peek tokenAt?
      simp only [List.size_toArray]
      rw [if_pos (by omega), if_neg (by omega), if_neg (by omega)]
    unfold readFormAt readForm
    rw [hpeek]
    rfl

/-- A list that begins with the last tokens and is closed among the first ones, and an error in
front of it. -/
theorem readFormAt_neg_across_the_end :
    let tokens : List Token := [⟨.atom, "1"⟩, .closeParen, .openParen, ⟨.atom, "f"⟩]
    2 ≤ tokens.length ∧
      readFormAt tokens (-2) = .ok (.expr [.str "f", .int 1], 2) ∧
      readFormAt tokens (-3) = .error (.notOpening ")" (-3)) ∧
      readFormAt tokens (-5) = .error .outOfRange := by
  intro tokens
  have hlength : 2 ≤ tokens.length := by decide
  have hlist : readFormAt (tokens.drop 2 ++ tokens) 0 = .ok (.expr [.str "f", .int 1], 4) := by
    rw [show tokens.drop 2 ++ tokens = .openParen :: _ from rfl, readFormAt_opening rfl]
    rfl
  have herror : readFormAt (tokens.drop 1 ++ tokens) 0 = .error (.notOpening ")" 0) := by
    unfold readFormAt readForm
    rw [show tokens.drop 1 ++ tokens = .closeParen :: _ from rfl, peek_zero]
    rfl
  have hclosed := (readFormAt_neg tokens 2 hlength).1 (by decide)
  have hrefused := (readFormAt_neg tokens 3 hlength).1 (by decide)
  rw [show tokens.length - 2 = 2 from rfl, hlist] at hclosed
  rw [show tokens.length - 3 = 1 from rfl, herror] at hrefused
  exact ⟨hlength, hclosed, hrefused, (readFormAt_neg tokens 5 hlength).2 (by decide)⟩

end FuzzyRules

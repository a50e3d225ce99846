import FuzzyRules.Cursor

/-!
# Reading from the start

One step of `readItems` on each kind of token, and what `readTokens` does by its first
token: without the cursor, in terms of `readItems` on the tokens after it.
-/

namespace FuzzyRules

section Items

variable (items above : List Value) (outer : List (List Value)) (rest : List Token)

theorem readItems_atom (text : String) :
    readItems items outer (⟨.atom, text⟩ :: rest) =
      match Atom.readAt items.isEmpty text with
      | .ok v => readItems (v :: items) outer rest
      | .error error => (.error (.atom error), rest) := rfl

theorem readItems_openParen :
    readItems items outer (.openParen :: rest) = readItems [] (items :: outer) rest := rfl

theorem readItems_closeParen_outermost :
    readItems items [] (.closeParen :: rest) = (.ok (.expr items.reverse), rest) := rfl

theorem readItems_closeParen :
    readItems items (above :: outer) (.closeParen :: rest) =
      readItems (.expr items.reverse :: above) outer rest := rfl

end Items

namespace Cursor

theorem tokenAt?_natCast (tokens : List Token) (i : Nat) :
    tokenAt? tokens.toArray i = tokens[i]? := by
  rw [tokenAt?, if_pos (Int.natCast_nonneg i)]
  simp

theorem filterMap_getElem?_range (tokens : List Token) :
    (List.range tokens.length).filterMap (tokens[·]?) = tokens := by
  induction tokens with
  | nil => rfl
  | cons t ts ih =>
    simpa [List.range_succ_eq_map, List.filterMap_map, Function.comp_def] using ih

/-- From an index on, the tokens ahead are the ones not dropped. -/
theorem ahead?_natCast (tokens : List Token) (i : Nat) :
    ahead? ⟨tokens.toArray, i⟩ = some (tokens.drop i) := by
  have hsize : ((tokens.toArray.size : Int) - i).toNat = (tokens.drop i).length := by
    simp only [List.size_toArray, List.length_drop]; omega
  have hget : (fun (j : Nat) => tokenAt? tokens.toArray ((i : Int) + j)) =
      fun j => (tokens.drop i)[j]? := by
    funext j
    rw [← Int.natCast_add, tokenAt?_natCast, List.getElem?_drop]
  rw [ahead?, if_neg (by simp only; omega)]
  simp only [hsize, hget]
  rw [filterMap_getElem?_range]

end Cursor

open Cursor

theorem peek_zero (t : Token) (ts : List Token) :
    Cursor.peek ⟨(t :: ts).toArray, 0⟩ = .ok (some t) := by
  have h : tokenAt? (t :: ts).toArray 0 = some t := tokenAt?_natCast (t :: ts) 0
  rw [Cursor.peek, if_pos (by simp)]
  simp only [h]

theorem readTokens_nil : readTokens [] = .error (.noToken 0) := rfl

theorem readTokens_word (text : String) :
    readTokens [⟨.atom, text⟩] = (Atom.read text).mapError .atom := by
  have h : readFormAt [⟨.atom, text⟩] 0 = ((Atom.read text).mapError .atom).map (·, 1) := by
    rw [readFormAt, Cursor.readForm, peek_zero]
    rfl
  rw [readTokens, h]
  cases Atom.read text <;> rfl

theorem readTokens_notOpening {t : Token} {ts : List Token} (hk : t.kind ≠ .opening)
    (hlone : ts = [] → t.kind ≠ .atom) :
    readTokens (t :: ts) = .error (.notOpening t.text 0) := by
  have h : readFormAt (t :: ts) 0 = .error (.notOpening t.text 0) := by
    rw [readFormAt, Cursor.readForm, peek_zero]
    have : ¬ (t.kind = .atom ∧ (t :: ts).toArray.size = 1) := by
      rintro ⟨ha, hs⟩
      exact hlone (by simpa using hs) ha
    simp only [this, hk, if_false]
    rfl
  rw [readTokens, h]

theorem readFormAt_opening {t : Token} {ts : List Token} (hk : t.kind = .opening) :
    readFormAt (t :: ts) 0 =
      match readItems [] [] ts with
      | (.ok v, rest) => .ok (v, ((ts.length + 1 - rest.length : Nat) : Int))
      | (.error .unmatched, rest) => .error (.unmatched (ts.length + 1 - rest.length : Nat))
      | (.error (.atom error), _) => .error (.atom error) := by
  have ha : ahead? ⟨(t :: ts).toArray, 0⟩ = some (t :: ts) := ahead?_natCast (t :: ts) 0
  rw [readFormAt, Cursor.readForm, peek_zero]
  simp only [hk, if_true]
  rw [readList, ha]
  simp only [List.tail_cons, List.length_cons]
  rcases readItems [] [] ts with ⟨result, rest⟩
  cases result with
  | ok v => simp [Cursor.move, Except.map]
  | error error => cases error <;> simp [Cursor.move, Except.map]

section Opening

variable {t : Token} {ts rest : List Token} (hk : t.kind = .opening)
include hk

theorem readTokens_whole {v : Value} (h : readItems [] [] ts = (.ok v, [])) :
    readTokens (t :: ts) = .ok v := by
  rw [readTokens, readFormAt_opening hk, h]
  simp

theorem readTokens_trailing {v : Value} {u : Token} (used : List Token)
    (h : readItems [] [] ts = (.ok v, u :: rest)) (hts : ts = used ++ u :: rest) :
    readTokens (t :: ts) = .error (.trailing u.text (used.length + 1 : Nat)) := by
  have hstop : ts.length + 1 - (u :: rest).length = used.length + 1 := by
    rw [hts]; simp only [List.length_append, List.length_cons]; omega
  have hget : (t :: ts)[used.length + 1]? = some u := by rw [hts]; simp
  rw [readTokens, readFormAt_opening hk, h]
  simp only [hstop, Int.toNat_natCast, hget]

theorem readTokens_unmatched (h : readItems [] [] ts = (.error .unmatched, [])) :
    readTokens (t :: ts) = .error (.unmatched (ts.length + 1 : Nat)) := by
  rw [readTokens, readFormAt_opening hk, h]
  rfl

theorem readTokens_stuck {error : Atom.Error}
    (h : readItems [] [] ts = (.error (.atom error), rest)) :
    readTokens (t :: ts) = .error (.atom error) := by
  rw [readTokens, readFormAt_opening hk, h]

end Opening

end FuzzyRules

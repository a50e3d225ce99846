import FuzzyRules.Value.Basic

/-!
# Deciding identity of values

Identity of values, with floats told apart bit for bit and NaNs by their holders, is
decidable. It is finer than structural equality on signed zeros, and coarser on a NaN
without a holder, which is identical to itself.
-/

namespace FuzzyRules

deriving instance DecidableEq for Weighted

namespace Value

mutual

/-- Decide whether two values are identical. -/
def decEq : (a b : Value) → Decidable (a = b)
  | expr xs, expr ys =>
    match decEqList xs ys with
    | isTrue h => isTrue (by rw [h])
    | isFalse h => isFalse (by simpa using h)
  | fuzzy xs, fuzzy ys =>
    match decEqMembers xs ys with
    | isTrue h => isTrue (by rw [h])
    | isFalse h => isFalse (by simpa using h)
  | str s, str t => if h : s = t then isTrue (by rw [h]) else isFalse (by simpa using h)
  | int i, int j => if h : i = j then isTrue (by rw [h]) else isFalse (by simpa using h)
  | float x, float y => if h : x = y then isTrue (by rw [h]) else isFalse (by simpa using h)
  | bool p, bool q => if h : p = q then isTrue (by rw [h]) else isFalse (by simpa using h)
  | error s, error t => if h : s = t then isTrue (by rw [h]) else isFalse (by simpa using h)
  | expr _, str _ | expr _, int _ | expr _, float _
  | expr _, bool _ | expr _, fuzzy _ | expr _, error _ => isFalse nofun
  | str _, expr _ | str _, int _ | str _, float _
  | str _, bool _ | str _, fuzzy _ | str _, error _ => isFalse nofun
  | int _, expr _ | int _, str _ | int _, float _
  | int _, bool _ | int _, fuzzy _ | int _, error _ => isFalse nofun
  | float _, expr _ | float _, str _ | float _, int _
  | float _, bool _ | float _, fuzzy _ | float _, error _ => isFalse nofun
  | bool _, expr _ | bool _, str _ | bool _, int _
  | bool _, float _ | bool _, fuzzy _ | bool _, error _ => isFalse nofun
  | fuzzy _, expr _ | fuzzy _, str _ | fuzzy _, int _
  | fuzzy _, float _ | fuzzy _, bool _ | fuzzy _, error _ => isFalse nofun
  | error _, expr _ | error _, str _ | error _, int _
  | error _, float _ | error _, bool _ | error _, fuzzy _ => isFalse nofun

/-- Decide whether two lists of values are identical. -/
def decEqList : (xs ys : List Value) → Decidable (xs = ys)
  | [], [] => isTrue rfl
  | x :: xs, y :: ys =>
    match decEq x y, decEqList xs ys with
    | isTrue h, isTrue hs => isTrue (by rw [h, hs])
    | isFalse h, _ => isFalse (by simp [h])
    | _, isFalse hs => isFalse (by simp [hs])
  | [], _ :: _ | _ :: _, [] => isFalse nofun

/-- Decide whether two fuzzy sets are identical. -/
def decEqMembers : (xs ys : List (Weighted Value)) → Decidable (xs = ys)
  | [], [] => isTrue rfl
  | ⟨x, v⟩ :: xs, ⟨y, w⟩ :: ys =>
    match decEq x y, decEqMembers xs ys with
    | isTrue h, isTrue hs =>
      if hw : v = w then isTrue (by rw [h, hs, hw]) else isFalse (by simp [hw])
    | isFalse h, _ => isFalse (by simp [h])
    | _, isFalse hs => isFalse (by simp [hs])
  | [], _ :: _ | _ :: _, [] => isFalse nofun

end

instance : DecidableEq Value := decEq

end Value

end FuzzyRules

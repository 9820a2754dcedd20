import Mathlib.Data.List.Lex
import Mathlib.Data.Prod.Lex

/-!
# Comparison functions

A comparison function returns a negative number, zero or a positive one.  One that compares keys in
a linear order is a total preorder; sequences are compared by the first elements that differ.
-/

namespace SaneBackends.ThreeWay

variable {α β : Type*} [LinearOrder α] [LinearOrder β]

/-- The comparison of a linear order. -/
def threeWay (a b : α) : Int := if a < b then -1 else if a > b then 1 else 0

theorem threeWay_nonpos {a b : α} : threeWay a b ≤ 0 ↔ a ≤ b := by
  rw [threeWay]
  rcases lt_trichotomy a b with h | h | h
  · rw [if_pos h]
    exact ⟨fun _ => h.le, fun _ => by decide⟩
  · rw [if_neg h.not_lt, if_neg h.not_gt]
    exact ⟨fun _ => h.le, fun _ => le_rfl⟩
  · rw [if_neg h.not_gt, if_pos h]
    exact ⟨fun hle => absurd hle (by decide), fun hle => absurd h hle.not_gt⟩

theorem threeWay_eq_zero {a b : α} : threeWay a b = 0 ↔ a = b := by
  rw [threeWay]
  rcases lt_trichotomy a b with h | h | h
  · rw [if_pos h]
    exact ⟨fun heq => absurd heq (by decide), fun heq => absurd heq h.ne⟩
  · rw [if_neg h.not_lt, if_neg h.not_gt]
    exact ⟨fun _ => h, fun _ => rfl⟩
  · rw [if_neg h.not_gt, if_pos h]
    exact ⟨fun heq => absurd heq (by decide), fun heq => absurd heq h.ne'⟩

/-- Comparisons of two orders agree where the orders do. -/
theorem threeWay_congr {a b : α} {a' b' : β} (hlt : a < b ↔ a' < b') (hgt : b < a ↔ b' < a') :
    threeWay a b = threeWay a' b' := by
  rw [threeWay, threeWay]
  exact ite_congr (propext hlt) (fun _ => rfl) fun _ =>
    ite_congr (propext hgt) (fun _ => rfl) fun _ => rfl

theorem threeWay_cons (a b : α) (as bs : List α) : threeWay (a :: as) (b :: bs) =
    if threeWay a b ≠ 0 then threeWay a b else threeWay as bs := by
  split
  · rename_i hne
    rw [ne_eq, threeWay_eq_zero] at hne
    refine threeWay_congr ?_ ?_
    · rw [List.cons_lt_cons_iff]
      exact ⟨fun h => h.resolve_right fun heq => hne heq.1, .inl⟩
    · rw [List.cons_lt_cons_iff]
      exact ⟨fun h => h.resolve_right fun heq => hne heq.1.symm, .inl⟩
  · rename_i heq
    rw [not_not, threeWay_eq_zero] at heq
    subst heq
    refine threeWay_congr ?_ ?_
    · rw [List.cons_lt_cons_iff]
      exact ⟨fun h => (h.resolve_left (lt_irrefl _)).2, fun h => .inr ⟨rfl, h⟩⟩
    · rw [List.cons_lt_cons_iff]
      exact ⟨fun h => (h.resolve_left (lt_irrefl _)).2, fun h => .inr ⟨rfl, h⟩⟩

/-- Pairs with the same first part are compared by the second. -/
theorem threeWay_snd (a : α) (x y : β) :
    threeWay (toLex (a, x)) (toLex (a, y)) = threeWay x y := by
  refine threeWay_congr ?_ ?_
  · rw [Prod.Lex.toLex_lt_toLex]
    exact ⟨fun h => (h.resolve_left (lt_irrefl _)).2, fun h => .inr ⟨rfl, h⟩⟩
  · rw [Prod.Lex.toLex_lt_toLex]
    exact ⟨fun h => (h.resolve_left (lt_irrefl _)).2, fun h => .inr ⟨rfl, h⟩⟩

/-- Pairs with different first parts are compared by these. -/
theorem threeWay_fst {a b : α} (h : a ≠ b) (x y : β) :
    threeWay (toLex (a, x)) (toLex (b, y)) = threeWay a b := by
  refine threeWay_congr ?_ ?_
  · rw [Prod.Lex.toLex_lt_toLex]
    exact ⟨fun hlt => hlt.resolve_right fun heq => h heq.1, .inl⟩
  · rw [Prod.Lex.toLex_lt_toLex]
    exact ⟨fun hlt => hlt.resolve_right fun heq => h heq.1.symm, .inl⟩

end SaneBackends.ThreeWay

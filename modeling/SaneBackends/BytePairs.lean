import Mathlib.Data.List.Basic

/-!
# Exchanging neighbours

`swapPairs` exchanges the elements of a list two by two; the last one of an odd number
stays where it is.  The same in place, with an index that moves on by two.
-/

namespace SaneBackends.BytePairs

variable {α : Type*}

def swapPairs : List α → List α
  | a :: b :: l => b :: a :: swapPairs l
  | l => l

attribute [grind =] swapPairs

/-- Exchange the cells `i` and `i + 1`. -/
def swapAt (l : List α) (i : Nat) : List α :=
  match l[i]?, l[i + 1]? with
  | some a, some b => (l.set i b).set (i + 1) a
  | _, _ => l

/-- `for (cnt = 0; cnt < endCnt - 1; cnt += 2)`. -/
def swapLoop (l : List α) (endCnt : Nat) : List α :=
  (List.range' 0 (endCnt / 2) 2).foldl swapAt l

theorem length_swapPairs : ∀ xs : List α, (swapPairs xs).length = xs.length
  | [] => rfl
  | [_] => rfl
  | _ :: _ :: xs => by simp only [swapPairs, List.length_cons, length_swapPairs xs]

theorem swapPairs_append : ∀ {xs ys : List α}, xs.length % 2 = 0 →
    swapPairs (xs ++ ys) = swapPairs xs ++ swapPairs ys
  | [], _, _ => rfl
  | [_], _, h => by simp at h
  | a :: b :: xs, ys, h => by
    have hxs : xs.length % 2 = 0 := by
      simp only [List.length_cons] at h
      omega
    simp only [List.cons_append, swapPairs, swapPairs_append hxs]

theorem swapAt_cons (x : α) (l : List α) (i : Nat) :
    swapAt (x :: l) (i + 1) = x :: swapAt l i := by
  simp only [swapAt, List.getElem?_cons_succ]
  split <;> rfl

theorem foldl_swapAt_cons (x : α) (l : List α) (i k : Nat) :
    (List.range' (i + 1) k 2).foldl swapAt (x :: l) =
      x :: (List.range' i k 2).foldl swapAt l := by
  induction k generalizing l i with
  | zero => rfl
  | succ k ih =>
    rw [List.range'_succ, List.range'_succ, List.foldl_cons, List.foldl_cons, swapAt_cons,
      show i + 1 + 2 = i + 2 + 1 from rfl, ih]

theorem length_swapAt (l : List α) (i : Nat) : (swapAt l i).length = l.length := by
  unfold swapAt
  split
  · rw [List.length_set, List.length_set]
  · rfl

theorem length_swapLoop (l : List α) (e : Nat) : (swapLoop l e).length = l.length := by
  unfold swapLoop
  generalize List.range' 0 (e / 2) 2 = is
  induction is generalizing l with
  | nil => rfl
  | cons i is ih => rw [List.foldl_cons, ih, length_swapAt]

/-- The loop over the first `2 * k` cells. -/
theorem foldl_swapAt {l : List α} {k : Nat} (h : 2 * k ≤ l.length) :
    (List.range' 0 k 2).foldl swapAt l = swapPairs (l.take (2 * k)) ++ l.drop (2 * k) := by
  induction k generalizing l with
  | zero => rfl
  | succ k ih =>
    match l, h with
    | a :: b :: l, h =>
      have hk : 2 * k ≤ l.length := by
        simp only [List.length_cons] at h
        omega
      have hswap : swapAt (a :: b :: l) 0 = b :: a :: l := rfl
      rw [List.range'_succ, List.foldl_cons, hswap, foldl_swapAt_cons, foldl_swapAt_cons, ih hk,
        show 2 * (k + 1) = 2 * k + 1 + 1 from rfl]
      rfl

theorem swapLoop_eq {l : List α} {e : Nat} (he : e % 2 = 0) (h : e ≤ l.length) :
    swapLoop l e = swapPairs (l.take e) ++ l.drop e := by
  have hhalf : 2 * (e / 2) = e := by omega
  rw [swapLoop, foldl_swapAt (by omega), hhalf]

end SaneBackends.BytePairs

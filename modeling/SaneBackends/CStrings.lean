import SaneBackends.WireState

/-!
# Strings in C memory

The string functions of the C library.  A string is given by the block of bytes it
begins, and it ends before the first NUL in that block; a function that finds no NUL
where it needs one leaves the block.  `cString` is the string without the block.
-/

namespace SaneBackends

open Overwrite

/-- `strlen`: the number of bytes before the first NUL of a block. -/
def strlen : List SaneByte → Except Fault Nat
  | [] => .error .outOfBounds
  | b :: bs => if b = 0 then .ok 0 else (strlen bs).map (· + 1)

def toLower (b : SaneByte) : SaneByte := if 65 ≤ b.toNat ∧ b.toNat ≤ 90 then b + 32 else b

def isSpace (b : SaneByte) : Bool := b == 0x20 || (9 ≤ b.toNat && b.toNat ≤ 13)

def isDigit (b : SaneByte) : Bool := 48 ≤ b.toNat && b.toNat ≤ 57

/-- Whether at most `n` bytes of two strings are equal after `fold`. -/
def strnEqual (fold : SaneByte → SaneByte) : Nat → List SaneByte → List SaneByte →
    Except Fault Bool
  | 0, _, _ => .ok true
  | n + 1, a :: as, b :: bs =>
      if fold a ≠ fold b then .ok false
      else if a = 0 then .ok true
      else strnEqual fold n as bs
  | _ + 1, _, _ => .error .outOfBounds

/-- `strncmp (s, t, n) == 0`. -/
def strncmpEqual (s t : List SaneByte) (n : Nat) : Except Fault Bool := strnEqual id n s t

/-- `strncasecmp (s, t, n) == 0`. -/
def strncasecmpEqual (s t : List SaneByte) (n : Nat) : Except Fault Bool := strnEqual toLower n s t

/-- `strcmp (s, t) == 0`. -/
def strcmpEqual : List SaneByte → List SaneByte → Except Fault Bool
  | a :: as, b :: bs =>
      if a ≠ b then .ok false
      else if a = 0 then .ok true
      else strcmpEqual as bs
  | _, _ => .error .outOfBounds

/-- `strcpy (dest, src)`: the bytes of `src` with the NUL at their end. -/
def strcpy (dest src : List SaneByte) : Except Fault (List SaneByte) := do
  let n ← strlen src
  if n + 1 ≤ dest.length then .ok (overwrite dest 0 (src.take (n + 1)))
  else .error .outOfBounds

/-! ### The string in a block -/

/-- The bytes of a C string without the NUL at its end. -/
abbrev CStr := List SaneByte

def ascii (cs : List Char) : CStr := cs.map fun c => BitVec.ofNat 8 c.toNat

/-- The bytes before the first NUL. -/
def cString : List SaneByte → List SaneByte
  | [] => []
  | b :: bs => if b = 0 then [] else b :: cString bs

theorem cString_zero (bs : List SaneByte) : cString (0 :: bs) = [] := rfl

theorem cString_cons {b : SaneByte} (hb : b ≠ 0) (bs : List SaneByte) :
    cString (b :: bs) = b :: cString bs := if_neg hb

theorem ne_zero_of_mem_cString {b : SaneByte} {bs : List SaneByte} (h : b ∈ cString bs) :
    b ≠ 0 := by
  induction bs with
  | nil => cases h
  | cons c bs ih =>
    by_cases hc : c = 0
    · subst hc
      cases h
    · rw [cString_cons hc] at h
      rcases List.mem_cons.mp h with rfl | h
      · exact hc
      · exact ih h

theorem mem_zero_cons {b : SaneByte} {bs : List SaneByte} (h : 0 ∈ b :: bs) (hb : b ≠ 0) :
    0 ∈ bs :=
  (List.mem_cons.mp h).resolve_left fun h => hb h.symm

theorem strlen_cons_eq_ok {b : SaneByte} {bs : List SaneByte} {n : Nat} :
    strlen (b :: bs) = .ok n ↔ (b = 0 ∧ n = 0) ∨ (b ≠ 0 ∧ ∃ k, strlen bs = .ok k ∧ n = k + 1) := by
  rw [strlen]
  by_cases hb : b = 0
  · simp only [hb, ↓reduceIte, Except.ok.injEq, true_and, ne_eq, not_true_eq_false, false_and,
      or_false]
    exact eq_comm
  · simp only [hb, ↓reduceIte, false_and, ne_eq, not_false_eq_true, true_and, false_or]
    cases strlen bs with
    | error e => simp [Except.map]
    | ok k =>
      simp only [Except.map, Except.ok.injEq, exists_eq_left']
      exact eq_comm

/-- The bytes up to the first NUL, that NUL included. -/
theorem strlen_take {bs : List SaneByte} {n : Nat} (h : strlen bs = .ok n) :
    strlen (bs.take (n + 1)) = .ok n ∧ (bs.take (n + 1)).set n 0 = bs.take (n + 1) ∧
      n < bs.length := by
  induction bs generalizing n with
  | nil => cases h
  | cons b bs ih =>
    rcases (strlen_cons_eq_ok).mp h with ⟨rfl, rfl⟩ | ⟨hb, k, hk, rfl⟩
    · simp [strlen]
    · obtain ⟨h₁, h₂, h₃⟩ := ih hk
      refine ⟨?_, ?_, ?_⟩
      · rw [List.take_succ_cons]
        exact (strlen_cons_eq_ok).mpr (.inr ⟨hb, k, h₁, rfl⟩)
      · rw [List.take_succ_cons, List.set_cons_succ, h₂]
      · rw [List.length_cons]
        omega

theorem strlen_of_mem {bs : List SaneByte} (h : 0 ∈ bs) : strlen bs = .ok (cString bs).length := by
  induction bs with
  | nil => cases h
  | cons b bs ih =>
    by_cases hb : b = 0
    · subst hb
      exact (strlen_cons_eq_ok).mpr (.inl ⟨rfl, rfl⟩)
    · rw [cString_cons hb, List.length_cons]
      exact (strlen_cons_eq_ok).mpr (.inr ⟨hb, _, ih (mem_zero_cons h hb), rfl⟩)

theorem strlen_eq_ok {bs : List SaneByte} {n : Nat} :
    strlen bs = .ok n ↔ 0 ∈ bs ∧ n = (cString bs).length := by
  constructor
  · intro h
    have hmem : 0 ∈ bs := by
      induction bs generalizing n with
      | nil => cases h
      | cons b bs ih =>
        rcases (strlen_cons_eq_ok).mp h with ⟨rfl, -⟩ | ⟨-, k, hk, -⟩
        · exact List.mem_cons_self
        · exact List.mem_cons_of_mem _ (ih hk)
    rw [strlen_of_mem hmem] at h
    cases h
    exact ⟨hmem, rfl⟩
  · rintro ⟨hmem, rfl⟩
    exact strlen_of_mem hmem

/-- The string with its NUL. -/
theorem take_length_cString {bs : List SaneByte} (h : 0 ∈ bs) :
    bs.take ((cString bs).length + 1) = cString bs ++ [0] := by
  induction bs with
  | nil => cases h
  | cons b bs ih =>
    by_cases hb : b = 0
    · subst hb
      rfl
    · rw [cString_cons hb, List.length_cons, List.take_succ_cons, ih (mem_zero_cons h hb),
        List.cons_append]

/-- What stands behind a NUL does not belong to the string. -/
theorem cString_append_zero (xs ys : List SaneByte) : cString (xs ++ 0 :: ys) = cString xs := by
  induction xs with
  | nil => rfl
  | cons x xs ih =>
    by_cases hx : x = 0
    · rw [List.cons_append, hx, cString_zero, cString_zero]
    · rw [List.cons_append, cString_cons hx, cString_cons hx, ih]

theorem cString_eq_self {xs : List SaneByte} (h : 0 ∉ xs) : cString xs = xs := by
  induction xs with
  | nil => rfl
  | cons x xs ih =>
    rw [List.mem_cons, not_or] at h
    rw [cString_cons (Ne.symm h.1), ih h.2]

theorem cString_append {s : List SaneByte} (hs : ∀ b ∈ s, b ≠ 0) (bs : List SaneByte) :
    cString (s ++ 0 :: bs) = s := by
  rw [cString_append_zero, cString_eq_self fun h => hs 0 h rfl]

/-! ### Comparing and copying -/

/-- Comparing at most `n` bytes compares the beginnings of the strings. -/
theorem strnEqual_eq {fold : SaneByte → SaneByte} (hfold : ∀ b, fold b = 0 ↔ b = 0) {n : Nat}
    {as bs : List SaneByte} (ha : 0 ∈ as) (hb : 0 ∈ bs) :
    strnEqual fold n as bs =
      .ok (decide (((cString as).take n).map fold = ((cString bs).take n).map fold)) := by
  induction n generalizing as bs with
  | zero => simp [strnEqual]
  | succ n ih =>
    cases as with
    | nil => cases ha
    | cons a as =>
      cases bs with
      | nil => cases hb
      | cons b bs =>
        have hzero : fold 0 = 0 := (hfold 0).mpr rfl
        rw [strnEqual]
        by_cases ha0 : a = 0 <;> by_cases hb0 : b = 0
        · rw [ha0, hb0, cString_zero, cString_zero]
          simp
        · have hne : fold 0 ≠ fold b := fun h => hb0 ((hfold b).mp (h ▸ hzero))
          rw [ha0, if_pos hne, cString_zero, cString_cons hb0]
          simp
        · have hne : fold a ≠ fold 0 := fun h => ha0 ((hfold a).mp (h.trans hzero))
          rw [hb0, if_pos hne, cString_zero, cString_cons ha0]
          simp
        · rw [cString_cons ha0, cString_cons hb0]
          by_cases hab : fold a = fold b
          · rw [if_neg (not_not.mpr hab), if_neg ha0,
              ih (mem_zero_cons ha ha0) (mem_zero_cons hb hb0)]
            simp [hab]
          · rw [if_pos hab]
            simp [hab]

theorem strcmpEqual_eq {as bs : List SaneByte} (ha : 0 ∈ as) (hb : 0 ∈ bs) :
    strcmpEqual as bs = .ok (decide (cString as = cString bs)) := by
  induction as generalizing bs with
  | nil => cases ha
  | cons a as ih =>
    cases bs with
    | nil => cases hb
    | cons b bs =>
      rw [strcmpEqual]
      by_cases hab : a = b
      · subst hab
        rw [if_neg (not_not.mpr rfl)]
        by_cases ha0 : a = 0
        · rw [if_pos ha0, ha0, cString_zero, cString_zero]
          simp
        · rw [if_neg ha0, ih (mem_zero_cons ha ha0) (mem_zero_cons hb ha0), cString_cons ha0,
            cString_cons ha0]
          simp
      · rw [if_pos hab]
        by_cases ha0 : a = 0
        · have hb0 : b ≠ 0 := fun h => hab (ha0.trans h.symm)
          rw [ha0, cString_zero, cString_cons hb0]
          simp
        · by_cases hb0 : b = 0
          · rw [hb0, cString_zero, cString_cons ha0]
            simp
          · rw [cString_cons ha0, cString_cons hb0]
            simp [hab]

/-- A string is copied when it fits with its NUL. -/
theorem strcpy_eq {dest src : List SaneByte} (h : 0 ∈ src) :
    strcpy dest src =
      if (cString src).length + 1 ≤ dest.length then
        .ok (overwrite dest 0 (cString src ++ [0]))
      else .error .outOfBounds := by
  rw [strcpy, strlen_of_mem h, ← take_length_cString h]
  rfl

theorem cString_overwrite {dest s : List SaneByte} (hs : ∀ b ∈ s, b ≠ 0) :
    cString (overwrite dest 0 (s ++ [0])) = s ∧ 0 ∈ overwrite dest 0 (s ++ [0]) := by
  have happend : overwrite dest 0 (s ++ [0]) = s ++ 0 :: dest.drop (0 + (s ++ [0]).length) := by
    simp [overwrite]
  rw [happend]
  exact ⟨cString_append hs _, by simp⟩

theorem toLower_eq_zero (b : SaneByte) : toLower b = 0 ↔ b = 0 := by
  revert b
  decide

end SaneBackends

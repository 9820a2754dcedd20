import SaneBackends.CNumbers
import Mathlib.Data.List.TakeWhile

/-!
# Numerals

What `strtol` reads in base 10: white space, a sign and digits.  The text and the rest behind it
are determined by the string, since no digit follows.
-/

namespace SaneBackends

/-- Where `end` points after `strtol (s, &end, 10)`. -/
def strtolEnd (s : CStr) : CStr :=
  let signed := signOf (s.dropWhile isSpace)
  match digitsOf 10 signed.2 with
  | [] => s
  | ds => signed.2.drop ds.length

structure Numeral where
  blanks : CStr
  sign : CStr
  digits : CStr
  blanks_space : ∀ b ∈ blanks, isSpace b = true
  sign_cases : sign = [] ∨ sign = [0x2b] ∨ sign = [0x2d]
  digits_ne : digits ≠ []
  digits_digit : ∀ b ∈ digits, isDigit b = true
  deriving DecidableEq

/-- The limits of a `long`. -/
def toLong (v : Int) : Int := max (-2 ^ 63) (min v (2 ^ 63 - 1))

/-- No digit follows. -/
def NoDigit (s : CStr) : Prop := ∀ b, s.head? = some b → isDigit b = false

namespace Numeral

def text (n : Numeral) : CStr := n.blanks ++ (n.sign ++ n.digits)

def value (n : Numeral) : Int :=
  (if n.sign = [0x2d] then -1 else 1) *
    n.digits.foldl (fun (v : Int) b => v * 10 + ((b.toNat - 48 : Nat) : Int)) 0

end Numeral

/-! ### Cutting a string -/

variable {p : SaneByte → Bool} {s t r : CStr} {n : Numeral}

/-- Where a property ends the string is cut. -/
theorem span_append (hs : ∀ b ∈ s, p b = true) (hr : ∀ b, r.head? = some b → p b = false) :
    (s ++ r).takeWhile p = s ∧ (s ++ r).dropWhile p = r := by
  rw [List.takeWhile_append_of_pos hs, List.dropWhile_append_of_pos hs]
  cases r with
  | nil => exact ⟨List.append_nil s, rfl⟩
  | cons b r =>
    have hb : ¬ p b = true := by
      rw [hr b rfl]
      decide
    rw [List.takeWhile_cons_of_neg hb, List.dropWhile_cons_of_neg hb]
    exact ⟨List.append_nil s, rfl⟩

theorem head?_dropWhile_not (s : CStr) : ∀ b, (s.dropWhile p).head? = some b → p b = false := by
  intro b hb
  have hmem := List.head?_dropWhile_not p s
  rw [hb] at hmem
  exact hmem

theorem isDigit_iff {b : SaneByte} : isDigit b = true ↔ 48 ≤ b.toNat ∧ b.toNat ≤ 57 := by
  rw [isDigit, Bool.and_eq_true, decide_eq_true_eq, decide_eq_true_eq]

theorem digitsOf_ten (s : CStr) :
    digitsOf 10 s = (s.takeWhile isDigit).map fun b => b.toNat - 48 := by
  induction s with
  | nil => rfl
  | cons b s ih =>
    rw [digitsOf]
    by_cases hb : isDigit b = true
    · have hrange := (isDigit_iff).mp hb
      rw [List.takeWhile_cons_of_pos hb, List.map_cons, charValue, if_pos hrange]
      dsimp only
      rw [if_pos (by omega), ih]
    · rw [List.takeWhile_cons_of_neg hb, charValue, if_neg (fun h => hb ((isDigit_iff).mpr h))]
      rw [isDigit_iff] at hb
      split
      · rename_i d hd
        split at hd
        · cases hd
          rw [if_neg (by omega)]
          rfl
        split at hd
        · cases hd
          rw [if_neg (by omega)]
          rfl
        · cases hd
      · rfl

/-! ### Reading a numeral -/

def signText (s : CStr) : CStr :=
  if s.head? = some 0x2b then [0x2b] else if s.head? = some 0x2d then [0x2d] else []

theorem signText_cases (s : CStr) :
    signText s = [] ∨ signText s = [0x2b] ∨ signText s = [0x2d] := by
  rw [signText]
  split
  · exact .inr (.inl rfl)
  split
  · exact .inr (.inr rfl)
  · exact .inl rfl

theorem signText_append (s : CStr) : signText s ++ s.drop (signText s).length = s := by
  rw [signText]
  split
  · rename_i h
    obtain ⟨t, rfl⟩ := List.head?_eq_some_iff.mp h
    rfl
  split
  · rename_i h
    obtain ⟨t, rfl⟩ := List.head?_eq_some_iff.mp h
    rfl
  · rfl

theorem signOf_eq (s : CStr) :
    signOf s = (if signText s = [0x2d] then -1 else 1, s.drop (signText s).length) := by
  rw [signOf.eq_def, signText]
  split
  · rfl
  · rfl
  · rename_i hminus hplus
    have hplus' : s.head? ≠ some (0x2b : SaneByte) := fun h =>
      hplus _ (List.head?_eq_some_iff.mp h).choose_spec
    have hminus' : s.head? ≠ some (0x2d : SaneByte) := fun h =>
      hminus _ (List.head?_eq_some_iff.mp h).choose_spec
    rw [if_neg hplus', if_neg hminus']
    rfl

namespace Numeral

def read (s : CStr) : Option (Numeral × CStr) :=
  let signed := s.dropWhile isSpace
  let unsigned := signed.drop (signText signed).length
  if h : unsigned.takeWhile isDigit = [] then none
  else
    some (⟨s.takeWhile isSpace, signText signed, unsigned.takeWhile isDigit,
      fun _ => List.mem_takeWhile_imp, signText_cases signed, h, fun _ => List.mem_takeWhile_imp⟩,
      unsigned.dropWhile isDigit)

theorem not_space_of_digit {b : SaneByte} (h : isDigit b = true) : isSpace b = false := by
  have hrange := (isDigit_iff).mp h
  rw [isSpace, Bool.or_eq_false_iff, beq_eq_false_iff_ne, Bool.and_eq_false_iff]
  refine ⟨fun heq => ?_, .inr (decide_eq_false (by omega))⟩
  rw [heq] at hrange
  exact absurd hrange.1 (by decide)

/-- A numeral begins with a digit behind its blanks and its sign. -/
theorem digits_eq_cons (n : Numeral) : ∃ b bs, n.digits = b :: bs ∧ isDigit b = true := by
  obtain ⟨b, bs, hdigits⟩ := List.exists_cons_of_ne_nil n.digits_ne
  exact ⟨b, bs, hdigits, n.digits_digit b (by rw [hdigits]; exact List.mem_cons_self)⟩

theorem signText_text (n : Numeral) (r : CStr) : signText (n.sign ++ (n.digits ++ r)) = n.sign := by
  rcases n.sign_cases with hsign | hsign | hsign
  · obtain ⟨b, bs, hdigits, hb⟩ := n.digits_eq_cons
    have hne : ∀ x : SaneByte, isDigit x = false →
        (b :: (bs ++ r)).head? ≠ some x := by
      rintro x hx ⟨⟩
      rw [hb] at hx
      cases hx
    rw [hsign, hdigits, List.nil_append, List.cons_append, signText, if_neg (hne _ (by decide)),
      if_neg (hne _ (by decide))]
  · rw [hsign]
    rfl
  · rw [hsign]
    rfl

theorem head_not_space (n : Numeral) (r : CStr) :
    ∀ b, (n.sign ++ (n.digits ++ r)).head? = some b → isSpace b = false := by
  intro b hb
  rcases n.sign_cases with hsign | hsign | hsign
  · obtain ⟨d, ds, hdigits, hd⟩ := n.digits_eq_cons
    rw [hsign, hdigits] at hb
    cases hb
    exact not_space_of_digit hd
  · rw [hsign] at hb
    cases hb
    rfl
  · rw [hsign] at hb
    cases hb
    rfl

/-- A numeral does not begin with a bracket. -/
theorem head_ne_bracket (n : Numeral) (r : CStr) : (n.text ++ r).head? ≠ some 0x5b := by
  intro h
  rw [text] at h
  cases hblanks : n.blanks with
  | nil =>
    rcases n.sign_cases with hsign | hsign | hsign
    · obtain ⟨b, bs, hdigits, hb⟩ := n.digits_eq_cons
      rw [hblanks, hsign, hdigits] at h
      cases h
      cases hb
    · rw [hblanks, hsign] at h
      cases h
    · rw [hblanks, hsign] at h
      cases h
  | cons b bs =>
    have hb := n.blanks_space b (by rw [hblanks]; exact List.mem_cons_self)
    rw [hblanks] at h
    cases h
    cases hb

/-- What is read is the numeral, if no digit follows. -/
theorem read_append (n : Numeral) (h : NoDigit r) : read (n.text ++ r) = some (n, r) := by
  obtain ⟨hblanks, hsigned⟩ := span_append n.blanks_space (head_not_space n r)
  obtain ⟨hdigits, hrest⟩ := span_append n.digits_digit h
  have htext : n.text ++ r = n.blanks ++ (n.sign ++ (n.digits ++ r)) := by
    rw [text, List.append_assoc, List.append_assoc]
  have hunsigned : (n.sign ++ (n.digits ++ r)).drop n.sign.length = n.digits ++ r :=
    List.drop_left
  rw [htext, read]
  simp only [hblanks, hsigned, signText_text, hunsigned, hdigits, hrest]
  exact dif_neg n.digits_ne

theorem read_eq_some (h : read s = some (n, r)) : s = n.text ++ r ∧ NoDigit r := by
  rw [read] at h
  split at h
  · cases h
  · cases h
    refine ⟨?_, head?_dropWhile_not _⟩
    rw [text]
    dsimp only
    rw [List.append_assoc, List.append_assoc, List.takeWhile_append_dropWhile, signText_append,
      List.takeWhile_append_dropWhile]

/-- `strtol` reads a numeral. -/
theorem strtol_eq (s : CStr) : strtol 10 s = (read s).map fun n => toLong n.1.value := by
  have hradix : ∀ t : CStr, radixOf 10 t = (10, t) := by
    intro t
    rw [radixOf, if_neg (fun h => h.2.elim (by decide) (by decide)), if_neg (by decide)]
  rw [strtol, signOf_eq, hradix, digitsOf_ten, read]
  dsimp only
  split
  · rename_i hdigits
    rw [dif_pos (List.map_eq_nil_iff.mp hdigits)]
    rfl
  · rename_i hdigits
    rw [dif_neg (fun hnil => hdigits (List.map_eq_nil_iff.mpr hnil)), Option.map_some, value,
      bind_pure_comp, List.map_eq_map, List.foldl_map, List.foldl_map]
    rfl

theorem strtolEnd_eq (s : CStr) : strtolEnd s = (read s).elim s Prod.snd := by
  rw [strtolEnd, signOf_eq, digitsOf_ten, read]
  dsimp only
  split
  · rename_i hdigits
    rw [dif_pos (List.map_eq_nil_iff.mp hdigits)]
    rfl
  · rename_i hdigits
    rw [dif_neg (fun hnil => hdigits (List.map_eq_nil_iff.mpr hnil)), Option.elim_some,
      List.length_map]
    have hsplit := List.takeWhile_append_dropWhile (p := isDigit)
      (l := (s.dropWhile isSpace).drop (signText (s.dropWhile isSpace)).length)
    nth_rewrite 2 [← hsplit]
    exact List.drop_left

end Numeral

end SaneBackends

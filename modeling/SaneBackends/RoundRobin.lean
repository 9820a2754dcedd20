import Mathlib.Tactic.SplitIfs
import Mathlib.Data.Int.Init

/-!
# Searching in a circle

`n` slots are looked at one after the other, from `h` on and from the beginning again
after the last of them, until a free one is found or the next one would be `last`.
The index starts again only when the next slot is looked at, so in front of slot 0 it
is `n`, and the search is never left there.
-/

namespace SaneBackends.RoundRobin

/-- The slot an index stands for. -/
def wrap (n h : Nat) : Nat := if n ≤ h then 0 else h

/-- `none` means that `fuel` steps are not enough; `some none` that the search was left. -/
def search (used : Nat → Bool) (n : Nat) (last : Int) : Nat → Nat → Option (Option Nat)
  | 0, _ => none
  | fuel + 1, h =>
      if used (wrap n h) then
        if (wrap n h + 1 : Nat) = last then some none
        else search used n last fuel (wrap n h + 1)
      else some (some (wrap n h))

attribute [grind =] search

variable {used : Nat → Bool} {n fuel h : Nat} {last : Int}

theorem wrap_lt (hn : 0 < n) : wrap n h < n := by
  unfold wrap
  split_ifs <;> omega

/-- With more fuel the result is the same. -/
theorem search_mono {r : Option Nat} (hr : search used n last fuel h = some r) {fuel' : Nat}
    (hle : fuel ≤ fuel') : search used n last fuel' h = some r := by
  induction fuel generalizing h fuel' with
  | zero => cases hr
  | succ fuel ih =>
    cases fuel' with
    | zero => omega
    | succ fuel' =>
      rw [search] at hr ⊢
      split_ifs at hr ⊢
      · exact hr
      · exact ih hr (by omega)
      · exact hr

/-- What is found is a free slot. -/
theorem search_found {i : Nat} (hn : 0 < n) (hr : search used n last fuel h = some (some i)) :
    i < n ∧ used i = false := by
  induction fuel generalizing h with
  | zero => cases hr
  | succ fuel ih =>
    rw [search] at hr
    split_ifs at hr with hused
    · cases hr
    · exact ih hr
    · cases hr
      exact ⟨wrap_lt hn, by simpa using hused⟩

theorem wrap_succ (hn : 0 < n) :
    wrap n (wrap n h + 1) = if wrap n h + 1 < n then wrap n h + 1 else 0 := by
  unfold wrap
  split_ifs <;> omega

/-- Slot `last` is not looked at, unless it is the first one. -/
theorem search_found_ne {l i : Nat} (h0 : 0 < l) (hl : l < n) (hne : wrap n h ≠ l)
    (hr : search used n l fuel h = some (some i)) : i ≠ l := by
  induction fuel generalizing h with
  | zero => cases hr
  | succ fuel ih =>
    rw [search] at hr
    split_ifs at hr with hused hlast
    · cases hr
    · refine ih ?_ hr
      rw [wrap_succ (by omega)]
      split_ifs <;> omega
    · cases hr
      exact hne

/-- A search that is left has seen the slots between its start and `last`. -/
theorem search_left {l : Nat} (hl : l < n)
    (hr : search used n l fuel h = some none) {i : Nat} (hi : i < n)
    (hahead : if wrap n h < l then wrap n h ≤ i ∧ i < l else wrap n h ≤ i ∨ i < l) :
    used i = true := by
  induction fuel generalizing h with
  | zero => cases hr
  | succ fuel ih =>
    have hlt := wrap_lt (n := n) (h := h) (by omega)
    rw [search] at hr
    split_ifs at hr with hused hlast
    · have hbefore : wrap n h < l := by omega
      rw [if_pos hbefore] at hahead
      obtain rfl : i = wrap n h := by omega
      exact hused
    · by_cases hih : i = wrap n h
      · rwa [hih]
      · refine ih hr ?_
        rw [wrap_succ (by omega)]
        split_ifs at hahead ⊢ <;> omega
    · cases hr

/-- A search with a slot to be left at comes to an end. -/
theorem search_ends {l : Nat} (h0 : 0 < l) (hl : l < n)
    (hfuel : (if wrap n h < l then l - wrap n h else n - wrap n h + l) ≤ fuel) :
    ∃ r, search used n l fuel h = some r := by
  induction fuel generalizing h with
  | zero =>
    have hlt := wrap_lt (n := n) (h := h) (by omega)
    split_ifs at hfuel <;> omega
  | succ fuel ih =>
    have hlt := wrap_lt (n := n) (h := h) (by omega)
    rw [search]
    split_ifs with hused hlast
    · exact ⟨_, rfl⟩
    · apply ih
      rw [wrap_succ (by omega)]
      split_ifs at hfuel ⊢ <;> omega
    · exact ⟨_, rfl⟩

/-- A search for a slot that is free comes to an end, too. -/
theorem search_ends_of_free {j : Nat} (hj : j < n) (hfree : used j = false)
    (hfuel : (if wrap n h ≤ j then j - wrap n h + 1 else n - wrap n h + j + 1) ≤ fuel) :
    ∃ r, search used n last fuel h = some r := by
  induction fuel generalizing h with
  | zero => split_ifs at hfuel <;> omega
  | succ fuel ih =>
    have hlt := wrap_lt (n := n) (h := h) (by omega)
    rw [search]
    split_ifs with hused hlast
    · exact ⟨_, rfl⟩
    · apply ih
      have hne : wrap n h ≠ j := by
        intro hwrap
        rw [hwrap, hfree] at hused
        cases hused
      rw [wrap_succ (by omega)]
      split_ifs at hfuel ⊢ <;> omega
    · exact ⟨_, rfl⟩

/-- The search is not left when `last` is the first slot. -/
theorem search_not_left (hlast : last ≤ 0) : search used n last fuel h ≠ some none := by
  induction fuel generalizing h with
  | zero => simp [search]
  | succ fuel ih =>
    rw [search]
    split_ifs with hused hleft
    · omega
    · exact ih
    · simp

/-- So with no free slot it goes on for ever. -/
theorem search_diverges (hn : 0 < n) (hlast : last ≤ 0) (hall : ∀ i < n, used i = true) :
    search used n last fuel h = none := by
  cases hr : search used n last fuel h with
  | none => rfl
  | some r =>
    cases r with
    | none => exact absurd hr (search_not_left hlast)
    | some i =>
      obtain ⟨hi, hfree⟩ := search_found hn hr
      rw [hall i hi] at hfree
      cases hfree

end SaneBackends.RoundRobin

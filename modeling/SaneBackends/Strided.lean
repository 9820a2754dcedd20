import SaneBackends.InPlace

/-!
# Cells at equal distances

A loop that stores into every `stride`-th cell of a block.  It stays inside when the last cell
does; it changes these cells and no others.
-/

namespace SaneBackends.Strided

open InPlace Overwrite

variable {α : Type*} {mem mem' : List α} {dest stride count i : Nat} {x : Nat → α}

/-- `mem[dest + j * stride] = x(j)` for the first `count` numbers `j` -/
def storeStrided (mem : List α) (dest stride count : Nat) (x : Nat → α) : Option (List α) :=
  (List.range count).foldlM (fun mem j => store mem (dest + j * stride) [x j]) mem

theorem store_cell {x : α} (h : i < mem.length) : store mem i [x] = some (mem.set i x) := by
  rw [store_eq (by rwa [List.length_singleton]), overwrite_cons h, overwrite_nil]

theorem storeStrided_succ :
    storeStrided mem dest stride (count + 1) x =
      (storeStrided mem dest stride count x).bind fun mem =>
        store mem (dest + count * stride) [x count] := by
  rw [storeStrided, List.range_succ, List.foldlM_append]
  cases hmem : (List.range count).foldlM (fun mem j => store mem (dest + j * stride) [x j]) mem with
  | none =>
    rw [storeStrided, hmem]
    rfl
  | some mem' =>
    rw [storeStrided, hmem]
    change (store mem' (dest + count * stride) [x count]).bind some = _
    exact Option.bind_fun_some _

/-- What the loop leaves. -/
structure Stored (mem mem' : List α) (dest stride count : Nat) (x : Nat → α) : Prop where
  length : mem'.length = mem.length
  there : ∀ j < count, mem'[dest + j * stride]? = some (x j)
  elsewhere : ∀ i, (∀ j < count, i ≠ dest + j * stride) → mem'[i]? = mem[i]?

theorem storeStrided_spec (hstride : 0 < stride)
    (h : ∀ j < count, dest + j * stride < mem.length) :
    ∃ mem', storeStrided mem dest stride count x = some mem' ∧
      Stored mem mem' dest stride count x := by
  induction count with
  | zero => exact ⟨mem, rfl, rfl, fun j hj => absurd hj (Nat.not_lt_zero j), fun _ _ => rfl⟩
  | succ count ih =>
    obtain ⟨mem', hrun, hlength, hthere, helsewhere⟩ := ih fun j hj => h j (by omega)
    have hlast := h count (Nat.lt_succ_self count)
    rw [storeStrided_succ, hrun, Option.bind_some, store_cell (by omega)]
    refine ⟨_, rfl, ?_, fun j hj => ?_, fun i hi => ?_⟩
    · rw [List.length_set, hlength]
    · rcases Nat.lt_succ_iff_lt_or_eq.mp hj with hless | rfl
      · have hmul : j * stride < count * stride := Nat.mul_lt_mul_of_pos_right hless hstride
        rw [List.getElem?_set_ne (by omega), hthere j hless]
      · rw [List.getElem?_set_self (by omega)]
    · rw [List.getElem?_set_ne (hi count (Nat.lt_succ_self count)).symm]
      exact helsewhere i fun j hj => hi j (by omega)

end SaneBackends.Strided

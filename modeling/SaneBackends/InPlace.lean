import SaneBackends.Overwrite
import Mathlib.Data.List.Range

/-!
# Loops that work in place

Cells of a memory are read and stored; a cell that does not exist is a fault.  A loop that
stores what it makes of cells that it has not reached yet leaves what it would have made of
the memory as it was before the loop.
-/

namespace SaneBackends.InPlace

open Overwrite

variable {α : Type*}

/-- The `n` cells from index `i` on, if there are so many. -/
def load (mem : List α) (i n : Nat) : Option (List α) :=
  if i + n ≤ mem.length then some (stretch mem i n) else none

/-- The memory after `xs` has been stored from index `i` on, if there are so many cells. -/
def store (mem : List α) (i : Nat) (xs : List α) : Option (List α) :=
  if i + xs.length ≤ mem.length then some (overwrite mem i xs) else none

def memmove (mem : List α) (dst src n : Nat) : Option (List α) := do
  store mem dst (← load mem src n)

theorem load_eq {mem : List α} {i n : Nat} (h : i + n ≤ mem.length) :
    load mem i n = some (stretch mem i n) :=
  if_pos h

theorem store_eq {mem : List α} {i : Nat} {xs : List α} (h : i + xs.length ≤ mem.length) :
    store mem i xs = some (overwrite mem i xs) :=
  if_pos h

theorem memmove_eq {mem : List α} {dst src n : Nat} (hdst : dst + n ≤ mem.length)
    (hsrc : src + n ≤ mem.length) :
    memmove mem dst src n = some (overwrite mem dst (stretch mem src n)) := by
  rw [memmove, load_eq hsrc]
  exact store_eq (by rwa [length_stretch hsrc])

/-! ### A line in a memory -/

section Within

variable {pre l rest : List α}

theorem getElem?_within {k : Nat} (h : k < l.length) :
    (pre ++ l ++ rest)[pre.length + k]? = l[k]? := by
  rw [List.append_assoc, List.getElem?_append_right (Nat.le_add_right _ _),
    Nat.add_sub_cancel_left, List.getElem?_append_left h]

theorem stretch_within {k n : Nat} (h : k + n ≤ l.length) :
    stretch (pre ++ l ++ rest) (pre.length + k) n = stretch l k n := by
  rw [stretch, List.append_assoc, ← List.drop_drop, List.drop_left,
    List.drop_append_of_le_length (by omega), List.take_append_of_le_length]
  · rfl
  · rw [List.length_drop]
    omega

theorem load_within {k n : Nat} (h : k + n ≤ l.length) :
    load (pre ++ l ++ rest) (pre.length + k) n = some (stretch l k n) := by
  rw [load_eq, stretch_within h]
  simp only [List.length_append]
  omega

theorem overwrite_within {k : Nat} {xs : List α} (h : k + xs.length ≤ l.length) :
    overwrite (pre ++ l ++ rest) (pre.length + k) xs = pre ++ overwrite l k xs ++ rest := by
  have htake : (pre ++ l ++ rest).take (pre.length + k) = pre ++ l.take k := by
    rw [List.append_assoc, List.take_length_add_append, List.take_append_of_le_length (by omega)]
  have hdrop : (pre ++ l ++ rest).drop (pre.length + k + xs.length)
      = l.drop (k + xs.length) ++ rest := by
    rw [List.append_assoc, Nat.add_assoc, ← List.drop_drop, List.drop_left,
      List.drop_append_of_le_length h]
  rw [overwrite, htake, hdrop, overwrite]
  simp only [List.append_assoc]

theorem store_within {k : Nat} {xs : List α} (h : k + xs.length ≤ l.length) :
    store (pre ++ l ++ rest) (pre.length + k) xs = some (pre ++ overwrite l k xs ++ rest) := by
  rw [store_eq, overwrite_within h]
  simp only [List.length_append]
  omega

/-- A memory around the `n` cells from `i` on. -/
theorem split_stretch (mem : List α) (i n : Nat) :
    mem = mem.take i ++ stretch mem i n ++ mem.drop (i + n) := by
  rw [stretch, List.append_assoc, ← List.drop_drop, List.take_append_drop, List.take_append_drop]

theorem overwrite_stretch {mem : List α} {i n : Nat} (h : i + n ≤ mem.length) :
    overwrite mem i (stretch mem i n) = mem := by
  rw [overwrite, length_stretch h]
  exact (split_stretch mem i n).symm

/-- A part of what has been stored. -/
theorem stretch_overwrite_part {mem xs : List α} {i k n : Nat} (h : k + n ≤ xs.length)
    (hi : i ≤ mem.length) : stretch (overwrite mem i xs) (i + k) n = stretch xs k n := by
  have hlen : (mem.take i).length = i := List.length_take_of_le hi
  have := @stretch_within α (mem.take i) xs (mem.drop (i + xs.length)) k n h
  rwa [hlen] at this

theorem take_overwrite_before {mem xs : List α} {i j : Nat} (h : j ≤ i) (hi : i ≤ mem.length) :
    (overwrite mem i xs).take j = mem.take j := by
  rw [overwrite, List.append_assoc,
    List.take_append_of_le_length (by rw [List.length_take_of_le hi]; exact h), List.take_take,
    Nat.min_eq_left h]

end Within

/-! ### Storing one cell after the other -/

/-- A loop of `n` turns from turn `j` on.  Turn `j` stores what it makes of the memory, `k`
    cells, at `dst + j * k`. -/
def storeEach (k : Nat) (val : Nat → List α → Option (List α)) (dst : Nat) :
    Nat → Nat → List α → Option (List α)
  | _, 0, mem => some mem
  | j, n + 1, mem => do
    let mem ← store mem (dst + j * k) (← val j mem)
    storeEach k val dst (j + 1) n mem

theorem overwrite_append {mem xs ys : List α} {i : Nat} (h : i + xs.length ≤ mem.length) :
    overwrite mem i (xs ++ ys) = overwrite (overwrite mem i xs) (i + xs.length) ys := by
  have hlen : (mem.take i ++ xs).length = i + xs.length := by
    rw [List.length_append, List.length_take]
    omega
  have hdrop : (overwrite mem i xs).drop (i + xs.length + ys.length)
      = mem.drop (i + (xs ++ ys).length) := by
    rw [overwrite, ← hlen, ← List.drop_drop, List.drop_left, List.drop_drop, hlen,
      List.length_append, Nat.add_assoc]
  rw [overwrite, overwrite, hdrop, take_overwrite (by omega)]
  simp only [List.append_assoc]

theorem drop_overwrite {mem xs : List α} {i j : Nat} (h : i + xs.length ≤ j)
    (hmem : i + xs.length ≤ mem.length) : (overwrite mem i xs).drop j = mem.drop j := by
  have hlen : (mem.take i ++ xs).length = i + xs.length := by
    rw [List.length_append, List.length_take]
    omega
  obtain ⟨d, rfl⟩ := Nat.exists_eq_add_of_le h
  rw [overwrite, ← List.drop_drop, List.drop_left' hlen, List.drop_drop]

/-- Cells behind an index agree if the memories do. -/
theorem getElem?_of_drop {mem mem' : List α} {i j : Nat} (h : mem'.drop i = mem.drop i)
    (hj : i ≤ j) : mem'[j]? = mem[j]? := by
  obtain ⟨d, rfl⟩ := Nat.exists_eq_add_of_le hj
  rw [← List.getElem?_drop, ← List.getElem?_drop, h]

theorem stretch_of_drop {mem mem' : List α} {i j n : Nat} (h : mem'.drop i = mem.drop i)
    (hj : i ≤ j) : stretch mem' j n = stretch mem j n := by
  obtain ⟨d, rfl⟩ := Nat.exists_eq_add_of_le hj
  rw [stretch, stretch, ← List.drop_drop, ← List.drop_drop, h]

/-- Each turn sees the cells that it uses as they were before the loop, because no turn before
    it has stored there. -/
theorem storeEach_eq {k : Nat} {val : Nat → List α → Option (List α)} {dst n : Nat}
    {mem : List α} {out : Nat → List α} (hlen : ∀ j < n, (out j).length = k)
    (hfit : dst + n * k ≤ mem.length)
    (hval : ∀ j < n, ∀ mem' : List α, mem'.length = mem.length →
      mem'.drop (dst + j * k) = mem.drop (dst + j * k) → val j mem' = some (out j)) :
    storeEach k val dst 0 n mem = some (overwrite mem dst ((List.range n).flatMap out)) := by
  have hgo : ∀ d j (mem' : List α), j + d = n → mem'.length = mem.length →
      mem'.drop (dst + j * k) = mem.drop (dst + j * k) →
      storeEach k val dst j d mem' = some (overwrite mem' (dst + j * k)
        ((List.range' j d).flatMap out)) := by
    intro d
    induction d with
    | zero =>
      intro j mem' _ _ _
      rw [storeEach, List.range'_zero, List.flatMap_nil, overwrite_nil]
    | succ d ih =>
      intro j mem' hj hsame hdrop
      have hlt : j < n := by omega
      have hout := hlen j hlt
      have hroom : dst + j * k + k ≤ mem.length := by
        have := Nat.mul_le_mul_right k (show j + 1 ≤ n by omega)
        rw [Nat.succ_mul] at this
        omega
      have hroom' : dst + j * k + (out j).length ≤ mem'.length := by omega
      have hnext : dst + j * k + (out j).length = dst + (j + 1) * k := by
        rw [hout, Nat.succ_mul, Nat.add_assoc]
      have hdrop' : (overwrite mem' (dst + j * k) (out j)).drop (dst + (j + 1) * k)
          = mem.drop (dst + (j + 1) * k) := by
        rw [drop_overwrite hnext.le hroom', ← hnext, ← List.drop_drop, hdrop, List.drop_drop]
      have hmore := ih (j + 1) _ (by omega) ((length_overwrite hroom').trans hsame) hdrop'
      rw [storeEach, hval j hlt mem' hsame hdrop]
      simp only [Option.bind_eq_bind, Option.bind_some, store_eq hroom', hmore]
      rw [List.range'_succ, List.flatMap_cons, overwrite_append hroom', hnext]
  have h := hgo n 0 mem (Nat.zero_add n) rfl rfl
  rw [Nat.zero_mul, Nat.add_zero, ← List.range_eq_range'] at h
  exact h

/-! ### Scattering blocks -/

/-- A loop over `n` blocks of `c` cells that stores block `i` of `src`, from `base` on, as
    block `dest i` of `buf`. -/
def scatter (c : Nat) (dest : Nat → Nat) (src : List α) (base : Nat) :
    Nat → List α → Option (List α)
  | 0, buf => some buf
  | n + 1, buf => do
    let buf ← scatter c dest src base n buf
    store buf (c * dest n) (← load src (base + c * n) c)

theorem stretch_overwrite_after {mem xs : List α} {i j n : Nat} (h : i + xs.length ≤ j)
    (hmem : i + xs.length ≤ mem.length) :
    stretch (overwrite mem i xs) j n = stretch mem j n := by
  rw [stretch, drop_overwrite h hmem]
  rfl

/-- One block is replaced, the others stay. -/
theorem stretch_overwrite_block {mem xs : List α} {c i k w : Nat} (hxs : xs.length = c)
    (hmem : mem.length = c * w) (hi : i < w) :
    stretch (overwrite mem (c * i) xs) (c * k) c = if k = i then xs else stretch mem (c * k) c := by
  have hfiti : c * i + c ≤ mem.length := by
    rw [hmem, ← Nat.mul_succ]
    exact Nat.mul_le_mul_left c hi
  rcases Nat.lt_trichotomy k i with hlt | heq | hgt
  · have : c * k + c ≤ c * i := by
      rw [← Nat.mul_succ]
      exact Nat.mul_le_mul_left c hlt
    rw [if_neg (by omega), stretch_overwrite_before this (by omega)]
  · subst heq hxs
    rw [if_pos rfl]
    exact stretch_overwrite (by omega)
  · have : c * i + c ≤ c * k := by
      rw [← Nat.mul_succ]
      exact Nat.mul_le_mul_left c hgt
    rw [if_neg (by omega), stretch_overwrite_after (by omega) (by omega)]

theorem flatMap_stretch {mem : List α} {c w : Nat} (h : mem.length = c * w) :
    (List.range w).flatMap (fun k => stretch mem (c * k) c) = mem := by
  have hgo : ∀ n ≤ w, (List.range n).flatMap (fun k => stretch mem (c * k) c)
      = mem.take (c * n) := by
    intro n
    induction n with
    | zero => simp
    | succ n ih =>
      intro hn
      rw [List.range_succ, List.flatMap_append, ih (by omega), List.flatMap_singleton, Nat.mul_succ,
        List.take_add]
      rfl
  rw [hgo w le_rfl, ← h, List.take_length]

/-- If the blocks are permuted, nothing of the old contents of the buffer is left. -/
theorem scatter_eq {c w base : Nat} {dest origin : Nat → Nat} {src buf : List α}
    (hbuf : buf.length = c * w) (hsrc : base + c * w ≤ src.length) (hdest : ∀ i < w, dest i < w)
    (horigin : ∀ k < w, origin k < w) (hinv : ∀ i < w, ∀ k < w, k = dest i ↔ origin k = i) :
    scatter c dest src base w buf
      = some ((List.range w).flatMap fun k => stretch src (base + c * origin k) c) := by
  have hgo : ∀ n ≤ w, ∃ buf', scatter c dest src base n buf = some buf' ∧ buf'.length = c * w ∧
      ∀ k < w, origin k < n → stretch buf' (c * k) c = stretch src (base + c * origin k) c := by
    intro n
    induction n with
    | zero => exact fun _ => ⟨buf, rfl, hbuf, fun k _ h => absurd h (Nat.not_lt_zero _)⟩
    | succ n ih =>
      intro hn
      obtain ⟨buf', hrun, hlen, hblocks⟩ := ih (by omega)
      have hfit : ∀ j < w, c * j + c ≤ c * w := by
        intro j hj
        rw [← Nat.mul_succ]
        exact Nat.mul_le_mul_left c hj
      have hload : base + c * n + c ≤ src.length := by
        have := hfit n (by omega)
        omega
      have hblock : (stretch src (base + c * n) c).length = c := length_stretch hload
      have hstore : c * dest n + (stretch src (base + c * n) c).length ≤ buf'.length := by
        rw [hblock, hlen]
        exact hfit _ (hdest n (by omega))
      refine ⟨_, ?_, (length_overwrite hstore).trans hlen, ?_⟩
      · rw [scatter, hrun]
        simp only [Option.bind_eq_bind, Option.bind_some, load_eq hload, store_eq hstore]
      · intro k hk hless
        rw [stretch_overwrite_block hblock hlen (hdest n (by omega))]
        split
        · rename_i heq
          rw [(hinv n (by omega) k hk).mp heq]
        · rename_i hne
          have : origin k ≠ n := fun h => hne ((hinv n (by omega) k hk).mpr h)
          exact hblocks k hk (by omega)
  obtain ⟨buf', hrun, hlen, hblocks⟩ := hgo w le_rfl
  rw [hrun, ← flatMap_stretch hlen]
  congr 1
  apply List.flatMap_congr
  intro k hk
  have hk := List.mem_range.mp hk
  exact hblocks k hk (horigin k hk)

end SaneBackends.InPlace

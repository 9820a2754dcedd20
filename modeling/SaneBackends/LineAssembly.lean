import SaneBackends.RingMemory
import Mathlib.Data.Nat.ModEq
import Mathlib.Logic.Function.Basic

/-!
# Lines put together in a ring

The elements of a stream make lines of a fixed number of cells.  A `Layout` says into which
cell of its line an element goes, and what a cell holds after some elements of the line.
The lines follow each other in a ring; behind the cells that are still to be read stands the
line that is being put together.
-/

namespace SaneBackends.LineAssembly

open RingMemory

variable {α : Type*}

/-- `raw` elements make a line of `size` cells.  The element `p` of a line goes into the cell
    `place p`; after `p` elements the cells `o` with `written p o` hold `cell cur o`, where
    `cur` are these elements. -/
structure Layout (α : Type*) where
  raw : Nat
  size : Nat
  place : Nat → Nat
  written : Nat → Nat → Prop
  cell : List α → Nat → α
  raw_pos : 0 < raw
  place_lt : ∀ {p}, p < raw → place p < size
  place_last : ∀ {p}, p + 1 = raw → place p + 1 = size
  written_zero : ∀ o, ¬ written 0 o
  written_succ : ∀ {p o}, p < raw → o < size →
    (written (p + 1) o ↔ o = place p ∨ written p o)
  written_all : ∀ {o}, o < size → written raw o
  cell_append : ∀ {cur : List α} {o} (x : α), cur.length < raw → o < size →
    o ≠ place cur.length → written cur.length o → cell (cur ++ [x]) o = cell cur o

variable (lay : Layout α)

/-- The line that `raw` elements make. -/
def Layout.line (cur : List α) : List α := (List.range lay.size).map (lay.cell cur)

/-- The elements of the line `i`. -/
def Layout.chunk (xs : List α) (i : Nat) : List α := (xs.drop (i * lay.raw)).take lay.raw

/-- The lines that a stream makes; the last elements may not make a line yet. -/
def Layout.image (xs : List α) : List α :=
  (List.range (xs.length / lay.raw)).flatMap fun i => lay.line (lay.chunk xs i)

/-- The elements of the line that is not complete. -/
def Layout.rest (xs : List α) : List α := xs.drop (xs.length / lay.raw * lay.raw)

variable {lay} {mem : Nat → α} {n off k : Nat} {unread cur xs : List α}

theorem Layout.length_line : (lay.line cur).length = lay.size := by
  rw [Layout.line, List.length_map, List.length_range]

theorem Layout.length_rest : (lay.rest xs).length = xs.length % lay.raw := by
  have hdiv := Nat.div_add_mod xs.length lay.raw
  rw [Layout.rest, List.length_drop, Nat.mul_comm]
  omega

theorem Layout.rest_lt : (lay.rest xs).length < lay.raw := by
  rw [lay.length_rest]
  exact Nat.mod_lt _ lay.raw_pos

theorem Layout.length_image : (lay.image xs).length = xs.length / lay.raw * lay.size := by
  have hlines : ∀ q, ((List.range q).flatMap fun i => lay.line (lay.chunk xs i)).length =
      q * lay.size := by
    intro q
    induction q with
    | zero => rw [List.range_zero, List.flatMap_nil, List.length_nil, Nat.zero_mul]
    | succ q ih =>
      rw [List.range_succ, List.flatMap_append, List.length_append, ih, List.flatMap_singleton,
        lay.length_line, Nat.succ_mul]
  exact hlines _

/-- A complete line stays as it is. -/
theorem Layout.chunk_append {x : α} {i : Nat} (h : (i + 1) * lay.raw ≤ xs.length) :
    lay.chunk (xs ++ [x]) i = lay.chunk xs i := by
  rw [Nat.succ_mul] at h
  rw [Layout.chunk, Layout.chunk, List.drop_append_of_le_length (by omega),
    List.take_append_of_le_length (by rw [List.length_drop]; omega)]

theorem Layout.lines_append {x : α} {q : Nat} (h : q * lay.raw ≤ xs.length) :
    ((List.range q).flatMap fun i => lay.line (lay.chunk (xs ++ [x]) i)) =
      (List.range q).flatMap fun i => lay.line (lay.chunk xs i) := by
  rw [List.flatMap_def, List.flatMap_def]
  congr 1
  apply List.map_congr_left
  intro i hi
  have hle : (i + 1) * lay.raw ≤ q * lay.raw :=
    Nat.mul_le_mul_right _ (List.mem_range.mp hi)
  rw [lay.chunk_append (hle.trans h)]

/-- An element that does not complete its line. -/
theorem Layout.append_inside {x : α} (h : (lay.rest xs).length + 1 < lay.raw) :
    lay.rest (xs ++ [x]) = lay.rest xs ++ [x] ∧ lay.image (xs ++ [x]) = lay.image xs := by
  rw [lay.length_rest] at h
  have hle : xs.length / lay.raw * lay.raw ≤ xs.length := Nat.div_mul_le_self _ _
  have hdiv : (xs ++ [x]).length / lay.raw = xs.length / lay.raw := by
    have hsum := Nat.div_add_mod xs.length lay.raw
    rw [List.length_append, List.length_singleton]
    refine Nat.div_eq_of_lt_le (by omega) ?_
    rw [Nat.succ_mul, Nat.mul_comm]
    omega
  constructor
  · rw [Layout.rest, hdiv, List.drop_append_of_le_length hle, Layout.rest]
  · rw [Layout.image, Layout.image, hdiv, lay.lines_append hle]

/-- An element that completes its line. -/
theorem Layout.append_last {x : α} (h : (lay.rest xs).length + 1 = lay.raw) :
    lay.rest (xs ++ [x]) = [] ∧
      lay.image (xs ++ [x]) = lay.image xs ++ lay.line (lay.rest xs ++ [x]) := by
  rw [lay.length_rest] at h
  have hpos := lay.raw_pos
  have hle : xs.length / lay.raw * lay.raw ≤ xs.length := Nat.div_mul_le_self _ _
  have hsum := Nat.div_add_mod xs.length lay.raw
  have hlen : (xs ++ [x]).length = (xs.length / lay.raw + 1) * lay.raw := by
    rw [List.length_append, List.length_singleton, Nat.succ_mul, Nat.mul_comm]
    omega
  have hdiv : (xs ++ [x]).length / lay.raw = xs.length / lay.raw + 1 := by
    rw [hlen, Nat.mul_div_cancel _ hpos]
  constructor
  · rw [Layout.rest, hdiv, ← hlen, List.drop_length]
  · have hchunk : lay.chunk (xs ++ [x]) (xs.length / lay.raw) = lay.rest xs ++ [x] := by
      rw [Layout.chunk, List.drop_append_of_le_length hle, ← Layout.rest,
        List.take_of_length_le]
      rw [List.length_append, lay.length_rest, List.length_singleton]
      omega
    rw [Layout.image, hdiv, List.range_succ, List.flatMap_append, lay.lines_append hle,
      List.flatMap_singleton, hchunk, ← Layout.image]

/-- More elements only add lines. -/
theorem Layout.image_prefix (xs ys : List α) : lay.image xs <+: lay.image (xs ++ ys) := by
  induction ys generalizing xs with
  | nil => exact ⟨[], by rw [List.append_nil, List.append_nil]⟩
  | cons y ys ih =>
    have hone : lay.image xs <+: lay.image (xs ++ [y]) := by
      rcases Nat.lt_or_eq_of_le (Nat.succ_le_of_lt (@rest_lt _ lay xs)) with h | h
      · exact ⟨[], by rw [(lay.append_inside h).2, List.append_nil]⟩
      · rw [(lay.append_last h).2]
        exact List.prefix_append ..
    rw [List.append_cons]
    exact hone.trans (ih (xs ++ [y]))

variable (lay) in
/-- The cell of the element `q`, counted from the beginning of a line, in the lines from this
    one on. -/
def Layout.offset (q : Nat) : Nat := q / lay.raw * lay.size + lay.place (q % lay.raw)

variable (lay) in
theorem Layout.offset_inside {q : Nat} (h : q < lay.raw) : lay.offset q = lay.place q := by
  rw [Layout.offset, Nat.div_eq_of_lt h, Nat.mod_eq_of_lt h, Nat.zero_mul, Nat.zero_add]

variable (lay) in
theorem Layout.offset_raw_add (q : Nat) : lay.offset (lay.raw + q) = lay.size + lay.offset q := by
  rw [Layout.offset, Layout.offset, Nat.add_div_left _ lay.raw_pos, Nat.add_mod_left, Nat.succ_mul]
  omega

/-! ### The ring -/

variable (lay) in
/-- From `off` on the ring of `n` cells holds what is still to be read, and behind it the
    elements `cur` of a line. -/
structure Holds (mem : Nat → α) (n off : Nat) (unread cur : List α) : Prop where
  off_lt : off < n
  inside : cur.length < lay.raw
  fits : unread.length ≤ n
  front : ring mem n off unread.length = unread
  part : ∀ o, o < lay.size → lay.written cur.length o →
    mem ((off + unread.length + o) % n) = lay.cell cur o

theorem mod_ne_of_near {a b : Nat} (hlt : a < b) (hnear : b < a + n) : a % n ≠ b % n := by
  intro h
  have hdvd : n ∣ b - a := (Nat.modEq_iff_dvd' (Nat.le_of_lt hlt)).mp h
  exact Nat.not_le.mpr (by omega) (Nat.le_of_dvd (by omega) hdvd)

theorem Holds.cell_at (h : Holds lay mem n off unread cur) {j : Nat} (hj : j < unread.length) :
    mem ((off + j) % n) = unread[j] := by
  have hget : (ring mem n off unread.length)[j]? = some (mem ((off + j) % n)) :=
    getElem?_ring hj
  rw [h.front, List.getElem?_eq_getElem hj] at hget
  exact (Option.some.inj hget).symm

theorem ring_eq_of_forall {len : Nat} {xs : List α} (hlen : xs.length = len)
    (h : ∀ j (hj : j < xs.length), mem ((off + j) % n) = xs[j]) : ring mem n off len = xs := by
  apply List.ext_getElem?
  intro j
  by_cases hj : j < len
  · rw [getElem?_ring hj, List.getElem?_eq_getElem (hlen ▸ hj), h j (hlen ▸ hj)]
  · rw [List.getElem?_eq_none (by rw [length_ring]; omega), List.getElem?_eq_none (by omega)]

variable (lay) in
/-- The memory after the next element of a line has been stored in its cell. -/
def stored (mem : Nat → α) (n tail : Nat) (cur : List α) (x : α) : Nat → α :=
  Function.update mem ((tail + lay.place cur.length) % n)
    (lay.cell (cur ++ [x]) (lay.place cur.length))

/-- The cell of an element holds nothing that is still to be read. -/
theorem Holds.store_front (h : Holds lay mem n off unread cur) {x : α}
    (hroom : unread.length + lay.place cur.length < n) {j : Nat} (hj : j < unread.length) :
    stored lay mem n (off + unread.length) cur x ((off + j) % n) = unread[j] := by
  have hne : (off + j) % n ≠ (off + unread.length + lay.place cur.length) % n :=
    mod_ne_of_near (by omega) (by omega)
  rw [stored, Function.update_of_ne hne, h.cell_at hj]

theorem Holds.store_part (h : Holds lay mem n off unread cur) {x : α} (hsize : lay.size ≤ n)
    {o : Nat} (ho : o < lay.size) (hwritten : lay.written (cur.length + 1) o) :
    stored lay mem n (off + unread.length) cur x ((off + unread.length + o) % n) =
      lay.cell (cur ++ [x]) o := by
  have hplace := lay.place_lt h.inside
  rw [lay.written_succ h.inside ho] at hwritten
  rw [stored]
  by_cases heq : o = lay.place cur.length
  · rw [heq, Function.update_self]
  · have hne : (off + unread.length + o) % n ≠
        (off + unread.length + lay.place cur.length) % n := by
      rcases Nat.lt_or_gt_of_ne heq with hlt | hgt
      · exact mod_ne_of_near (by omega) (by omega)
      · exact (mod_ne_of_near (by omega) (by omega)).symm
    have hold := hwritten.resolve_left heq
    rw [Function.update_of_ne hne, h.part o ho hold, lay.cell_append x h.inside ho heq hold]

/-- An element that does not complete its line is stored. -/
theorem Holds.store_inside (h : Holds lay mem n off unread cur) {x : α}
    (hroom : unread.length + lay.place cur.length < n) (hsize : lay.size ≤ n)
    (hinside : cur.length + 1 < lay.raw) :
    Holds lay (stored lay mem n (off + unread.length) cur x) n off unread (cur ++ [x]) where
  off_lt := h.off_lt
  inside := by rwa [List.length_append]
  fits := h.fits
  front := ring_eq_of_forall rfl fun _ hj => h.store_front hroom hj
  part o ho hwritten := by
    rw [List.length_append] at hwritten
    exact h.store_part hsize ho hwritten

/-- An element that completes its line is stored, and the line can be read. -/
theorem Holds.store_last (h : Holds lay mem n off unread cur) {x : α}
    (hroom : unread.length + lay.place cur.length < n) (hsize : lay.size ≤ n)
    (hlast : cur.length + 1 = lay.raw) :
    Holds lay (stored lay mem n (off + unread.length) cur x) n off
      (unread ++ lay.line (cur ++ [x])) [] where
  off_lt := h.off_lt
  inside := lay.raw_pos
  fits := by
    have hplace := lay.place_last hlast
    rw [List.length_append, lay.length_line]
    omega
  front := by
    refine ring_eq_of_forall rfl fun j hj => ?_
    rw [List.length_append, lay.length_line] at hj
    by_cases hold : j < unread.length
    · rw [h.store_front hroom hold, List.getElem_append_left hold]
    · have hpart := h.store_part (x := x) hsize (o := j - unread.length) (by omega)
        (hlast ▸ lay.written_all (by omega))
      rw [Nat.add_assoc, Nat.add_sub_cancel' (Nat.not_lt.mp hold)] at hpart
      rw [hpart, List.getElem_append_right (Nat.not_lt.mp hold)]
      simp only [Layout.line, List.getElem_map, List.getElem_range]
  part o _ hwritten := absurd hwritten (lay.written_zero o)

/-- Reading takes elements from the front. -/
theorem Holds.read (h : Holds lay mem n off unread cur) (hk : k ≤ unread.length) :
    ring mem n off k = unread.take k ∧ Holds lay mem n ((off + k) % n) (unread.drop k) cur := by
  have hlen : (unread.drop k).length = unread.length - k := List.length_drop
  have htail : ∀ o, ((off + k) % n + (unread.drop k).length + o) % n =
      (off + unread.length + o) % n := by
    intro o
    rw [hlen, Nat.add_assoc, Nat.mod_add_mod]
    congr 1
    omega
  constructor
  · refine ring_eq_of_forall (List.length_take_of_le hk) fun j hj => ?_
    rw [List.length_take] at hj
    rw [h.cell_at (by omega), List.getElem_take]
  · refine ⟨Nat.mod_lt _ (Nat.lt_of_le_of_lt (Nat.zero_le _) h.off_lt), h.inside, ?_, ?_, ?_⟩
    · have hfits := h.fits
      omega
    · have hdrop : (ring mem n off unread.length).drop k =
          ring mem n ((off + k) % n) (unread.length - k) := drop_ring hk
      rw [h.front] at hdrop
      rw [hlen, ← hdrop]
    · intro o ho hwritten
      rw [htail, h.part o ho hwritten]

end SaneBackends.LineAssembly

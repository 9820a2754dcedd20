import SaneBackends.Cells
import SaneBackends.FaultState
import Mathlib.Data.List.Range
import Mathlib.Data.List.Perm.Subperm

/-!
# Gathering cells

Cells of a block are copied in a given order to the end of a buffer.  It works exactly when the
cells exist and the buffer has room; if the order is one of all cells, nothing is lost.
-/

namespace SaneBackends.Gather

open FaultState

variable {α : Type}

/-- `out[next++] = x` into a buffer with `cap` cells. -/
def push (cap : Nat) (out : List α) (x : α) : Except Fault (List α) :=
  if out.length < cap then .ok (out ++ [x]) else .error .outOfBounds

/-- `out[next++] = mem[j]` for the places `j` in their order. -/
def gather (mem : List α) (cap : Nat) (out : List α) (order : List Nat) :
    Except Fault (List α) :=
  order.foldlM (fun out j => do push cap out (← cellAt mem j)) out

/-- The cells at the places. -/
def picked (mem : List α) (order : List Nat) : List α := order.filterMap (mem[·]?)

variable {mem out : List α} {cap : Nat} {order : List Nat}

theorem picked_cons {j : Nat} (h : j < mem.length) (order : List Nat) :
    picked mem (j :: order) = mem[j] :: picked mem order :=
  List.filterMap_cons_some (List.getElem?_eq_getElem h)

theorem gather_eq (hmem : ∀ j ∈ order, j < mem.length) (hcap : out.length + order.length ≤ cap) :
    gather mem cap out order = .ok (out ++ picked mem order) := by
  induction order generalizing out with
  | nil =>
    rw [gather, picked, List.filterMap_nil, List.append_nil]
    rfl
  | cons j order ih =>
    have hj := hmem j List.mem_cons_self
    rw [List.length_cons] at hcap
    rw [gather, List.foldlM_cons, cellAt_of_lt hj, ok_bind, push, if_pos (by omega), ok_bind,
      ← gather, ih (fun k hk => hmem k (List.mem_cons_of_mem j hk)), picked_cons hj,
      List.append_assoc]
    · rfl
    · rw [List.length_append, List.length_singleton]
      omega

theorem gather_ok (hout : out.length ≤ cap) {r : List α} (h : gather mem cap out order = .ok r) :
    (∀ j ∈ order, j < mem.length) ∧ out.length + order.length ≤ cap := by
  induction order generalizing out with
  | nil => exact ⟨fun j hj => (List.not_mem_nil hj).elim, hout⟩
  | cons j order ih =>
    rw [gather, List.foldlM_cons] at h
    obtain ⟨out', hpush, h⟩ := bind_eq_ok.mp h
    obtain ⟨x, hx, hpush⟩ := bind_eq_ok.mp hpush
    have hj : j < mem.length := by
      by_contra hj
      rw [cellAt_of_ge (Nat.not_lt.mp hj)] at hx
      cases hx
    rw [push] at hpush
    split at hpush
    · rename_i hroom
      cases hpush
      rw [← gather] at h
      have hlen : (out ++ [x]).length = out.length + 1 := List.length_append
      obtain ⟨hmem, hcap⟩ := ih (by rw [hlen]; exact hroom) h
      rw [hlen] at hcap
      rw [List.length_cons]
      refine ⟨fun k hk => ?_, by omega⟩
      rcases List.mem_cons.mp hk with rfl | hk
      · exact hj
      · exact hmem k hk
    · cases hpush

theorem pushAll_eq {xs : List α} (h : out.length + xs.length ≤ cap) :
    xs.foldlM (push cap) out = .ok (out ++ xs) := by
  induction xs generalizing out with
  | nil =>
    rw [List.append_nil]
    rfl
  | cons x xs ih =>
    rw [List.length_cons] at h
    rw [List.foldlM_cons, push, if_pos (by omega), ok_bind, ih, List.append_assoc]
    · rfl
    · rw [List.length_append, List.length_singleton]
      omega

theorem pushAll_ok {xs : List α} (hout : out.length ≤ cap) {r : List α}
    (h : xs.foldlM (push cap) out = .ok r) : out.length + xs.length ≤ cap := by
  induction xs generalizing out with
  | nil => exact hout
  | cons x xs ih =>
    rw [List.foldlM_cons] at h
    obtain ⟨out', hpush, h⟩ := bind_eq_ok.mp h
    rw [push] at hpush
    split at hpush
    · rename_i hroom
      cases hpush
      have hrest := ih (by rw [List.length_append]; exact hroom) h
      rw [List.length_append, List.length_singleton] at hrest
      rw [List.length_cons]
      omega
    · cases hpush

theorem length_picked (hmem : ∀ j ∈ order, j < mem.length) :
    (picked mem order).length = order.length := by
  induction order with
  | nil => rfl
  | cons j order ih =>
    rw [picked_cons (hmem j List.mem_cons_self), List.length_cons, List.length_cons,
      ih fun k hk => hmem k (List.mem_cons_of_mem j hk)]

theorem picked_append (mem : List α) (order order' : List Nat) :
    picked mem (order ++ order') = picked mem order ++ picked mem order' :=
  List.filterMap_append

theorem picked_range (mem : List α) : picked mem (List.range mem.length) = mem := by
  induction mem using List.reverseRecOn with
  | nil => rfl
  | append_singleton mem x ih =>
    have hfront :
        picked (mem ++ [x]) (List.range mem.length) = picked mem (List.range mem.length) :=
      List.filterMap_congr fun j hj =>
        List.getElem?_append_left (List.mem_range.mp hj)
    rw [List.length_append, List.length_singleton, List.range_succ, picked_append, hfront, ih,
      picked_cons (by rw [List.length_append]; exact Nat.lt_succ_self _)]
    congr 1
    rw [List.getElem_concat_length rfl]
    rfl

/-- The cells of a stretch in their own order. -/
theorem picked_stretch {i n : Nat} (h : i + n ≤ mem.length) :
    picked mem ((List.range n).map (i + ·)) = Overwrite.stretch mem i n := by
  have hlen : (Overwrite.stretch mem i n).length = n := Overwrite.length_stretch h
  have hget : ∀ j ∈ List.range n, mem[i + j]? = (Overwrite.stretch mem i n)[j]? := by
    intro j hj
    rw [Overwrite.stretch, List.getElem?_take_of_lt (List.mem_range.mp hj), List.getElem?_drop]
  rw [picked, List.filterMap_map]
  refine (List.filterMap_congr hget).trans ?_
  have hself := picked_range (Overwrite.stretch mem i n)
  rwa [hlen] at hself

/-- An order with as many places as there are cells, in which no cell is missing. -/
theorem perm_range {n : Nat} (hmem : ∀ j < n, j ∈ order) (hlen : order.length = n) :
    order.Perm (List.range n) := by
  have hsub : (List.range n).Subperm order :=
    List.nodup_range.subperm fun j hj => hmem j (List.mem_range.mp hj)
  exact (hsub.perm_of_length_le (by rw [hlen, List.length_range])).symm

theorem length_flatMap_const {β γ : Type} {xs : List β} {f : β → List γ} {c : Nat}
    (h : ∀ x ∈ xs, (f x).length = c) : (xs.flatMap f).length = xs.length * c := by
  induction xs with
  | nil => exact (Nat.zero_mul c).symm
  | cons x xs ih =>
    rw [List.flatMap_cons, List.length_append, h x List.mem_cons_self,
      ih fun y hy => h y (List.mem_cons_of_mem x hy), List.length_cons, Nat.succ_mul, Nat.add_comm]

/-! ### Two buffers -/

/-- The cells of each pair of lists of places are copied to the ends of two buffers. -/
def gatherPairs (mem : List α) (cap : Nat) (out : List α × List α)
    (groups : List (List Nat × List Nat)) : Except Fault (List α × List α) :=
  groups.foldlM (fun out g => do
    let front ← gather mem cap out.1 g.1
    let back ← gather mem cap out.2 g.2
    return (front, back)) out

variable {pair : List α × List α} {groups : List (List Nat × List Nat)}

theorem gatherPairs_cons (g : List Nat × List Nat) (groups : List (List Nat × List Nat)) :
    gatherPairs mem cap pair (g :: groups) = (do
      let front ← gather mem cap pair.1 g.1
      let back ← gather mem cap pair.2 g.2
      gatherPairs mem cap (front, back) groups) := by
  rw [gatherPairs, List.foldlM_cons, bind_assoc]
  simp only [bind_assoc, pure_bind]
  rfl

theorem gatherPairs_eq
    (hmem : ∀ g ∈ groups, (∀ j ∈ g.1, j < mem.length) ∧ ∀ j ∈ g.2, j < mem.length)
    (hfront : pair.1.length + (groups.flatMap Prod.fst).length ≤ cap)
    (hback : pair.2.length + (groups.flatMap Prod.snd).length ≤ cap) :
    gatherPairs mem cap pair groups =
      .ok (pair.1 ++ picked mem (groups.flatMap Prod.fst),
        pair.2 ++ picked mem (groups.flatMap Prod.snd)) := by
  induction groups generalizing pair with
  | nil =>
    rw [List.flatMap_nil, List.flatMap_nil, picked, List.filterMap_nil, List.append_nil,
      List.append_nil]
    rfl
  | cons g groups ih =>
    obtain ⟨hmem₁, hmem₂⟩ := hmem g List.mem_cons_self
    rw [List.flatMap_cons, List.length_append] at hfront hback
    rw [gatherPairs_cons, gather_eq hmem₁ (by omega), ok_bind, gather_eq hmem₂ (by omega), ok_bind,
      ih (fun g' hg => hmem g' (List.mem_cons_of_mem g hg))]
    · rw [List.flatMap_cons, List.flatMap_cons, picked_append, picked_append, List.append_assoc,
        List.append_assoc]
    · rw [List.length_append, length_picked hmem₁]
      omega
    · rw [List.length_append, length_picked hmem₂]
      omega

theorem gatherPairs_ok (hfront : pair.1.length ≤ cap) (hback : pair.2.length ≤ cap)
    {r : List α × List α} (h : gatherPairs mem cap pair groups = .ok r) :
    (∀ g ∈ groups, (∀ j ∈ g.1, j < mem.length) ∧ ∀ j ∈ g.2, j < mem.length) ∧
      pair.1.length + (groups.flatMap Prod.fst).length ≤ cap ∧
      pair.2.length + (groups.flatMap Prod.snd).length ≤ cap := by
  induction groups generalizing pair with
  | nil => exact ⟨fun g hg => (List.not_mem_nil hg).elim, hfront, hback⟩
  | cons g groups ih =>
    rw [gatherPairs_cons] at h
    obtain ⟨front, hf, h⟩ := bind_eq_ok.mp h
    obtain ⟨back, hb, h⟩ := bind_eq_ok.mp h
    obtain ⟨hmem₁, hcap₁⟩ := gather_ok hfront hf
    obtain ⟨hmem₂, hcap₂⟩ := gather_ok hback hb
    rw [gather_eq hmem₁ hcap₁] at hf
    rw [gather_eq hmem₂ hcap₂] at hb
    cases hf
    cases hb
    have hlen₁ := length_picked hmem₁
    have hlen₂ := length_picked hmem₂
    obtain ⟨hmem, hcap₁', hcap₂'⟩ := ih (by rw [List.length_append]; omega)
      (by rw [List.length_append]; omega) h
    rw [List.length_append] at hcap₁' hcap₂'
    rw [List.flatMap_cons, List.flatMap_cons, List.length_append, List.length_append]
    refine ⟨fun g' hg => ?_, by omega, by omega⟩
    rcases List.mem_cons.mp hg with rfl | hg
    · exact ⟨hmem₁, hmem₂⟩
    · exact hmem g' hg

/-! ### Counting down -/

/-- `for (j = start; j >= 0; j -= step)` -/
def countdown (start : Int) (step : Nat) : List Nat :=
  (List.range ((start + step) / step).toNat).map fun k => (start - (k * step : Nat)).toNat

theorem length_countdown (start : Int) (step : Nat) :
    (countdown start step).length = ((start + step) / step).toNat := by
  rw [countdown, List.length_map, List.length_range]

theorem mem_countdown {start : Int} {step j : Nat} (hstep : 0 < step) :
    j ∈ countdown start step ↔ ∃ k : Nat, start = j + (k * step : Nat) := by
  have hcount : ∀ k : Nat,
      k < ((start + step) / step).toNat ↔ ((k * step : Nat) : Int) ≤ start := by
    intro k
    rw [Int.lt_toNat, Int.lt_iff_add_one_le, Int.le_ediv_iff_mul_le (by omega), Int.add_mul,
      Int.one_mul, Nat.cast_mul]
    omega
  rw [countdown, List.mem_map]
  constructor
  · rintro ⟨k, hk, rfl⟩
    rw [List.mem_range, hcount] at hk
    exact ⟨k, by omega⟩
  · rintro ⟨k, rfl⟩
    exact ⟨k, by rw [List.mem_range, hcount]; omega, by omega⟩

end SaneBackends.Gather

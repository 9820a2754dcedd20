import Mathlib.Data.List.Basic

/-!
# A stream that arrives in segments

What has arrived and can be read is a list of segments; a read gives at most one of them.
`cutAt ns xs` is `xs` in segments of the lengths `ns`, with what is left over as the last
one, and `positions ns` are the places at which it is cut.
-/

namespace SaneBackends.SegmentedStream

variable {α : Type*}

/-- A read of at most `len` elements.  Nothing can be read before a segment has arrived. -/
def recv (len : Nat) : List (List α) → Option (List α × List (List α))
  | [] => none
  | seg :: segs =>
      some (seg.take len, if len < seg.length then seg.drop len :: segs else segs)

def cutAt : List Nat → List α → List (List α)
  | _, [] => []
  | [], x :: xs => [x :: xs]
  | n :: ns, x :: xs => (x :: xs).take n :: cutAt ns ((x :: xs).drop n)

attribute [grind =] cutAt

def positions : List Nat → List Nat
  | [] => []
  | n :: ns => n :: (positions ns).map (n + ·)

/-- There is no cut between the places `a` and `b`. -/
def Uncut (a b : Nat) (ns : List Nat) : Prop := ∀ p ∈ positions ns, ¬ (a < p ∧ p < b)

instance (a b : Nat) (ns : List Nat) : Decidable (Uncut a b ns) :=
  inferInstanceAs (Decidable (∀ p ∈ positions ns, ¬ (a < p ∧ p < b)))

/-- No segment is empty. -/
def Proper (segs : List (List α)) : Prop := ∀ seg ∈ segs, seg ≠ []

variable {segs : List (List α)} {ns : List Nat} {xs : List α} {n len : Nat}

theorem cutAt_nil (ns : List Nat) : cutAt ns ([] : List α) = [] := by
  cases ns <;> rfl

theorem cutAt_cons (h : xs ≠ []) : cutAt (n :: ns) xs = xs.take n :: cutAt ns (xs.drop n) := by
  cases xs with
  | nil => exact absurd rfl h
  | cons x xs => rfl

theorem flatten_cutAt (ns : List Nat) (xs : List α) : (cutAt ns xs).flatten = xs := by
  induction ns generalizing xs with
  | nil => cases xs <;> simp [cutAt]
  | cons n ns ih =>
    cases xs with
    | nil => rfl
    | cons x xs => rw [cutAt_cons (List.cons_ne_nil x xs), List.flatten_cons, ih,
        List.take_append_drop]

theorem proper_cutAt (h : ∀ n ∈ ns, 0 < n) (xs : List α) : Proper (cutAt ns xs) := by
  induction ns generalizing xs with
  | nil => cases xs <;> simp [cutAt, Proper]
  | cons n ns ih =>
    cases xs with
    | nil => exact fun seg hseg => nomatch hseg
    | cons x xs =>
      have hn := h n List.mem_cons_self
      intro seg hseg
      rw [cutAt_cons (List.cons_ne_nil x xs), List.mem_cons] at hseg
      rcases hseg with rfl | hseg
      · simp [Nat.ne_of_gt hn]
      · exact ih (fun m hm => h m (List.mem_cons_of_mem n hm)) _ seg hseg

theorem Proper.eq_nil (h : Proper segs) (hflat : segs.flatten = []) : segs = [] := by
  cases segs with
  | nil => rfl
  | cons seg segs =>
    rw [List.flatten_cons, List.append_eq_nil_iff] at hflat
    exact absurd hflat.1 (h seg List.mem_cons_self)

/-- A read takes a piece from the front of what has arrived. -/
theorem Proper.recv (h : Proper segs) (hne : segs ≠ []) (hlen : 0 < len) :
    ∃ got rest, SegmentedStream.recv len segs = some (got, rest) ∧ Proper rest ∧
      got ++ rest.flatten = segs.flatten ∧ 0 < got.length ∧ got.length ≤ len := by
  cases segs with
  | nil => exact absurd rfl hne
  | cons seg segs =>
    have hseg : 0 < seg.length := List.length_pos_iff.mpr (h seg List.mem_cons_self)
    have hsegs : Proper segs := fun s hs => h s (List.mem_cons_of_mem seg hs)
    refine ⟨_, _, rfl, ?_, ?_, ?_, ?_⟩
    · split
      · rename_i hlt
        intro s hs
        rw [List.mem_cons] at hs
        rcases hs with rfl | hs
        · exact List.length_pos_iff.mp (by rw [List.length_drop]; omega)
        · exact hsegs s hs
      · exact hsegs
    · split
      · rw [List.flatten_cons, List.flatten_cons, ← List.append_assoc, List.take_append_drop]
      · rename_i hge
        rw [List.take_of_length_le (Nat.not_lt.mp hge), List.flatten_cons]
    · rw [List.length_take]
      omega
    · rw [List.length_take]
      omega

/-! ### Reads that meet no cut -/

/-- The segments that remain after `n` elements have been read from the first one. -/
def advance (n : Nat) : List Nat → List Nat
  | [] => []
  | m :: ns => if n < m then (m - n) :: ns else ns

attribute [grind =] advance

theorem advance_pos (h : ∀ m ∈ ns, 0 < m) : ∀ m ∈ advance n ns, 0 < m := by
  cases ns with
  | nil => exact fun m hm => nomatch hm
  | cons k ns =>
    intro m hm
    rw [advance] at hm
    split at hm
    · rw [List.mem_cons] at hm
      rcases hm with rfl | hm
      · omega
      · exact h m (List.mem_cons_of_mem k hm)
    · exact h m (List.mem_cons_of_mem k hm)

theorem Uncut.head {m : Nat} (h : Uncut 0 n (m :: ns)) (hm : 0 < m) : n ≤ m := by
  have hcut := h m List.mem_cons_self
  omega

/-- A read of `n` elements that are not cut gives them all. -/
theorem recv_uncut (h : Uncut 0 n ns) (hpos : ∀ m ∈ ns, 0 < m) (hn : n ≤ xs.length)
    (hne : xs ≠ []) :
    recv n (cutAt ns xs) = some (xs.take n, cutAt (advance n ns) (xs.drop n)) := by
  cases ns with
  | nil =>
    cases xs with
    | nil => exact absurd rfl hne
    | cons x xs =>
      rw [cutAt, recv, advance]
      split
      · rename_i hlt
        have hdrop : (x :: xs).drop n ≠ [] := by
          rw [ne_eq, List.drop_eq_nil_iff]
          exact Nat.not_le.mpr hlt
        cases hd : (x :: xs).drop n with
        | nil => exact absurd hd hdrop
        | cons y ys => rfl
      · rename_i hge
        rw [List.drop_of_length_le (Nat.not_lt.mp hge), cutAt_nil]
  | cons m ns =>
    have hm : n ≤ m := h.head (hpos m List.mem_cons_self)
    rw [cutAt_cons hne, recv, List.take_take, Nat.min_eq_left hm]
    congr 2
    rw [List.length_take, advance]
    rcases Nat.lt_or_eq_of_le hm with hlt | rfl
    · rw [if_pos hlt]
      rcases Nat.lt_or_eq_of_le hn with hmore | hall
      · have hdrop : xs.drop n ≠ [] := by
          rw [ne_eq, List.drop_eq_nil_iff]
          exact Nat.not_le.mpr hmore
        rw [if_pos (Nat.lt_min.mpr ⟨hlt, hmore⟩), cutAt_cons hdrop, List.drop_take,
          List.drop_drop, Nat.add_sub_cancel' hm]
      · have hnil : xs.drop m = [] := List.drop_of_length_le (by omega)
        rw [if_neg (by omega), hnil, cutAt_nil, List.drop_of_length_le (by omega), cutAt_nil]
    · rw [if_neg (Nat.lt_irrefl n), if_neg (by omega)]

/-- What is not cut after a first read was not cut before. -/
theorem Uncut.advance {a b : Nat} (h : Uncut (n + a) (n + b) ns) (h0 : Uncut 0 n ns)
    (hpos : ∀ m ∈ ns, 0 < m) : Uncut a b (SegmentedStream.advance n ns) := by
  cases ns with
  | nil => exact fun p hp => nomatch hp
  | cons m ns =>
    have hm : n ≤ m := h0.head (hpos m List.mem_cons_self)
    intro p hp
    have hmem : n + p ∈ positions (m :: ns) := by
      rw [SegmentedStream.advance] at hp
      rw [positions, List.mem_cons, List.mem_map]
      split at hp
      · rw [positions, List.mem_cons, List.mem_map] at hp
        rcases hp with rfl | ⟨q, hq, rfl⟩
        · exact .inl (by omega)
        · exact .inr ⟨q, hq, by omega⟩
      · exact .inr ⟨p, hp, by omega⟩
    have hcut := h (n + p) hmem
    omega

end SaneBackends.SegmentedStream

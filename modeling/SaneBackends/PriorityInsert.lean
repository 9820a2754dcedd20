import SaneBackends.LabelledRun
import Mathlib.Data.List.MinMax
import Mathlib.Data.List.Perm.Basic

/-!
# Sorted lists of the best entries

An entry is inserted in front of the first one whose key is not smaller.  Entries have an identity
and a priority; where the new entry meets one with its identity, the better of the two stays.  The
list holds the best entries of each identity as long as the one that is met speaks for all others.
-/

namespace SaneBackends.PriorityInsert

open LabelledRun

variable {α κ ι : Type*} [LinearOrder κ] [DecidableEq ι]
  (key : α → κ) (ident : α → ι) (prio : α → Nat)

def insertBest (m : α) : List α → List α
  | [] => [m]
  | r :: rs =>
    if key m ≤ key r then
      if ident m = ident r then
        if prio m < prio r then r :: rs
        else if prio m > prio r then m :: rs
        else m :: r :: rs
      else m :: r :: rs
    else r :: insertBest m rs

attribute [grind =] insertBest

/-- No entry with the same identity is better. -/
def Top (ms : List α) (a : α) : Prop := ∀ b ∈ ms, ident b = ident a → prio b ≤ prio a

instance (ms : List α) (a : α) : Decidable (Top ident prio ms a) :=
  inferInstanceAs (Decidable (∀ b ∈ ms, _))

/-- The entries that stay. -/
def best (ms : List α) : List α := ms.filter (Top ident prio ms ·)

/-- The entry with its key that is met first is of the same identity and, unless the priorities are
    equal, better or the only one of this identity. -/
def Fits (rs : List α) (m : α) : Prop :=
  ∀ r ∈ rs, ident r = ident m → prio r = prio m ∨
    ∃ f, rs.find? (fun x => key x = key m) = some f ∧ ident f = ident m ∧
      (prio m < prio r ∨ rs.countP (fun x => ident x = ident m) = 1)

variable {key ident prio} {m a r f : α} {rs ms ms' : List α}

/-! ### Order -/

theorem mem_insertBest (h : a ∈ insertBest key ident prio m rs) : a = m ∨ a ∈ rs := by
  induction rs with
  | nil => exact .inl (List.mem_singleton.mp h)
  | cons r rs ih =>
    rw [insertBest] at h
    split at h
    · split at h
      · split at h
        · exact .inr h
        split at h
        · exact (List.mem_cons.mp h).imp_right (List.mem_cons_of_mem r)
        · exact List.mem_cons.mp h
      · exact List.mem_cons.mp h
    · rcases List.mem_cons.mp h with heq | hmem
      · exact .inr (heq ▸ List.mem_cons_self)
      · exact (ih hmem).imp_right (List.mem_cons_of_mem r)

theorem insertBest_sorted (h : rs.Pairwise (key · ≤ key ·)) :
    (insertBest key ident prio m rs).Pairwise (key · ≤ key ·) := by
  induction rs with
  | nil => exact List.pairwise_singleton _ m
  | cons r rs ih =>
    obtain ⟨hfirst, hrest⟩ := List.pairwise_cons.mp h
    rw [insertBest]
    split
    · rename_i hle
      have hsmall : ∀ a ∈ r :: rs, key m ≤ key a := by
        intro a ha
        rcases List.mem_cons.mp ha with rfl | hmem
        · exact hle
        · exact hle.trans (hfirst a hmem)
      have hfront : (m :: r :: rs).Pairwise (key · ≤ key ·) := List.pairwise_cons.mpr ⟨hsmall, h⟩
      split
      · split
        · exact h
        split
        · exact List.pairwise_cons.mpr
            ⟨fun a ha => hsmall a (List.mem_cons_of_mem r ha), hrest⟩
        · exact hfront
      · exact hfront
    · rename_i hgt
      refine List.pairwise_cons.mpr ⟨fun a ha => ?_, ih hrest⟩
      rcases mem_insertBest ha with rfl | hmem
      · exact (not_le.mp hgt).le
      · exact hfirst a hmem

/-! ### One insertion -/

/-- Among entries of its priority the new one is added. -/
theorem insertBest_add (h : ∀ r ∈ rs, ident r = ident m → prio r = prio m) :
    (insertBest key ident prio m rs).Perm (m :: rs) := by
  induction rs with
  | nil => exact .refl _
  | cons r rs ih =>
    rw [insertBest]
    split
    · split
      · rename_i hident
        have hprio := h r List.mem_cons_self hident.symm
        rw [if_neg (by omega), if_neg (by omega)]
      · exact .refl _
    · exact ((ih fun a ha => h a (List.mem_cons_of_mem r ha)).cons r).trans (.swap m r rs)

theorem insertBest_behind (hsorted : (r :: rs).Pairwise (key · ≤ key ·))
    (hfind : (r :: rs).find? (fun x => key x = key m) = some f) (hne : key r ≠ key m) :
    insertBest key ident prio m (r :: rs) = r :: insertBest key ident prio m rs ∧
      rs.find? (fun x => key x = key m) = some f := by
  rw [List.find?_cons_of_neg (by rwa [decide_eq_true_eq])] at hfind
  have hkey := List.find?_some hfind
  rw [decide_eq_true_eq] at hkey
  have hle : key r ≤ key f :=
    (List.pairwise_cons.mp hsorted).1 f (List.mem_of_find?_eq_some hfind)
  rw [hkey] at hle
  exact ⟨if_neg (lt_of_le_of_ne hle hne).not_ge, hfind⟩

/-- A worse entry than the one that it meets is dropped. -/
theorem insertBest_drop (hsorted : rs.Pairwise (key · ≤ key ·))
    (hfind : rs.find? (fun x => key x = key m) = some f) (hident : ident f = ident m)
    (hprio : prio m < prio f) : insertBest key ident prio m rs = rs := by
  induction rs with
  | nil => cases hfind
  | cons r rs ih =>
    by_cases hkey : key r = key m
    · rw [List.find?_cons_of_pos (p := fun x => key x = key m) (decide_eq_true hkey)] at hfind
      cases hfind
      rw [insertBest, if_pos hkey.ge, if_pos hident.symm, if_pos hprio]
    · obtain ⟨hstep, hrest⟩ : insertBest key ident prio m (r :: rs) = _ ∧ _ :=
        insertBest_behind hsorted hfind hkey
      rw [hstep, ih (List.pairwise_cons.mp hsorted).2 hrest]

/-- A better entry replaces the only one of its identity. -/
theorem insertBest_replace (hsorted : rs.Pairwise (key · ≤ key ·))
    (hkeys : ∀ {a b : α}, ident a = ident b → key a = key b)
    (hfind : rs.find? (fun x => key x = key m) = some f) (hident : ident f = ident m)
    (hprio : prio f < prio m) (honly : rs.countP (fun x => ident x = ident m) = 1) :
    (insertBest key ident prio m rs).Perm (m :: rs.filter (fun x => ident x ≠ ident m)) := by
  induction rs with
  | nil => cases hfind
  | cons r rs ih =>
    by_cases hkey : key r = key m
    · rw [List.find?_cons_of_pos (p := fun x => key x = key m) (decide_eq_true hkey)] at hfind
      cases hfind
      rw [List.countP_cons_of_pos (p := fun x => ident x = ident m) (decide_eq_true hident)]
        at honly
      have hnone : ∀ x ∈ rs, ident x ≠ ident m := by
        intro x hx heq
        exact List.countP_eq_zero.mp (Nat.succ.inj honly) x hx (decide_eq_true heq)
      rw [insertBest, if_pos hkey.ge, if_pos hident.symm, if_neg hprio.not_gt, if_pos hprio,
        List.filter_cons_of_neg (by rwa [decide_eq_true_eq, not_not]),
        List.filter_eq_self.mpr fun x hx => decide_eq_true (hnone x hx)]
    · have hother : ident r ≠ ident m := fun heq => hkey (hkeys heq)
      obtain ⟨hstep, hrest⟩ : insertBest key ident prio m (r :: rs) = _ ∧ _ :=
        insertBest_behind hsorted hfind hkey
      rw [List.countP_cons_of_neg (by rwa [decide_eq_true_eq])] at honly
      rw [hstep, List.filter_cons_of_pos (p := fun x => ident x ≠ ident m) (decide_eq_true hother)]
      exact ((ih (List.pairwise_cons.mp hsorted).2 hrest honly).cons r).trans (.swap m r _)

/-! ### The best entries -/

theorem mem_best : a ∈ best ident prio ms ↔ a ∈ ms ∧ Top ident prio ms a := by
  rw [best, List.mem_filter, decide_eq_true_eq]

theorem best_prio_eq {b : α} (ha : a ∈ best ident prio ms) (hb : b ∈ best ident prio ms)
    (h : ident a = ident b) : prio a = prio b := by
  obtain ⟨ha, htopa⟩ := (mem_best).mp ha
  obtain ⟨hb, htopb⟩ := (mem_best).mp hb
  exact Nat.le_antisymm (htopb a ha h) (htopa b hb h.symm)

/-- Every entry has one of its identity that stays. -/
theorem exists_best (h : a ∈ ms) :
    ∃ b ∈ best ident prio ms, ident b = ident a ∧ prio a ≤ prio b := by
  have hmem : a ∈ ms.filter fun x => ident x = ident a :=
    List.mem_filter.mpr ⟨h, decide_eq_true rfl⟩
  obtain ⟨b, hb⟩ : ∃ b, List.argmax prio (ms.filter fun x => ident x = ident a) = some b := by
    rw [← Option.isSome_iff_exists, Option.isSome_iff_ne_none, ne_eq, List.argmax_eq_none]
    exact List.ne_nil_of_mem hmem
  obtain ⟨hbms, hident⟩ := List.mem_filter.mp (List.argmax_mem hb)
  have hident : ident b = ident a := of_decide_eq_true hident
  refine ⟨b, (mem_best).mpr ⟨hbms, fun x hx heq => ?_⟩, hident, List.le_of_mem_argmax hmem hb⟩
  exact List.le_of_mem_argmax
    (List.mem_filter.mpr ⟨hx, decide_eq_true (heq.trans hident)⟩) hb

omit [DecidableEq ι] in
theorem top_append : Top ident prio (ms ++ [m]) a ↔
    Top ident prio ms a ∧ (ident m = ident a → prio m ≤ prio a) := by
  constructor
  · intro h
    exact ⟨fun b hb => h b (List.mem_append_left _ hb),
      h m (List.mem_append_right _ (List.mem_singleton_self m))⟩
  · rintro ⟨hold, hnew⟩ b hb
    rcases List.mem_append.mp hb with hb | hb
    · exact hold b hb
    · rw [List.mem_singleton.mp hb]
      exact hnew

/-- What is left of the old entries, and the new one if it is among the best. -/
theorem best_append (ms : List α) (m : α) : best ident prio (ms ++ [m]) =
    (best ident prio ms).filter (fun a => ident m = ident a → prio m ≤ prio a) ++
      if Top ident prio ms m then [m] else [] := by
  rw [best, best, List.filter_append, List.filter_filter]
  congr 1
  · refine List.filter_congr fun a _ => ?_
    rw [← Bool.decide_and, decide_eq_decide, top_append, and_comm]
  · rw [List.filter_singleton]
    have htop : Top ident prio (ms ++ [m]) m ↔ Top ident prio ms m :=
      (top_append).trans (and_iff_left fun _ => le_rfl)
    by_cases h : Top ident prio ms m
    · rw [if_pos h, decide_eq_true (htop.mpr h)]
      rfl
    · rw [if_neg h, decide_eq_false (mt htop.mp h)]
      rfl

theorem best_perm (h : ms.Perm ms') : (best ident prio ms).Perm (best ident prio ms') := by
  have hsame : ∀ a, Top ident prio ms a ↔ Top ident prio ms' a := fun a =>
    ⟨fun htop b hb => htop b (h.mem_iff.mpr hb), fun htop b hb => htop b (h.mem_iff.mp hb)⟩
  rw [best, best, List.filter_congr fun a _ => decide_eq_decide.mpr (hsame a)]
  exact h.filter _

theorem insertBest_best (hkeys : ∀ {a b : α}, ident a = ident b → key a = key b)
    (hsorted : rs.Pairwise (key · ≤ key ·)) (hbest : rs.Perm (best ident prio ms))
    (hfits : Fits key ident prio rs m) :
    (insertBest key ident prio m rs).Perm (best ident prio (ms ++ [m])) := by
  have hafter : (best ident prio (ms ++ [m])).Perm
      (rs.filter (fun a => ident m = ident a → prio m ≤ prio a) ++
        if Top ident prio ms m then [m] else []) := by
    rw [best_append]
    exact (hbest.symm.filter _).append_right _
  refine .trans ?_ hafter.symm
  have htop : Top ident prio ms m ↔ ∀ r ∈ rs, ident r = ident m → prio r ≤ prio m := by
    constructor
    · intro h r hr
      exact h r ((mem_best).mp (hbest.mem_iff.mp hr)).1
    · intro h b hb hident
      obtain ⟨r, hr, hident', hle⟩ : ∃ r ∈ best ident prio ms, _ := exists_best hb
      exact hle.trans (h r (hbest.mem_iff.mpr hr) (hident'.trans hident))
  have hequal : ∀ {a b : α}, a ∈ rs → b ∈ rs → ident a = ident b → prio a = prio b :=
    fun ha hb => best_prio_eq (hbest.mem_iff.mp ha) (hbest.mem_iff.mp hb)
  by_cases hall : ∀ r ∈ rs, ident r = ident m → prio r = prio m
  · rw [if_pos (htop.mpr fun r hr hident => (hall r hr hident).le),
      List.filter_eq_self.mpr fun r hr => decide_eq_true fun hident =>
        (hall r hr hident.symm).ge]
    exact (insertBest_add hall).trans (List.perm_append_singleton m rs).symm
  · push Not at hall
    obtain ⟨r, hr, hident, hne⟩ := hall
    obtain ⟨f, hfind, hidentf, hcase⟩ := (hfits r hr hident).resolve_left hne
    have hf : f ∈ rs := List.mem_of_find?_eq_some hfind
    have hpriof : prio f = prio r := hequal hf hr (hidentf.trans hident.symm)
    have hclass : ∀ a ∈ rs, ident m = ident a → prio a = prio f := fun a ha h =>
      hequal ha hf (h.symm.trans hidentf.symm)
    rcases Nat.lt_or_gt_of_ne hne with hlt | hgt
    · have honly := hcase.resolve_left (by omega)
      rw [if_pos (htop.mpr fun a ha h => (hclass a ha h.symm).le.trans (by omega))]
      have hfilter : rs.filter (fun a => ident m = ident a → prio m ≤ prio a) =
          rs.filter (fun a => ident a ≠ ident m) := by
        refine List.filter_congr fun a ha => decide_eq_decide.mpr ⟨fun h heq => ?_, fun h heq =>
          absurd heq.symm h⟩
        have hle := h heq.symm
        rw [hclass a ha heq.symm] at hle
        omega
      rw [hfilter]
      exact (insertBest_replace hsorted hkeys hfind hidentf (by omega) honly).trans
        (List.perm_append_singleton m _).symm
    · have hnot : ¬ Top ident prio ms m := by
        rw [htop]
        intro h
        have hle := h f hf hidentf
        omega
      rw [if_neg hnot, List.append_nil, List.filter_eq_self.mpr fun a ha =>
        decide_eq_true fun h => by rw [hclass a ha h]; omega]
      rw [insertBest_drop hsorted hfind hidentf (by omega)]

/-! ### Runs -/

/-- Every list that insertions build is sorted. -/
theorem run_sorted
    (hrun : Run (fun rs m rs' => insertBest key ident prio m rs = rs') [] ms rs) :
    rs.Pairwise (key · ≤ key ·) := by
  refine hrun.invariant (I := fun rs => rs.Pairwise (key · ≤ key ·)) .nil ?_
  rintro rs m rs' hsorted rfl
  exact insertBest_sorted hsorted

/-- A list that insertions build holds the best entries. -/
theorem run_best (hkeys : ∀ {a b : α}, ident a = ident b → key a = key b)
    (hrun : Run (fun rs m rs' => Fits key ident prio rs m ∧
      insertBest key ident prio m rs = rs') [] ms rs) :
    rs.Perm (best ident prio ms) := by
  have hboth : rs.Pairwise (key · ≤ key ·) ∧ rs.Perm (best ident prio ms) := by
    refine hrun.history (I := fun ms rs => rs.Pairwise (key · ≤ key ·) ∧
      rs.Perm (best ident prio ms)) ⟨.nil, .refl _⟩ ?_
    rintro ms rs m rs' ⟨hsorted, hbest⟩ ⟨hfits, rfl⟩
    exact ⟨insertBest_sorted hsorted, insertBest_best hkeys hsorted hbest hfits⟩
  exact hboth.2

end SaneBackends.PriorityInsert

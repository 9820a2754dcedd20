import Mathlib.Logic.Relation
import Mathlib.Data.Set.Basic

/-!
# Erasing whole components

The points of a set fall into components under an adjacency relation.  What remains of a set
when parts of it are erased one after the other consists of whole components if none of the
parts has a remaining neighbour outside of it; and if all parts are small, only small components
are erased.
-/

namespace SaneBackends.Components

variable {α : Type*} {adj : α → α → Prop} {small : Set α → Prop} {orig cur W : Set α}

/-- The points of the set that can be reached from `p`. -/
def component (adj : α → α → Prop) (orig : Set α) (p : α) : Set α :=
  {q | Relation.ReflTransGen (fun a b => b ∈ orig ∧ adj a b) p q}

theorem component_subset {p : α} (hp : p ∈ orig) : component adj orig p ⊆ orig := by
  intro q hq
  induction hq with
  | refl => exact hp
  | tail _ hstep _ => exact hstep.1

/-- A property that neighbours share is shared by a component. -/
theorem component_induction {P : α → Prop} {p q : α} (hp : p ∈ orig)
    (hq : q ∈ component adj orig p)
    (hstep : ∀ a ∈ orig, ∀ b ∈ orig, adj a b → P a → P b) (h : P p) : P q := by
  induction hq with
  | refl => exact h
  | tail hreach hlast ih => exact hstep _ (component_subset hp hreach) _ hlast.1 hlast.2 ih

/-- `cur` is `orig` without some of its components, which are all small. -/
structure ErasesWhole (adj : α → α → Prop) (small : Set α → Prop) (orig cur : Set α) : Prop where
  subset : cur ⊆ orig
  closed : ∀ p ∈ orig, ∀ q ∈ orig, adj p q → (p ∈ cur ↔ q ∈ cur)
  erased_small : ∀ p ∈ orig, p ∉ cur → small (component adj orig p)

theorem ErasesWhole.refl : ErasesWhole adj small orig orig where
  subset := fun _ h => h
  closed := fun _ hp _ hq _ => ⟨fun _ => hq, fun _ => hp⟩
  erased_small := fun _ hp hnot => absurd hp hnot

/-- A component is kept or erased as a whole. -/
theorem ErasesWhole.component_kept (h : ErasesWhole adj small orig cur) {p q : α} (hp : p ∈ orig)
    (hq : q ∈ component adj orig p) : p ∈ cur ↔ q ∈ cur :=
  component_induction (P := fun q => p ∈ cur ↔ q ∈ cur) hp hq
    (fun a ha b hb hab hpa => hpa.trans (h.closed a ha b hb hab)) Iff.rfl

/-- A small part without remaining neighbours is erased. -/
theorem ErasesWhole.erase (h : ErasesWhole adj small orig cur) (hsymm : ∀ p q, adj p q → adj q p)
    (hmono : ∀ A B, A ⊆ B → small B → small A) (hW : small W)
    (hring : ∀ p ∈ W, ∀ q ∉ W, adj p q → q ∉ cur) : ErasesWhole adj small orig (cur \ W) := by
  have hstay : ∀ p ∈ orig, ∀ q ∈ orig, adj p q → p ∈ cur → p ∈ W → q ∈ W := by
    intro p hp q hq hadj hcur hpW
    by_contra hqW
    exact hring p hpW q hqW hadj ((h.closed p hp q hq hadj).mp hcur)
  refine ⟨fun p hp => h.subset hp.1, ?_, ?_⟩
  · intro p hp q hq hadj
    have hcur := h.closed p hp q hq hadj
    constructor
    · rintro ⟨hpcur, hpW⟩
      have hqcur := hcur.mp hpcur
      exact ⟨hqcur, fun hqW => hpW (hstay q hq p hp (hsymm p q hadj) hqcur hqW)⟩
    · rintro ⟨hqcur, hqW⟩
      have hpcur := hcur.mpr hqcur
      exact ⟨hpcur, fun hpW => hqW (hstay p hp q hq hadj hpcur hpW)⟩
  · intro p hp hnot
    by_cases hpcur : p ∈ cur
    · -- erased just now, so that its whole component lies in the part
      have hpW : p ∈ W := by
        by_contra hpW
        exact hnot ⟨hpcur, hpW⟩
      refine hmono _ W ?_ hW
      intro q hq
      have hboth : q ∈ cur ∧ q ∈ W :=
        component_induction (P := fun q => q ∈ cur ∧ q ∈ W) hp hq
          (fun a ha b hb hab hPa =>
            ⟨(h.closed a ha b hb hab).mp hPa.1, hstay a ha b hb hab hPa.1 hPa.2⟩)
          ⟨hpcur, hpW⟩
      exact hboth.2
    · exact h.erased_small p hp hpcur

end SaneBackends.Components

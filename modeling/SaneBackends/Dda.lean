import SaneBackends.FaultState
import Mathlib.Tactic.Linarith

/-!
# Resampling with a running remainder

A digital differential analyser goes through the points of a source and writes each of them as
often as a running remainder says.  In the end point `p` has been written from the source point
`p * zoom / scaler`, rounded down.
-/

namespace SaneBackends.Dda

open FaultState

variable {σ ε : Type}

/-- `while (ddax < 0 && left > 0) { body; ddax += zoom; left--; }`, and how `left` and `ddax` stand
    behind it. -/
def fill (zoom : Nat) (body : Nat → σ → Except ε σ) : Nat → Int → σ → Except ε (Nat × Int × σ)
  | 0, ddax, s => .ok (0, ddax, s)
  | left + 1, ddax, s =>
    if ddax < 0 then do
      let s ← body (left + 1) s
      fill zoom body left (ddax + zoom) s
    else .ok (left + 1, ddax, s)

/-- `for (; left; b++) { ddax -= scaler; fill; after }`, as long as there is fuel. -/
def scale (scaler zoom : Nat) (body : Nat → Nat → σ → Except ε σ) (after : Nat → σ → Except ε σ)
    (e : ε) : Nat → Nat → Nat → Int → σ → Except ε σ
  | 0, _, left, _, s => if left = 0 then .ok s else .error e
  | fuel + 1, b, left, ddax, s =>
    if left = 0 then .ok s
    else do
      let (left, ddax, s) ← fill zoom (body b) left (ddax - scaler) s
      let s ← after b s
      scale scaler zoom body after e fuel (b + 1) left ddax s

variable {scaler zoom n b : Nat}

/-- The points that belong to source point `b` are written, up to the last one or the first that
    does not. -/
theorem fill_ok {body : Nat → σ → Except ε σ} {I : Nat → σ → Prop} (hscaler : 0 < scaler)
    (hbody : ∀ p < n, p * zoom / scaler = b → ∀ s, I p s →
      ∃ s', body (n - p) s = .ok s' ∧ I (p + 1) s')
    {left p : Nat} {s : σ} (hp : p + left = n) (hb : b * scaler ≤ p * zoom) (hs : I p s) :
    ∃ p' s', fill zoom body left ((p * zoom : Nat) - ((b + 1) * scaler : Nat) : Int) s
        = .ok (n - p', ((p' * zoom : Nat) - ((b + 1) * scaler : Nat) : Int), s') ∧
      I p' s' ∧ p' ≤ n ∧ b * scaler ≤ p' * zoom ∧ (p' = n ∨ (b + 1) * scaler ≤ p' * zoom) := by
  induction left generalizing p s with
  | zero =>
    obtain rfl : p = n := by omega
    refine ⟨p, s, ?_, hs, Nat.le_refl p, hb, Or.inl rfl⟩
    rw [fill, Nat.sub_self]
  | succ left ih =>
    by_cases hneg : p * zoom < (b + 1) * scaler
    · have hsource : p * zoom / scaler = b :=
        (Nat.div_eq_iff hscaler).mpr ⟨hb, by rw [Nat.add_mul] at hneg; omega⟩
      obtain ⟨t, hrun, ht⟩ := hbody p (by omega) hsource s hs
      have hleft : n - p = left + 1 := by omega
      have hnext : (p + 1) * zoom = p * zoom + zoom := Nat.succ_mul p zoom
      obtain ⟨p', s', hfill, hrest⟩ := ih (p := p + 1) (s := t) (by omega) (by omega) ht
      refine ⟨p', s', ?_, hrest⟩
      rw [hleft] at hrun
      rw [fill, if_pos (by omega), hrun, ok_bind, ← hfill]
      congr 1
      omega
    · refine ⟨p, s, ?_, hs, by omega, hb, Or.inr (Nat.not_lt.mp hneg)⟩
      rw [fill, if_neg (by omega)]
      congr 2
      omega

/-- What holds of the points written so far and of the source points behind. -/
theorem scale_ok {body : Nat → Nat → σ → Except ε σ} {after : Nat → σ → Except ε σ} {e : ε}
    {I : Nat → Nat → σ → Prop} (hscaler : 0 < scaler)
    (hbody : ∀ p < n, ∀ s, I (p * zoom / scaler) p s →
      ∃ s', body (p * zoom / scaler) (n - p) s = .ok s' ∧ I (p * zoom / scaler) (p + 1) s')
    (hafter : ∀ p < n, ∀ b ≤ p * zoom / scaler, ∀ p' s, I b p' s →
      ∃ s', after b s = .ok s' ∧ I (b + 1) p' s')
    {fuel : Nat} (hfuel : n * zoom < fuel) {s : σ} (hs : I 0 0 s) :
    ∃ b s', scale scaler zoom body after e fuel 0 n 0 s = .ok s' ∧ I b n s' := by
  -- at the turn for `b` nothing that belongs to an earlier source point is left
  have hgo : ∀ fuel b p s, p ≤ n → n * zoom < b + fuel → b * scaler ≤ p * zoom ∨ p = n → I b p s →
      ∃ b' s', scale scaler zoom body after e fuel b (n - p)
        ((p * zoom : Nat) - (b * scaler : Nat) : Int) s = .ok s' ∧ I b' n s' := by
    intro fuel
    induction fuel with
    | zero =>
      intro b p s hp hfuel hb hs
      rcases Nat.lt_or_ge p n with hlt | hge
      · have hb := hb.resolve_right hlt.ne
        have hle : b ≤ b * scaler := Nat.le_mul_of_pos_right b hscaler
        have hlt' : p * zoom ≤ n * zoom := Nat.mul_le_mul_right zoom hp
        omega
      · obtain rfl : p = n := Nat.le_antisymm hp hge
        exact ⟨b, s, by rw [scale, if_pos (Nat.sub_self p)], hs⟩
    | succ fuel ih =>
      intro b p s hp hfuel hb hs
      rcases Nat.lt_or_ge p n with hlt | hge
      · have hb := hb.resolve_right hlt.ne
        have hsource : b ≤ p * zoom / scaler := (Nat.le_div_iff_mul_le hscaler).mpr hb
        obtain ⟨p', t, hfill, ht, hp', -, hdone⟩ :=
          @fill_ok σ ε scaler zoom n b (body b) (I b) hscaler
            (fun q hq hqb s hs => by
              subst hqb
              exact hbody q hq s hs)
            _ p s (Nat.add_sub_cancel' hp) hb hs
        obtain ⟨u, hrun, hu⟩ := hafter p hlt b hsource p' t ht
        obtain ⟨b', s', hscale, hs'⟩ := ih (b + 1) p' u hp' (by omega) hdone.symm hu
        refine ⟨b', s', ?_, hs'⟩
        have hddax : ((p * zoom : Nat) - (b * scaler : Nat) : Int) - scaler
            = ((p * zoom : Nat) - ((b + 1) * scaler : Nat) : Int) := by
          rw [Nat.add_mul, Nat.one_mul]
          omega
        rw [scale, if_neg (by omega), hddax, hfill, ok_bind]
        simp only [hrun, ok_bind]
        exact hscale
      · obtain rfl : p = n := Nat.le_antisymm hp hge
        exact ⟨b, s, by rw [scale, if_pos (Nat.sub_self p)], hs⟩
  have h := hgo fuel 0 0 s (Nat.zero_le n) (by omega) (Or.inl (by omega)) hs
  rwa [Nat.zero_mul, Nat.zero_mul, Nat.sub_zero] at h

end SaneBackends.Dda

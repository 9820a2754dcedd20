import SaneBackends.SnapscanBase
import Mathlib.Tactic.Ring

/-!
# The expander of the SnapScan backend

Each channel of a line comes as one bit for each pixel and goes on as one byte for each.
If the pixels of a line fill its last byte, the expander gives eight bytes for every byte
it reads, in whatever pieces the channels arrive and the bytes are fetched.
-/

namespace SaneBackends

open Overwrite PullStream RingWindow

variable {σ : Type}

/-- The bit of a byte that becomes byte `j` of the output, the most significant one first. -/
def expandBit (b : SaneByte) (j : Nat) : SaneByte := if b.getLsbD (7 - j) then 0xff else 0

/-- The bytes made of all bits of `w`. -/
def expandBytes (w : List SaneByte) : List SaneByte :=
  (List.range (8 * w.length)).map fun k => expandBit (w.getD (k / 8) 0) (k % 8)

@[simp] theorem length_expandBytes (w : List SaneByte) :
    (expandBytes w).length = 8 * w.length := by
  rw [expandBytes, List.length_map, List.length_range]

theorem expandBytes_prefix {w : List SaneByte} {k : Nat} (hk : k < 8 * w.length) :
    [expandBit (w.getD (k / 8) 0) (k % 8)] <+: (expandBytes w).drop k := by
  rw [List.drop_eq_getElem_cons (by rwa [length_expandBytes])]
  simp [expandBytes]

/-- `t` bytes of `w` have been read, and `k` bytes been made of their bits. -/
structure Expander.Inv (size : Nat) (w : List SaneByte) (e : Expander) (t k : Nat) : Prop where
  chSize : e.chSize = size
  cells : e.chBuf.length = size
  lastLast : e.lastLastBit = 0
  last : e.lastBit = 0
  ndata : e.chNdata ≤ size
  pos : e.chPos ≤ e.chNdata
  begins : ∃ q, t = size * q + e.chNdata
  bit : e.bit ≤ 7
  fetch : e.chPos = e.chNdata → e.bit = 7
  count : k + 8 * e.chNdata = 8 * (t + e.chPos) + (7 - e.bit)
  window : Window e.chBuf w t
  fresh : e.stale = false

def Expander.At (size : Nat) (w : List SaneByte) (subAt : σ → Nat → Prop) (s : Expander × σ)
    (k : Nat) : Prop := ∃ t, subAt s.2 t ∧ s.1.Inv size w t k

section
variable {psub : Source σ} {w : List SaneByte} {slack size : Nat} {subFit fit : Nat → Prop}
  {subAt : σ → Nat → Prop} {prompt : σ → Prop}

theorem wrap_inv {e : Expander} {t k : Nat} (hsize : 0 < size) (h : e.Inv size w t k)
    (hfetch : e.chPos = e.chNdata) :
    e.wrap.Inv size w t k ∧ e.wrap.chPos = e.wrap.chNdata ∧ e.wrap.chNdata < size := by
  unfold Expander.wrap
  have hndata := h.ndata
  split_ifs with hfull
  · rw [h.chSize] at hfull
    refine ⟨⟨h.chSize, h.cells, h.lastLast, h.last, Nat.zero_le _, le_rfl, ?_, h.bit, ?_, ?_,
      h.window, h.fresh⟩, rfl, hsize⟩
    · obtain ⟨q, hq⟩ := h.begins
      refine ⟨q + 1, ?_⟩
      show t = size * (q + 1) + 0
      rw [Nat.mul_succ, hq]
      omega
    · intro _
      exact h.fetch hfetch
    · have hcount := h.count
      show k + 8 * 0 = 8 * (t + 0) + (7 - e.bit)
      omega
  · rw [h.chSize] at hfull
    exact ⟨h, hfetch, by omega⟩

/-- Data that the source below has given is stored behind what is there. -/
theorem gotData_inv {e : Expander} {t k : Nat} {bytes : List SaneByte} (h : e.Inv size w t k)
    (hfetch : e.chPos = e.chNdata) (hfront : bytes <+: w.drop t)
    (hlen : bytes.length ≤ size - e.chNdata) (hnone : bytes.length ≠ 0) :
    (e.gotData bytes).Inv size w (t + bytes.length) k ∧
      (e.gotData bytes).chPos < (e.gotData bytes).chNdata := by
  have hndata := h.ndata
  obtain ⟨q, hq⟩ := h.begins
  have hmod : t % e.chBuf.length = e.chPos := by
    rw [h.cells, hq, hfetch, Nat.mul_add_mod, Nat.mod_eq_of_lt (by omega)]
  refine ⟨⟨h.chSize, ?_, h.lastLast, ?_, ?_, ?_, ⟨q, ?_⟩, le_rfl, fun _ => rfl, ?_, ?_, h.fresh⟩,
    ?_⟩
  · refine (length_overwrite ?_).trans h.cells
    rw [h.cells, List.length_map, hfetch]
    omega
  · show e.lastBitAt e.chPos = 0
    unfold Expander.lastBitAt
    rw [h.lastLast]
    split_ifs <;> rfl
  · show e.chNdata + bytes.length ≤ size
    omega
  · show e.chPos ≤ e.chNdata + bytes.length
    omega
  · show t + bytes.length = size * q + (e.chNdata + bytes.length)
    omega
  · have hcount := h.count
    have hbit := h.fetch hfetch
    show k + 8 * (e.chNdata + bytes.length) = 8 * (t + bytes.length + e.chPos) + (7 - 7)
    omega
  · show Window (overwrite e.chBuf e.chPos (bytes.map some)) w (t + bytes.length)
    rw [← hmod]
    apply h.window.store hfront
    rw [hmod, h.cells, hfetch]
    omega
  · show e.chPos < e.chNdata + bytes.length
    omega

/-- The byte that comes next has been read, and the expander makes it of the right bit. -/
theorem next_inv {e : Expander} {t k : Nat} (h : e.Inv size w t k) (ht : t ≤ w.length)
    (hdata : e.chPos < e.chNdata) :
    [e.byte] <+: (expandBytes w).drop k ∧ e.next.Inv size w t (k + 1) := by
  have hndata := h.ndata
  have hcount := h.count
  have hbit := h.bit
  obtain ⟨q, hq⟩ := h.begins
  have hindex : k / 8 = size * q + e.chPos := by omega
  have hplace : k % 8 = 7 - e.bit := by omega
  have hmod : (size * q + e.chPos) % e.chBuf.length = e.chPos := by
    rw [h.cells, Nat.mul_add_mod, Nat.mod_eq_of_lt (by omega)]
  have hcell : readCell e.chBuf e.chPos = some (w.getD (k / 8) 0) := by
    have hread := @readCell_window w e.chBuf t (size * q + e.chPos) h.window (by omega)
      (by rw [h.cells]; omega) ht
    rwa [hmod, ← hindex] at hread
  constructor
  · have hbyte : e.byte = expandBit (w.getD (k / 8) 0) (k % 8) := by
      rw [Expander.byte, hcell, expandBit, hplace, Option.getD_some, Nat.sub_sub_self hbit]
    rw [hbyte]
    exact expandBytes_prefix (by omega)
  · have hfresh : (e.stale || (readCell e.chBuf e.chPos).isNone) = false := by
      rw [h.fresh, hcell]
      rfl
    unfold Expander.next
    simp only []
    split_ifs with hlast
    · rw [h.last] at hlast
      refine ⟨h.chSize, h.cells, h.lastLast, ?_, hndata, ?_, ⟨q, hq⟩, le_rfl, fun _ => rfl, ?_,
        h.window, hfresh⟩
      · show e.lastBitAt (e.chPos + 1) = 0
        unfold Expander.lastBitAt
        rw [h.lastLast]
        split_ifs <;> rfl
      · exact hdata
      · show k + 1 + 8 * e.chNdata = 8 * (t + (e.chPos + 1)) + (7 - 7)
        omega
    · rw [h.last] at hlast
      refine ⟨h.chSize, h.cells, h.lastLast, h.last, hndata, h.pos, ⟨q, hq⟩, ?_, ?_, ?_, h.window,
        hfresh⟩
      · show e.bit - 1 ≤ 7
        omega
      · intro heq
        exact absurd heq hdata.ne
      · show k + 1 + 8 * e.chNdata = 8 * (t + e.chPos) + (7 - (e.bit - 1))
        omega

theorem expander_transforms (hsize : 0 < size)
    (hsub : Delivers psub.toPullSource SaneStatus.good w slack subFit subAt)
    (hfit : ∀ e, subFit e) :
    Transforms (Expander.refill psub) (fun s _ => ([s.1.byte], (s.1.next, s.2)))
      (expandBytes w) fit (Expander.At size w subAt)
      (fun s k => Expander.At size w subAt s k ∧ s.1.chPos < s.1.chNdata) where
  stop {s k s'} h hrefill := by
    obtain ⟨t, hat, hinv⟩ := h
    unfold Expander.refill at hrefill
    split_ifs at hrefill with hfetch
    · obtain ⟨hsame, hat'⟩ := askSub_stop hsub hat (hfit _) hrefill
      exact ⟨t, hat', hsame ▸ (wrap_inv hsize hinv hfetch).1⟩
    · cases hrefill
  go {s k s'} h hrefill := by
    obtain ⟨t, hat, hinv⟩ := h
    unfold Expander.refill at hrefill
    split_ifs at hrefill with hfetch
    · obtain ⟨hwrap, hfetch', -⟩ := wrap_inv hsize hinv hfetch
      obtain ⟨bytes, -, hstored, hsome, hlen, hfront, hat'⟩ :=
        askSub_go hsub hat (hfit _) hrefill
      rw [hwrap.chSize] at hlen
      obtain ⟨hgot, hready⟩ := gotData_inv hwrap hfetch' hfront hlen
        (fun hnil => hsome (List.eq_nil_of_length_eq_zero hnil))
      rw [← hstored] at hgot hready
      exact ⟨⟨_, hat', hgot⟩, hready⟩
    · cases hrefill
      exact ⟨⟨t, hat, hinv⟩, lt_of_le_of_ne hinv.pos hfetch⟩
  makes {s k n} h hn _ := by
    obtain ⟨⟨t, hat, hinv⟩, hready⟩ := h
    obtain ⟨hfront, hnext⟩ := next_inv hinv (hsub.le hat) hready
    exact ⟨hn, hfront, t, hat, hnext⟩

/-- The rest of a channel is there when a byte is missing. -/
theorem expander_refill_prompt (hsize : 0 < size) (hwhole : size ∣ w.length)
    (hanswers : Answers psub.toPullSource SaneStatus.good w subFit subAt prompt)
    (hfit : ∀ e, subFit e) {s : Expander × σ} {k : Nat} (h : Expander.At size w subAt s k)
    (hprompt : prompt s.2) (hk : k < 8 * w.length) :
    ∃ s', Expander.refill psub s = some (.go s') ∧ prompt s'.2 := by
  obtain ⟨t, hat, hinv⟩ := h
  unfold Expander.refill
  split_ifs with hfetch
  · obtain ⟨hwrap, hfetch', hroom⟩ := wrap_inv hsize hinv hfetch
    obtain ⟨q, hq⟩ := hwrap.begins
    obtain ⟨channels, hchannels⟩ := hwhole
    have hcount := hwrap.count
    have hbit := hwrap.fetch hfetch'
    have hinside : q < channels := by
      refine Nat.lt_of_mul_lt_mul_left (a := size) ?_
      omega
    have hend : size * q + size ≤ w.length := by
      rw [hchannels, ← Nat.mul_succ]
      exact Nat.mul_le_mul_left _ hinside
    show ∃ s', askSub psub (s.1.wrap.chSize - s.1.wrap.chNdata) s.1.wrap.gotData s.1.wrap s.2 =
      some (.go s') ∧ prompt s'.2
    rw [hwrap.chSize]
    obtain ⟨sub', hask, hprompt'⟩ := askSub_full (size - s.1.wrap.chNdata) s.1.wrap.gotData
      s.1.wrap hanswers hat hprompt (by omega) (by omega) (hfit _)
    exact ⟨_, hask, hprompt'⟩
  · exact ⟨s, rfl, hprompt⟩

/-! ### What remains -/

/-- Whole channels below a number of bytes are below its whole channels. -/
theorem mul_le_mul_ediv {remaining m : Int} (hsize : 0 < size) (h : size * m ≤ remaining) :
    size * m ≤ size * (remaining / size) := by
  apply Int.mul_le_mul_of_nonneg_left
  · apply Int.le_ediv_of_mul_le
    · omega
    · rwa [Int.mul_comm]
  · omega

/-- What `Expander_remaining` returns, before it is made a `SANE_Int`. -/
def Expander.rest (size : Nat) (e : Expander) (remaining : Int) : Int :=
  8 * (size * (remaining / size)) +
    if e.chPos < size then 8 * size - (max (((e.chPos : Int) - 1) * 8) 0 + 7 - e.bit) else 0

/-- The channels that are in the buffer or still to be read. -/
theorem channels_left {e : Expander} {t k : Nat} {remaining : Int} (hsize : 0 < size)
    (hwhole : size ∣ w.length) (h : e.Inv size w t k) (hcounts : (w.length : Int) ≤ t + remaining) :
    (w.length : Int) ≤ t - e.chNdata + size * (remaining / size) +
      if e.chNdata = 0 then 0 else size := by
  obtain ⟨l, hl⟩ := hwhole
  obtain ⟨q, hq⟩ := h.begins
  have hndata := h.ndata
  have hfloor := @mul_le_mul_ediv size remaining (l - q - if e.chNdata = 0 then 0 else 1) hsize
  have hl' : (w.length : Int) = size * l := by rw [hl]; push_cast; rfl
  have hq' : (t : Int) = size * q + e.chNdata := by rw [hq]; push_cast; rfl
  split_ifs at hfloor ⊢ with hzero
  · rw [Int.sub_zero, Int.mul_sub] at hfloor
    have := hfloor (by omega)
    omega
  · rw [Int.mul_sub, Int.mul_sub, Int.mul_one] at hfloor
    have := hfloor (by omega)
    omega

theorem rest_counts {e : Expander} {t k : Nat} {remaining : Int} (hsize : 0 < size)
    (hwhole : size ∣ w.length) (h : e.Inv size w t k) (hcounts : (w.length : Int) ≤ t + remaining) :
    8 * (w.length : Int) ≤ k + e.rest size remaining := by
  have hleft := channels_left hsize hwhole h hcounts
  have hcount := h.count
  have hndata := h.ndata
  have hpos := h.pos
  have hbit := h.bit
  unfold Expander.rest
  generalize (size : Int) * (remaining / size) = whole at hleft ⊢
  split_ifs at hleft ⊢ with hzero hinside
  · omega
  · omega
  · omega
  · have hfetch := h.fetch (by omega)
    omega

theorem rest_le {e : Expander} {t k : Nat} {remaining : Int} (hsize : 0 < size)
    (h : e.Inv size w t k) (hbound : remaining + t ≤ w.length + slack) :
    e.rest size remaining + k ≤ (8 * w.length : Nat) + (8 * slack + 8 * size : Nat) := by
  have hfloor : (size : Int) * (remaining / size) ≤ remaining := Int.mul_ediv_self_le (by omega)
  have hcount := h.count
  have hndata := h.ndata
  have hpos := h.pos
  have hbit := h.bit
  unfold Expander.rest
  generalize (size : Int) * (remaining / size) = whole at hfloor ⊢
  split_ifs with hinside
  · omega
  · have hfetch := h.fetch (by omega)
    omega

theorem expander_remaining {e : Expander} {s : σ} {t k : Nat}
    (hppl : psub.pixelsPerLine = 8 * size) (hnonneg : 0 ≤ psub.remaining s)
    (h : e.Inv size w t k) :
    Expander.remaining psub (e, s) = saneInt (e.rest size (psub.remaining s)) := by
  have hchannels : (psub.remaining s).tdiv size * psub.pixelsPerLine =
      8 * (size * (psub.remaining s / size)) := by
    rw [Int.tdiv_eq_ediv_of_nonneg hnonneg, hppl]
    push_cast
    ring
  unfold Expander.remaining Expander.rest
  simp only [h.chSize, hchannels]
  split_ifs with hinside
  · rw [hppl]
    push_cast
    rfl
  · rw [Int.add_zero]

/-- If the pixels of a line fill whole bytes, the expander gives the bytes made of all bits
    of what the source below it gives. -/
theorem expander_delivers (hsize : 0 < size) (hppl : psub.pixelsPerLine = 8 * size)
    (hwhole : size ∣ w.length)
    (hsub : Delivers psub.toPullSource SaneStatus.good w slack subFit subAt)
    (hfit : ∀ e, subFit e) (hcounts : Counts psub.toPullSource w subAt)
    (hsmall : 8 * w.length + (8 * slack + 8 * size) < 2 ^ 31) :
    Delivers (expanderSource psub).toPullSource SaneStatus.good (expandBytes w)
      (8 * slack + 8 * size) fit (Expander.At size w subAt) ∧
    Counts (expanderSource psub).toPullSource (expandBytes w) (Expander.At size w subAt) := by
  have hremaining : ∀ {s : Expander × σ} {k : Nat}, Expander.At size w subAt s k →
      8 * (w.length : Int) ≤ k + (expanderSource psub).remaining s ∧
      (expanderSource psub).remaining s + k ≤ (8 * w.length : Nat) + (8 * slack + 8 * size : Nat) ∧
      k ≤ 8 * w.length := by
    intro s k h
    obtain ⟨t, hat, hinv⟩ := h
    have hle := hsub.le hat
    have hc : (w.length : Int) ≤ t + psub.remaining s.2 := hcounts hat
    have hb : psub.remaining s.2 + t ≤ w.length + slack := hsub.remaining_le hat
    have hlow := rest_counts hsize hwhole hinv hc
    have hhigh := rest_le hsize hinv hb
    have hk : k ≤ 8 * w.length := by
      have := hinv.count
      have := hinv.pos
      have := hinv.fetch
      have := hinv.bit
      omega
    have heq : (expanderSource psub).remaining s = s.1.rest size (psub.remaining s.2) := by
      refine (expander_remaining hppl (by omega) hinv).trans (saneInt_of_lt ?_ ?_)
      · omega
      · omega
    rw [heq]
    exact ⟨hlow, hhigh, hk⟩
  have htransforms := @expander_transforms _ _ w slack size _ fit _ hsize hsub hfit
  refine ⟨⟨?_, ?_, ?_, ?_, ?_⟩, ?_⟩
  · intro s k h
    rw [length_expandBytes]
    exact (hremaining h).2.2
  · intro s k n xs s' h hend hget
    exact transformLoop_gives htransforms h hend hget
  · intro s k h hk
    rw [length_expandBytes] at hk
    have := (hremaining h).1
    omega
  · intro s k h _
    have := hremaining h
    omega
  · intro s k h
    rw [length_expandBytes]
    exact (hremaining h).2.1
  · intro s k h
    rw [length_expandBytes]
    have := (hremaining h).1
    push_cast
    omega

/-- Above a prompt source it gives all that it is asked for. -/
theorem expander_answers (hsize : 0 < size) (hwhole : size ∣ w.length)
    (hsub : Delivers psub.toPullSource SaneStatus.good w slack subFit subAt)
    (hanswers : Answers psub.toPullSource SaneStatus.good w subFit subAt prompt)
    (hfit : ∀ e, subFit e)
    (hdelivers : Delivers (expanderSource psub).toPullSource SaneStatus.good (expandBytes w)
      (8 * slack + 8 * size) fit (Expander.At size w subAt)) :
    Answers (expanderSource psub).toPullSource SaneStatus.good (expandBytes w) fit
      (Expander.At size w subAt) (fun s => prompt s.2) := by
  intro s k n h hprompt hn hle hend
  refine transformLoop_full (expander_transforms hsize hsub hfit) ⟨hdelivers.remaining_pos, ?_,
    ?_, fun h => h⟩ h hprompt le_rfl hle hend
  · intro s k h hprompt hk
    rw [length_expandBytes] at hk
    exact expander_refill_prompt hsize hwhole hanswers hfit h hprompt hk
  · intro s k n h hn
    exact List.cons_ne_nil _ _

theorem expander_init (hline : psub.bytesPerLine = 3 * size)
    (hppl : psub.pixelsPerLine = 8 * size) {s : σ} (h : subAt s 0) :
    Expander.At size w subAt (Expander.init psub, s) 0 := by
  have hch : psub.bytesPerLine / 3 = size := by omega
  have hlast : psub.pixelsPerLine % 8 = 0 := by omega
  refine ⟨0, h, ?_⟩
  unfold Expander.init
  simp only [hch, hlast, if_true]
  refine ⟨rfl, List.length_replicate, rfl, ?_, Nat.zero_le _, le_rfl, ⟨0, rfl⟩, le_rfl,
    fun _ => rfl, rfl, window_zero, rfl⟩
  split_ifs <;> rfl

end

end SaneBackends

import SaneBackends.Gt68xxDelay
import Mathlib.Data.List.GetD

/-!
# What the line readers of the GT68xx backend unpack

Samples of 8, 12 or 16 bits, in lines of one channel or of pixels of three, become lines of
samples of 16 bits.  Whatever the layout, each reader puts the samples of the three channels
into the lines at the write pointers, then takes columns from a later line if it is a double
one, and steps.
-/

namespace SaneBackends.Gt68xx

open CountLoops FaultState

/-! ### Samples -/

/-- A sample of 12 bits, scaled to 16. -/
def scaled12 (v : Nat) : Nat := v * 16 + v / 256

/-- The component `j` of the ones that lie behind byte `base`, scaled to 16 bits. -/
def component (depth : Nat) (raw : List SaneByte) (base j : Nat) : Nat :=
  let byte (i : Nat) : Nat := (raw.getD i 0).toNat
  if depth = 8 then byte (base + j) * 257
  else if depth = 12 then
    let at0 := base + 3 * (j / 2)
    if j % 2 = 0 then scaled12 (byte at0 + byte (at0 + 1) % 16 * 256)
    else scaled12 (byte (at0 + 1) / 16 + byte (at0 + 2) * 16)
  else byte (base + 2 * j) + byte (base + 2 * j + 1) * 256

namespace ScanParameters

/-- The channels in the order in which they come. -/
def channels (p : ScanParameters) : List Channel :=
  match p.order with
  | .rgb => [.r, .g, .b]
  | .bgr => [.b, .g, .r]

/-- The sample of channel `c` in column `i` of a raw line. -/
def sample (p : ScanParameters) (raw : List SaneByte) (c : Channel) (i : Nat) : Nat :=
  if p.lineMode then component p.depth raw (p.channels.idxOf c * p.scanBpl) i
  else component p.depth raw 0 (3 * i + p.channels.idxOf c)

end ScanParameters

theorem twice_eq (b : SaneByte) : twice b = b.toNat * 257 := by
  have hlt : b.toNat < 2 ^ 8 := b.isLt
  rw [twice, ← Nat.shiftLeft_add_eq_or_of_lt hlt, Nat.shiftLeft_eq]
  omega

theorem and_low : ∀ b : SaneByte, b.toNat &&& 0x0f = b.toNat % 16 := by decide +kernel

theorem and_high : ∀ b : SaneByte, b.toNat &&& 0xf0 = b.toNat / 16 * 16 := by decide +kernel

theorem low12_eq (b0 b1 : SaneByte) :
    low12 b0 b1 = scaled12 (b0.toNat + b1.toNat % 16 * 256) := by
  have hlt : b0.toNat < 2 ^ 8 := b0.isLt
  have hlow : b1.toNat % 16 < 2 ^ 4 := Nat.mod_lt _ (by decide)
  have hmid : b0.toNat <<< 4 + b1.toNat % 16 < 2 ^ 12 := by
    rw [Nat.shiftLeft_eq]
    omega
  rw [low12, and_low, Nat.or_assoc, ← Nat.shiftLeft_add_eq_or_of_lt hlow,
    ← Nat.shiftLeft_add_eq_or_of_lt hmid, Nat.shiftLeft_eq, Nat.shiftLeft_eq, scaled12]
  omega

theorem high12_eq (b1 b2 : SaneByte) :
    high12 b1 b2 = scaled12 (b1.toNat / 16 + b2.toNat * 16) := by
  have hlt1 : b1.toNat < 2 ^ 8 := b1.isLt
  have hlt2 : b2.toNat < 2 ^ 8 := b2.isLt
  have hlow : b2.toNat >>> 4 < 2 ^ 4 := by
    rw [Nat.shiftRight_eq_div_pow]
    omega
  have hmid : (b1.toNat / 16) <<< 4 + b2.toNat >>> 4 < 2 ^ 8 := by
    rw [Nat.shiftLeft_eq]
    omega
  rw [high12, and_high, Nat.or_assoc, show b1.toNat / 16 * 16 = (b1.toNat / 16) <<< 4 from
    (Nat.shiftLeft_eq _ 4).symm, ← Nat.shiftLeft_add_eq_or_of_lt hlow,
    ← Nat.shiftLeft_add_eq_or_of_lt hmid, Nat.shiftLeft_eq, Nat.shiftLeft_eq,
    Nat.shiftRight_eq_div_pow, scaled12]
  omega

theorem le16_eq (b0 b1 : SaneByte) : le16 b0 b1 = b0.toNat + b1.toNat * 256 := by
  have hlt : b0.toNat < 2 ^ 8 := b0.isLt
  rw [le16, ← Nat.shiftLeft_add_eq_or_of_lt hlt, Nat.shiftLeft_eq]
  omega

/-! ### Unpacking -/

/-- The first `n` cells of a line hold the values of `f`. -/
def Fills (row : List Nat) (f : Nat → Nat) (n : Nat) : Prop := ∀ i < n, row[i]? = some (f i)

section
variable {buf : List SaneByte} {src stride pixels n : Nat} {dst row : List Nat} {f : Nat → Nat}

theorem cellAt_getD {i : Nat} (h : i < buf.length) : cellAt buf i = .ok (buf.getD i 0) := by
  rw [cellAt_of_lt h, List.getD_eq_getElem?_getD, List.getElem?_eq_getElem h]
  rfl

/-- The next cell of a line is stored. -/
theorem Fills.setCell (h : Fills row f n) (hn : n < row.length) :
    ∃ row', setCell row n (f n) = .ok row' ∧ row'.length = row.length ∧
      Fills row' f (n + 1) := by
  refine ⟨row.set n (f n), setCell_of_lt hn, List.length_set, ?_⟩
  intro i hi
  rcases Nat.lt_succ_iff_lt_or_eq.mp hi with hold | rfl
  · rw [List.getElem?_set_ne (by omega)]
    exact h i hold
  · exact List.getElem?_set_self hn

theorem fills_zero : Fills row f 0 := fun i hi => absurd hi (Nat.not_lt_zero i)

theorem Fills.mono {m : Nat} (h : Fills row f n) (hm : m ≤ n) : Fills row f m :=
  fun i hi => h i (hi.trans_le hm)

/-- A loop that stores one cell in each turn. -/
theorem turns_fill {body : Nat → List Nat → Except Fault (List Nat)} (hdst : pixels ≤ dst.length)
    (hbody : ∀ i < pixels, ∀ dst, body i dst = setCell dst i (f i)) :
    ∃ row, turns body pixels dst = .ok row ∧ row.length = dst.length ∧ Fills row f pixels := by
  apply turns_ok (I := fun n row => row.length = dst.length ∧ Fills row f n) ⟨rfl, fills_zero⟩
  rintro i hi row ⟨hlen, hfills⟩
  obtain ⟨row', hset, hlen', hfills'⟩ := hfills.setCell (by omega)
  exact ⟨row', (hbody i hi row).trans hset, hlen'.trans hlen, hfills'⟩

theorem unpack8_fills (hbuf : ∀ i < pixels, src + stride * i < buf.length)
    (hdst : pixels ≤ dst.length) : ∃ row, unpack8 stride buf src pixels dst = .ok row ∧
      row.length = dst.length ∧
      Fills row (fun i => (buf.getD (src + stride * i) 0).toNat * 257) pixels := by
  apply turns_fill hdst
  intro i hi dst
  rw [cellAt_getD (hbuf i hi), ← twice_eq]
  rfl

theorem unpack16Le_fills (hbuf : ∀ i < pixels, src + stride * i + 1 < buf.length)
    (hdst : pixels ≤ dst.length) : ∃ row, unpack16Le stride buf src pixels dst = .ok row ∧
      row.length = dst.length ∧
      Fills row (fun i => (buf.getD (src + stride * i) 0).toNat +
        (buf.getD (src + stride * i + 1) 0).toNat * 256) pixels := by
  apply turns_fill hdst
  intro i hi dst
  have hlast := hbuf i hi
  rw [cellAt_getD (show src + stride * i < buf.length by omega), cellAt_getD hlast, ← le16_eq]
  rfl

theorem lowAt_eq (h : src + 1 < buf.length) :
    lowAt buf src =
      .ok (scaled12 ((buf.getD src 0).toNat + (buf.getD (src + 1) 0).toNat % 16 * 256)) := by
  rw [lowAt, cellAt_getD (show src < buf.length by omega), cellAt_getD h, ← low12_eq]
  rfl

theorem highAt_eq (h : src + 2 < buf.length) :
    highAt buf src =
      .ok (scaled12 ((buf.getD (src + 1) 0).toNat / 16 + (buf.getD (src + 2) 0).toNat * 16)) := by
  rw [highAt, cellAt_getD (show src + 1 < buf.length by omega), cellAt_getD h, ← high12_eq]
  rfl

/-- The two components in three bytes. -/
theorem lowAt_component {k : Nat} (h : src + 3 * k + 1 < buf.length) :
    lowAt buf (src + 3 * k) = .ok (component 12 buf src (2 * k)) := by
  have hdiv : 2 * k / 2 = k := by omega
  have heven : 2 * k % 2 = 0 := by omega
  rw [lowAt_eq h, component, if_neg (by decide), if_pos rfl, hdiv, if_pos heven]

theorem highAt_component {k : Nat} (h : src + 3 * k + 2 < buf.length) :
    highAt buf (src + 3 * k) = .ok (component 12 buf src (2 * k + 1)) := by
  have hdiv : (2 * k + 1) / 2 = k := by omega
  have hodd : ¬ (2 * k + 1) % 2 = 0 := by omega
  rw [highAt_eq h, component, if_neg (by decide), if_pos rfl, hdiv, if_neg hodd]

theorem unpack12LeMono_fills (hbuf : src + 3 * ((pixels + 1) / 2) ≤ buf.length)
    (hdst : 2 * ((pixels + 1) / 2) ≤ dst.length) :
    ∃ row, unpack12LeMono buf src pixels dst = .ok row ∧ row.length = dst.length ∧
      Fills row (component 12 buf src) pixels := by
  obtain ⟨row, hrun, hlen, hfills⟩ := turns_ok (n := (pixels + 1) / 2) (f := fun k dst => do
      let dst ← setCell dst (2 * k) (← lowAt buf (src + 3 * k))
      setCell dst (2 * k + 1) (← highAt buf (src + 3 * k)))
    (I := fun k row => row.length = dst.length ∧ Fills row (component 12 buf src) (2 * k))
    (s := dst) ⟨rfl, fills_zero⟩ (by
      rintro k hk row ⟨hlen, hfills⟩
      obtain ⟨line1, hset1, hlen1, hfills1⟩ := hfills.setCell (by omega)
      obtain ⟨line2, hset2, hlen2, hfills2⟩ := hfills1.setCell (by omega)
      refine ⟨line2, ?_, by omega, hfills2⟩
      rw [lowAt_component (by omega), highAt_component (by omega)]
      show (setCell row (2 * k) (component 12 buf src (2 * k)) >>= _) = _
      rw [hset1]
      exact hset2)
  exact ⟨row, hrun, hlen, hfills.mono (by omega)⟩

theorem unpack12LeRgb_fills {dst1 dst2 dst3 : List Nat}
    (hbuf : 9 * ((pixels + 1) / 2) ≤ buf.length) (h1 : 2 * ((pixels + 1) / 2) ≤ dst1.length)
    (h2 : dst2.length = dst1.length) (h3 : dst3.length = dst1.length) :
    ∃ line1 line2 line3,
      unpack12LeRgb buf 0 pixels (dst1, dst2, dst3) = .ok (line1, line2, line3) ∧
      (line1.length = dst1.length ∧ Fills line1 (fun i => component 12 buf 0 (3 * i)) pixels) ∧
      (line2.length = dst1.length ∧ Fills line2 (fun i => component 12 buf 0 (3 * i + 1)) pixels) ∧
      line3.length = dst1.length ∧
        Fills line3 (fun i => component 12 buf 0 (3 * i + 2)) pixels := by
  have hat : ∀ k, 2 * (3 * k) = 3 * (2 * k) ∧ 2 * (3 * k) + 1 = 3 * (2 * k) + 1 ∧
      2 * (3 * k + 1) = 3 * (2 * k) + 2 ∧ 2 * (3 * k + 1) + 1 = 3 * (2 * k + 1) ∧
      2 * (3 * k + 2) = 3 * (2 * k + 1) + 1 ∧ 2 * (3 * k + 2) + 1 = 3 * (2 * k + 1) + 2 := by
    omega
  let filled (k : Nat) (lines : List Nat × List Nat × List Nat) : Prop :=
    (lines.1.length = dst1.length ∧
      Fills lines.1 (fun i => component 12 buf 0 (3 * i)) (2 * k)) ∧
    (lines.2.1.length = dst1.length ∧
      Fills lines.2.1 (fun i => component 12 buf 0 (3 * i + 1)) (2 * k)) ∧
    lines.2.2.length = dst1.length ∧
      Fills lines.2.2 (fun i => component 12 buf 0 (3 * i + 2)) (2 * k)
  have hturns : ∃ lines, unpack12LeRgb buf 0 pixels (dst1, dst2, dst3) = .ok lines ∧
      filled ((pixels + 1) / 2) lines := by
    apply turns_ok (I := filled)
    · exact ⟨⟨rfl, fills_zero⟩, ⟨h2, fills_zero⟩, h3, fills_zero⟩
    · rintro k hk ⟨line1, line2, line3⟩ ⟨⟨hlen1, hfills1⟩, ⟨hlen2, hfills2⟩, hlen3, hfills3⟩
      dsimp only at hlen1 hlen2 hlen3 hfills1 hfills2 hfills3
      obtain ⟨a1, ha1, hla1, hfa1⟩ := hfills1.setCell (by omega)
      obtain ⟨a2, ha2, hla2, hfa2⟩ := hfills2.setCell (by omega)
      obtain ⟨a3, ha3, hla3, hfa3⟩ := hfills3.setCell (by omega)
      obtain ⟨b1, hb1, hlb1, hfb1⟩ := hfa1.setCell (by omega)
      obtain ⟨b2, hb2, hlb2, hfb2⟩ := hfa2.setCell (by omega)
      obtain ⟨b3, hb3, hlb3, hfb3⟩ := hfa3.setCell (by omega)
      have hlen : b1.length = dst1.length ∧ b2.length = dst1.length ∧ b3.length = dst1.length := by
        omega
      refine ⟨(b1, b2, b3), ?_, ⟨hlen.1, hfb1⟩, ⟨hlen.2.1, hfb2⟩, hlen.2.2, hfb3⟩
      obtain ⟨e1, e2, e3, e4, e5, e6⟩ := hat k
      have hl1 : lowAt buf (0 + 9 * k) = .ok (component 12 buf 0 (3 * (2 * k))) := by
        rw [show 0 + 9 * k = 0 + 3 * (3 * k) by omega, lowAt_component (by omega), e1]
      have hh1 : highAt buf (0 + 9 * k) = .ok (component 12 buf 0 (3 * (2 * k) + 1)) := by
        rw [show 0 + 9 * k = 0 + 3 * (3 * k) by omega, highAt_component (by omega), e2]
      have hl2 : lowAt buf (0 + 9 * k + 3) = .ok (component 12 buf 0 (3 * (2 * k) + 2)) := by
        rw [show 0 + 9 * k + 3 = 0 + 3 * (3 * k + 1) by omega, lowAt_component (by omega), e3]
      have hh2 : highAt buf (0 + 9 * k + 3) = .ok (component 12 buf 0 (3 * (2 * k + 1))) := by
        rw [show 0 + 9 * k + 3 = 0 + 3 * (3 * k + 1) by omega, highAt_component (by omega), e4]
      have hl3 : lowAt buf (0 + 9 * k + 6) = .ok (component 12 buf 0 (3 * (2 * k + 1) + 1)) := by
        rw [show 0 + 9 * k + 6 = 0 + 3 * (3 * k + 2) by omega, lowAt_component (by omega), e5]
      have hh3 : highAt buf (0 + 9 * k + 6) = .ok (component 12 buf 0 (3 * (2 * k + 1) + 2)) := by
        rw [show 0 + 9 * k + 6 = 0 + 3 * (3 * k + 2) by omega, highAt_component (by omega), e6]
      simp only [hl1, hh1, hl2, hh2, hl3, hh3]
      show (setCell line1 (2 * k) (component 12 buf 0 (3 * (2 * k))) >>= _) = _
      rw [ha1]
      show (setCell line2 (2 * k) (component 12 buf 0 (3 * (2 * k) + 1)) >>= _) = _
      rw [ha2]
      show (setCell line3 (2 * k) (component 12 buf 0 (3 * (2 * k) + 2)) >>= _) = _
      rw [ha3]
      show (setCell a1 (2 * k + 1) (component 12 buf 0 (3 * (2 * k + 1))) >>= _) = _
      rw [hb1]
      show (setCell a2 (2 * k + 1) (component 12 buf 0 (3 * (2 * k + 1) + 1)) >>= _) = _
      rw [hb2]
      show (setCell a3 (2 * k + 1) (component 12 buf 0 (3 * (2 * k + 1) + 2)) >>= _) = _
      rw [hb3]
      rfl
  obtain ⟨⟨line1, line2, line3⟩, hrun, ⟨hlen1, hfills1⟩, ⟨hlen2, hfills2⟩, hlen3, hfills3⟩ := hturns
  refine ⟨line1, line2, line3, hrun, ⟨hlen1, hfills1.mono ?_⟩, ⟨hlen2, hfills2.mono ?_⟩, hlen3,
    hfills3.mono ?_⟩
  · omega
  · omega
  · omega

end

/-! ### What the readers unpack -/

/-- A statement for each of some channels touches no other one. -/
theorem forChannels_ok {f : Channel → DelayBuffer → Except Fault DelayBuffer}
    {Q : Channel → DelayBuffer → Prop} {cs : List Channel} {delay : Delays} (hnodup : cs.Nodup)
    (hf : ∀ c ∈ cs, ∃ d, f c (delay c) = .ok d ∧ Q c d) (hother : ∀ c, c ∉ cs → Q c (delay c)) :
    ∃ delay', forChannels f cs delay = .ok delay' ∧ ∀ c, Q c (delay' c) := by
  induction cs generalizing delay with
  | nil => exact ⟨delay, rfl, fun c => hother c List.not_mem_nil⟩
  | cons c cs ih =>
    obtain ⟨hnot, hnodup⟩ := List.nodup_cons.mp hnodup
    obtain ⟨d, hd, hQ⟩ := hf c List.mem_cons_self
    have hkeep : ∀ c', c' ≠ c → Function.update delay c d c' = delay c' :=
      fun c' hne => Function.update_of_ne hne d delay
    obtain ⟨delay', hrun, hall⟩ := @ih (Function.update delay c d) hnodup
      (by
        intro c' hc'
        rw [hkeep c' (fun heq => hnot (heq ▸ hc'))]
        exact hf c' (List.mem_cons_of_mem c hc'))
      (by
        intro c' hc'
        by_cases heq : c' = c
        · rw [heq, Function.update_self]
          exact hQ
        · rw [hkeep c' heq]
          apply hother
          rw [List.mem_cons, not_or]
          exact ⟨heq, hc'⟩)
    refine ⟨delay', ?_, hall⟩
    rw [forChannels, hd]
    exact hrun

/-- Every line of the buffer has room for the pixels, and the slots exist. -/
structure Wide (width : Nat) (d : DelayBuffer) : Prop where
  count : d.lineCount = d.lines.length
  read : d.readIndex < d.lines.length
  write : d.writeIndex < d.lines.length
  wide : ∀ row ∈ d.lines, row.length = width

/-- The line at the write pointer has been filled. -/
def Written (width pixels : Nat) (f : Nat → Nat) (d d' : DelayBuffer) : Prop :=
  ∃ row, d' = d.setLine d.writeIndex row ∧ row.length = width ∧ Fills row f pixels

section
variable {width pixels src : Nat} {d : DelayBuffer} {raw : List SaneByte} {f : Nat → Nat}
  {unpack : Unpack} {p : ScanParameters}

theorem Wide.lineAt (h : Wide width d) {i : Nat} (hi : i < d.lines.length) :
    ∃ row, cellAt d.lines i = .ok row ∧ row.length = width := by
  rw [cellAt_of_lt hi]
  exact ⟨_, rfl, h.wide _ (List.getElem_mem hi)⟩

theorem unpackInto_written (h : Wide width d)
    (hunpack : ∀ dst : List Nat, dst.length = width → ∃ row, unpack raw src pixels dst = .ok row ∧
      row.length = dst.length ∧ Fills row f pixels) :
    ∃ d', unpackInto unpack raw src pixels d = .ok d' ∧ Written width pixels f d d' := by
  obtain ⟨dst, hdst, hwidth⟩ := h.lineAt h.write
  obtain ⟨row, hline, hlen, hfills⟩ := hunpack dst hwidth
  refine ⟨d.setLine d.writeIndex row, ?_, row, rfl, hlen.trans hwidth, hfills⟩
  rw [unpackInto, DelayBuffer.writeLine, hdst]
  show (unpack raw src pixels dst >>= _) = _
  rw [hline]
  rfl

namespace ScanParameters

/-- The depths that are supported. -/
def Supported (p : ScanParameters) : Prop := p.depth = 8 ∨ p.depth = 12 ∨ p.depth = 16

theorem channels_nodup (p : ScanParameters) : p.channels.Nodup := by
  unfold channels
  split <;> decide

theorem mem_channels (p : ScanParameters) (c : Channel) : c ∈ p.channels := by
  unfold channels
  split <;> cases c <;> decide

theorem idxOf_channels_lt (p : ScanParameters) (c : Channel) : p.channels.idxOf c < 3 := by
  have h := List.idxOf_lt_length_of_mem (p.mem_channels c)
  have hlen : p.channels.length = 3 := by
    unfold channels
    split <;> rfl
  omega

/-- The line in memory is not narrower than the image, and it has an even number of pixels. -/
theorem scanXs_spec (h : p.Supported) : p.pixelXs ≤ p.scanXs ∧ 32 ∣ p.scanXs := by
  have halign : 32 ∣ p.pixelAlign ∧ 0 < p.pixelAlign := by
    unfold pixelAlign
    rcases h with h | h | h <;> rw [h] <;> decide
  unfold scanXs
  split
  · rename_i hwhole
    exact ⟨le_rfl, halign.1.trans (Nat.dvd_of_mod_eq_zero hwhole)⟩
  · refine ⟨?_, halign.1.trans (Nat.dvd_mul_left _ _)⟩
    have hdiv := Nat.div_add_mod p.pixelXs p.pixelAlign
    have hmod := Nat.mod_lt p.pixelXs halign.2
    rw [Nat.succ_mul, Nat.mul_comm]
    omega

/-- What the reader of `p` does with a raw line before it returns lines. -/
structure Unpacks (p : ScanParameters) (unpack : List SaneByte → Delays → Except Fault Delays) :
    Prop where
  ok : ∀ {raw delay}, raw.length = p.rawSize → (∀ c, Wide p.scanXs (delay c)) →
    ∃ delay', unpack raw delay = .ok delay' ∧
      ∀ c, Written p.scanXs p.pixelXs (p.sample raw c) (delay c) (delay' c)

/-- The channels lie one behind the other. -/
theorem unpacks_lineMode (hmode : p.lineMode = true)
    (hunpack : ∀ {raw : List SaneByte} {c : Channel} {dst : List Nat},
      (p.channels.idxOf c + 1) * p.scanBpl ≤ raw.length → dst.length = p.scanXs →
      ∃ row, unpack raw (p.channels.idxOf c * p.scanBpl) p.pixelXs dst = .ok row ∧
        row.length = dst.length ∧
        Fills row (component p.depth raw (p.channels.idxOf c * p.scanBpl)) p.pixelXs) :
    p.Unpacks fun raw => unpackChannels unpack p.channels p.scanBpl p.pixelXs raw := by
  constructor
  intro raw delay hraw hwide
  apply forChannels_ok
      (Q := fun c d' => Written p.scanXs p.pixelXs (p.sample raw c) (delay c) d') p.channels_nodup
  · intro c _
    apply unpackInto_written (hwide c)
    intro dst hdst
    have hslot : (p.channels.idxOf c + 1) * p.scanBpl ≤ 3 * p.scanBpl :=
      Nat.mul_le_mul_right _ (p.idxOf_channels_lt c)
    rw [rawSize, if_pos hmode] at hraw
    obtain ⟨row, hline, hlen, hfills⟩ := @hunpack raw c dst (by omega) hdst
    refine ⟨row, hline, hlen, ?_⟩
    intro i hi
    rw [hfills i hi, sample, if_pos hmode]
  · intro c hc
    exact absurd (p.mem_channels c) hc

/-- The components of a pixel lie one behind the other. -/
theorem unpacks_pixelMode {size : Nat} (hmode : p.lineMode = false)
    (hunpack : ∀ {raw : List SaneByte} {c : Channel} {dst : List Nat},
      p.scanBpl ≤ raw.length → dst.length = p.scanXs →
      ∃ row, unpack raw (p.channels.idxOf c * size) p.pixelXs dst = .ok row ∧
        row.length = dst.length ∧
        Fills row (fun i => component p.depth raw 0 (3 * i + p.channels.idxOf c)) p.pixelXs) :
    p.Unpacks fun raw => unpackChannels unpack p.channels size p.pixelXs raw := by
  constructor
  intro raw delay hraw hwide
  apply forChannels_ok
      (Q := fun c d' => Written p.scanXs p.pixelXs (p.sample raw c) (delay c) d') p.channels_nodup
  · intro c _
    apply unpackInto_written (hwide c)
    intro dst hdst
    rw [rawSize, if_neg (by rw [hmode]; decide)] at hraw
    obtain ⟨row, hline, hlen, hfills⟩ := @hunpack raw c dst hraw.ge hdst
    refine ⟨row, hline, hlen, ?_⟩
    intro i hi
    rw [hfills i hi, sample, if_neg (by rw [hmode]; decide)]
  · intro c hc
    exact absurd (p.mem_channels c) hc

/-- The components of two pixels are unpacked at a time. -/
theorem unpacks_together {c1 c2 c3 : Channel} (hmode : p.lineMode = false) (hdepth : p.depth = 12)
    (hchannels : p.channels = [c1, c2, c3]) :
    p.Unpacks fun raw => unpackTogether c1 c2 c3 p.pixelXs raw := by
  constructor
  intro raw delay hraw hwide
  obtain ⟨hle, m, hm⟩ := p.scanXs_spec (.inr (.inl hdepth))
  have hsize : raw.length = 144 * m := by
    rw [hraw, rawSize, if_neg (by rw [hmode]; decide), scanBpl, if_neg (by rw [hmode]; decide),
      hdepth, hm]
    omega
  have hnodup := p.channels_nodup
  rw [hchannels] at hnodup
  have h12 : c1 ≠ c2 := by
    rintro rfl
    exact absurd hnodup (by simp)
  have h13 : c1 ≠ c3 := by
    rintro rfl
    exact absurd hnodup (by simp)
  have h23 : c2 ≠ c3 := by
    rintro rfl
    exact absurd hnodup (by simp)
  obtain ⟨dst1, hdst1, hlen1⟩ := (hwide c1).lineAt (hwide c1).write
  obtain ⟨dst2, hdst2, hlen2⟩ := (hwide c2).lineAt (hwide c2).write
  obtain ⟨dst3, hdst3, hlen3⟩ := (hwide c3).lineAt (hwide c3).write
  obtain ⟨line1, line2, line3, hrun, ⟨hl1, hf1⟩, ⟨hl2, hf2⟩, hl3, hf3⟩ :=
    @unpack12LeRgb_fills raw p.pixelXs dst1 dst2 dst3 (by omega) (by omega) (by omega) (by omega)
  let delay1 := Function.update delay c1 ((delay c1).setLine (delay c1).writeIndex line1)
  let delay2 := Function.update delay1 c2 ((delay1 c2).setLine (delay1 c2).writeIndex line2)
  have h2 : delay1 c2 = delay c2 := Function.update_of_ne h12.symm _ delay
  have h3 : delay2 c3 = delay c3 :=
    (Function.update_of_ne h23.symm _ delay1).trans (Function.update_of_ne h13.symm _ delay)
  refine ⟨Function.update delay2 c3 ((delay2 c3).setLine (delay2 c3).writeIndex line3), ?_, ?_⟩
  · unfold unpackTogether DelayBuffer.writeLine
    rw [hdst1, hdst2, hdst3]
    show (unpack12LeRgb raw 0 p.pixelXs (dst1, dst2, dst3) >>= _) = _
    rw [hrun]
    rfl
  · have hsample : ∀ {c' : Channel} {j i : Nat}, p.channels.idxOf c' = j →
        component 12 raw 0 (3 * i + j) = p.sample raw c' i := by
      intro c' j i hj
      rw [sample, if_neg (by rw [hmode]; decide), hdepth, hj]
    intro c'
    have hc' := p.mem_channels c'
    rw [hchannels] at hc'
    simp only [List.mem_cons, List.not_mem_nil, or_false] at hc'
    rcases hc' with rfl | rfl | rfl
    · refine ⟨line1, ?_, hl1.trans hlen1, ?_⟩
      · rw [Function.update_of_ne h13]
        exact (Function.update_of_ne h12 _ delay1).trans (Function.update_self c' _ delay)
      · intro i hi
        rw [hf1 i hi, ← @hsample c' 0 i (by rw [hchannels]; simp)]
        rfl
    · refine ⟨line2, ?_, hl2.trans hlen1, ?_⟩
      · rw [Function.update_of_ne h23]
        exact (Function.update_self c' _ delay1).trans (by rw [h2])
      · intro i hi
        rw [hf2 i hi, ← @hsample c' 1 i (by rw [hchannels]; simp [h12])]
    · refine ⟨line3, ?_, hl3.trans hlen1, ?_⟩
      · rw [Function.update_self, h3]
      · intro i hi
        rw [hf3 i hi, ← @hsample c' 2 i (by rw [hchannels]; simp [h13, h23])]

/-- The reader takes columns from a later line. -/
def doubles (p : ScanParameters) : Bool :=
  p.lineMode && decide (p.order = .rgb) && decide (0 < p.ldShiftDouble)

/-- The function that unpacks one channel in line mode. -/
def unpackMono (p : ScanParameters) : Unpack :=
  if p.depth = 8 then unpack8Mono else if p.depth = 12 then unpack12LeMono else unpack16LeMono

theorem read_lineMode (h : p.Supported) (hmode : p.lineMode = true) :
    p.read = some (lineReadLineMode p.unpackMono p.channels p.doubles) := by
  unfold read unpackMono channels doubles
  rw [if_pos hmode, hmode]
  by_cases hdouble : 0 < p.ldShiftDouble
  · rw [decide_eq_true hdouble]
    rcases h with h | h | h <;> rw [h] <;> cases p.order <;> simp only [gt_iff_lt, hdouble] <;> rfl
  · rw [decide_eq_false hdouble]
    rcases h with h | h | h <;> rw [h] <;> cases p.order <;> simp only [gt_iff_lt, hdouble] <;> rfl

theorem unpacks_mono (h : p.Supported) (hmode : p.lineMode = true) :
    p.Unpacks fun raw => unpackChannels p.unpackMono p.channels p.scanBpl p.pixelXs raw := by
  obtain ⟨hle, m, hm⟩ := p.scanXs_spec h
  apply unpacks_lineMode hmode
  intro raw c dst hraw hdst
  rw [Nat.succ_mul] at hraw
  generalize p.channels.idxOf c * p.scanBpl = base at hraw ⊢
  have hbpl : p.scanBpl = p.depth * p.scanXs / 8 := by rw [scanBpl, if_pos hmode]
  unfold unpackMono
  rcases h with h | h | h
  · rw [h, hm] at hbpl
    rw [h, if_pos rfl]
    obtain ⟨row, hline, hlen, hfills⟩ :=
      @unpack8_fills raw base 1 p.pixelXs dst (by intro i hi; omega) (by omega)
    refine ⟨row, hline, hlen, ?_⟩
    intro i hi
    refine (hfills i hi).trans ?_
    beta_reduce
    rw [Nat.one_mul]
    rfl
  · rw [h, hm] at hbpl
    rw [h, if_neg (by decide), if_pos rfl]
    exact unpack12LeMono_fills (by omega) (by omega)
  · rw [h, hm] at hbpl
    rw [h, if_neg (by decide), if_neg (by decide)]
    obtain ⟨row, hline, hlen, hfills⟩ :=
      @unpack16Le_fills raw base 2 p.pixelXs dst (by intro i hi; omega) (by omega)
    exact ⟨row, hline, hlen, hfills⟩

/-- What each reader does: it unpacks the raw line, takes columns from a later line if it is
    a double one, and steps. -/
theorem read_spec (h : p.Supported) : ∃ read unpack, p.read = some read ∧ p.Unpacks unpack ∧
    ∀ delay raw, read ⟨p, delay⟩ raw =
      (if p.lineMode then intValue (p.scanBpl * 3 : Nat) else .ok 0) >>= fun _ =>
        lineRead (unpack raw) p.doubles ⟨p, delay⟩ := by
  cases hmode : p.lineMode with
  | true =>
    refine ⟨_, _, read_lineMode h hmode, unpacks_mono h hmode, ?_⟩
    intro delay raw
    rw [if_pos rfl]
    rfl
  | false =>
    obtain ⟨hle, m, hm⟩ := p.scanXs_spec h
    have hdouble : p.doubles = false := by
      rw [doubles, hmode]
      rfl
    have hbpl : p.scanBpl = p.depth * p.scanXs * 3 / 8 := by
      rw [scanBpl, if_neg (by rw [hmode]; decide)]
    have hslot := fun c => p.idxOf_channels_lt c
    rw [hdouble]
    rcases h with h | h | h
    · have hread : p.read = some (lineReadPixelMode unpack8Rgb p.channels 1) := by
        unfold read channels
        rw [if_neg (by rw [hmode]; decide), if_pos h]
        cases p.order <;> rfl
      refine ⟨_, _, hread, unpacks_pixelMode hmode ?_, fun delay raw => rfl⟩
      intro raw c dst hraw hdst
      rw [h, hm] at hbpl
      have hc := hslot c
      obtain ⟨row, hline, hlen, hfills⟩ := @unpack8_fills raw (p.channels.idxOf c * 1) 3 p.pixelXs
        dst (by intro i hi; omega) (by omega)
      refine ⟨row, hline, hlen, ?_⟩
      intro i hi
      refine (hfills i hi).trans ?_
      beta_reduce
      rw [h, component, if_pos rfl, Nat.mul_one, Nat.zero_add, Nat.add_comm]
    · have hread : ∃ c1 c2 c3, p.channels = [c1, c2, c3] ∧ p.read = some fun reader raw =>
          lineRead (unpackTogether c1 c2 c3 reader.params.pixelXs raw) false reader := by
        unfold read channels
        rw [if_neg (by rw [hmode]; decide), if_neg (by omega), if_pos h]
        cases p.order with
        | rgb => exact ⟨.r, .g, .b, rfl, rfl⟩
        | bgr => exact ⟨.b, .g, .r, rfl, rfl⟩
      obtain ⟨c1, c2, c3, hchannels, hread⟩ := hread
      exact ⟨_, _, hread, unpacks_together hmode h hchannels, fun delay raw => rfl⟩
    · have hread : p.read = some (lineReadPixelMode unpack16LeRgb p.channels 2) := by
        unfold read channels
        rw [if_neg (by rw [hmode]; decide), if_neg (by omega), if_neg (by omega), if_pos h]
        cases p.order <;> rfl
      refine ⟨_, _, hread, unpacks_pixelMode hmode ?_, fun delay raw => rfl⟩
      intro raw c dst hraw hdst
      rw [h, hm] at hbpl
      have hc := hslot c
      obtain ⟨row, hline, hlen, hfills⟩ := @unpack16Le_fills raw (p.channels.idxOf c * 2) 6
        p.pixelXs dst (by intro i hi; omega) (by omega)
      refine ⟨row, hline, hlen, ?_⟩
      intro i hi
      have hat : p.channels.idxOf c * 2 + 6 * i = 0 + 2 * (3 * i + p.channels.idxOf c) := by
        omega
      refine (hfills i hi).trans ?_
      beta_reduce
      rw [h, component, if_neg (by decide), if_neg (by decide), hat]

end ScanParameters

end

end SaneBackends.Gt68xx

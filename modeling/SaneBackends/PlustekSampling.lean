import SaneBackends.PlustekProcs

/-!
# Plustek-USB: which source pixels a line is made of

Output pixel `p` of a scaled line is made of the source pixel `p * izoom / 1000`, and of a copied
line of source pixel `p`.  The averaging functions stay in the buffer where the line does.
-/

namespace SaneBackends.PlustekLine

open FaultState CountLoops LineWalk

variable {host : Host} {scan : ScanDef} {buf buf' : ScanBuf} {user : UserLine}

/-! ### The zoom -/

/-- `izoom` is not greater than the ratio of the resolutions. -/
theorem usbGetScaler_mul_le (scan : ScanDef) :
    usbGetScaler scan * scan.userDpi ≤ scaler * scan.phyDpi := by
  refine DoubleRounding.scaledReciprocal_mul_le scan.userDpi_pos scan.phyDpi_pos (by decide) ?_
  have hlt := scan.phyDpi_lt
  rw [scaler]
  omega

theorem usbGetScaler_eq (h : scan.userDpi = scan.phyDpi) : usbGetScaler scan = scaler := by
  rw [usbGetScaler, ← h]
  exact DoubleRounding.scaledReciprocal_self scan.userDpi_pos (by decide) (by decide)

/-- The source pixels are pixels of the physical line. -/
theorem source_lt (h : scan.dwPixels * scan.phyDpi ≤ scan.dwPhyPixels * scan.userDpi) {p : Nat}
    (hp : p < scan.dwPixels) : p * usbGetScaler scan / scaler < scan.dwPhyPixels := by
  have hu := scan.userDpi_pos
  have hzoom := usbGetScaler_mul_le scan
  rw [Nat.div_lt_iff_lt_mul (by decide)]
  refine Nat.lt_of_mul_lt_mul_right (a := scan.userDpi) ?_
  calc p * usbGetScaler scan * scan.userDpi
      = p * (usbGetScaler scan * scan.userDpi) := Nat.mul_assoc _ _ _
    _ ≤ p * (scaler * scan.phyDpi) := Nat.mul_le_mul_left p hzoom
    _ < scan.dwPixels * (scaler * scan.phyDpi) :=
        Nat.mul_lt_mul_of_pos_right hp (Nat.mul_pos (by decide) scan.phyDpi_pos)
    _ = scan.dwPixels * scan.phyDpi * scaler := by
        rw [Nat.mul_comm scaler, Nat.mul_assoc]
    _ ≤ scan.dwPhyPixels * scan.userDpi * scaler := Nat.mul_le_mul_right scaler h
    _ = scan.dwPhyPixels * scaler * scan.userDpi := by
        rw [Nat.mul_assoc, Nat.mul_comm scan.userDpi, Nat.mul_assoc]

/-! ### The loops -/

section Loops

variable {κ : Type} {px : Nat → UserPixel} {kp : Nat → κ}

/-- The scaling loop takes output pixel `p` from source pixel `p * izoom / 1000`. -/
theorem scaleKeeping_eq {pixel : κ → Nat → Nat → Except Fault UserPixel}
    {keep : Nat → Except Fault κ} {m : Nat}
    (hin : ∀ p < scan.dwPixels, p * usbGetScaler scan / scaler < m)
    (hpixel : ∀ q < m, ∀ dw, pixel (kp q) q dw = .ok (px q))
    (hkeep : ∀ q < m, keep q = .ok (kp (q + 1))) (huser : user.length = scan.dwPixels) :
    scaleKeeping scan (kp 0) pixel keep user
      = .ok (walked scan.backwards scan.dwPixels fun p => px (p * usbGetScaler scan / scaler)) := by
  obtain ⟨b, s, hrun, -, hs⟩ := @Dda.scale_ok _ Fault scaler (usbGetScaler scan) scan.dwPixels
    (fun bitsput dw (s : κ × Int × UserLine) => do
      return (s.1, ← put scan.backwards (← pixel s.1 bitsput dw) s.2))
    (fun bitsput s => do return (← keep bitsput, s.2)) .outOfBounds
    (fun b p s => s.1 = kp b ∧ Written scan.backwards scan.dwPixels
      (fun p => px (p * usbGetScaler scan / scaler)) p s.2)
    (by decide)
    (by
      rintro p hp ⟨k, w⟩ ⟨rfl, hw⟩
      obtain ⟨w', hput, hw'⟩ := hw.put hp
      refine ⟨(_, w'), ?_, rfl, hw'⟩
      simp only [hpixel _ (hin p hp), ok_bind, hput]
      rfl)
    (by
      rintro p hp b hb p' ⟨k, w⟩ ⟨rfl, hw⟩
      refine ⟨(_, w), ?_, rfl, hw⟩
      simp only [hkeep b (Nat.lt_of_le_of_lt hb (hin p hp)), ok_bind]
      rfl)
    _ (Nat.lt_succ_self _) (kp 0, LineWalk.start scan.backwards scan.dwPixels, user)
    ⟨rfl, Written.init huser⟩
  rw [scaleKeeping]
  simp only [hrun, ok_bind]
  rw [hs.all]
  rfl

theorem scaleLine_eq {pixel : Nat → Nat → Except Fault UserPixel} {m : Nat}
    (hin : ∀ p < scan.dwPixels, p * usbGetScaler scan / scaler < m)
    (hpixel : ∀ q < m, ∀ dw, pixel q dw = .ok (px q)) (huser : user.length = scan.dwPixels) :
    scaleLine scan pixel user
      = .ok (walked scan.backwards scan.dwPixels fun p => px (p * usbGetScaler scan / scaler)) :=
  @scaleKeeping_eq scan user Unit px (fun _ => ()) (fun _ => pixel) (fun _ => .ok ()) m hin hpixel
    (fun _ _ => rfl) huser

theorem copyKeeping_eq {pixel : κ → Nat → Except Fault UserPixel} {keep : Nat → Except Fault κ}
    (hpixel : ∀ q < scan.dwPixels, pixel (kp q) q = .ok (px q))
    (hkeep : ∀ q < scan.dwPixels, keep q = .ok (kp (q + 1)))
    (huser : user.length = scan.dwPixels) :
    copyKeeping scan (kp 0) pixel keep user = .ok (walked scan.backwards scan.dwPixels px) := by
  obtain ⟨s, hrun, -, hs⟩ := turns_ok (n := scan.dwPixels)
    (f := fun dw (s : κ × Int × UserLine) => do
      let s' ← put scan.backwards (← pixel s.1 dw) s.2
      return (← keep dw, s'))
    (I := fun p s => s.1 = kp p ∧ Written scan.backwards scan.dwPixels px p s.2)
    (s := (kp 0, LineWalk.start scan.backwards scan.dwPixels, user)) ⟨rfl, Written.init huser⟩
    (by
      rintro p hp ⟨k, w⟩ ⟨rfl, hw⟩
      obtain ⟨w', hput, hw'⟩ := hw.put hp
      refine ⟨(_, w'), ?_, rfl, hw'⟩
      simp only [hpixel p hp, ok_bind, hput, hkeep p hp]
      rfl)
  rw [copyKeeping]
  simp only [hrun, ok_bind]
  rw [hs.all]
  rfl

theorem copyLine_eq {pixel : Nat → Except Fault UserPixel}
    (hpixel : ∀ q < scan.dwPixels, pixel q = .ok (px q)) (huser : user.length = scan.dwPixels) :
    copyLine scan pixel user = .ok (walked scan.backwards scan.dwPixels px) :=
  @copyKeeping_eq scan user Unit px (fun _ => ()) (fun _ => pixel) (fun _ => .ok ()) hpixel
    (fun _ _ => rfl) huser

end Loops

/-! ### Samples of the buffer -/

/-- Byte `o` of the buffer. -/
def byteOf (buf : ScanBuf) (o : Nat) : Nat := (buf.getD o 0).toNat

/-- The word at byte `o`, the high byte first. -/
def wordOf (buf : ScanBuf) (o : Nat) : Nat := byteOf buf o * 256 + byteOf buf (o + 1)

theorem cellAt_toNat {o : Nat} (h : o < buf.length) :
    ∃ v, cellAt buf o = .ok v ∧ v.toNat = byteOf buf o := by
  refine ⟨buf[o], cellAt_of_lt h, ?_⟩
  rw [byteOf, List.getD_eq_getElem?_getD, List.getElem?_eq_getElem h, Option.getD_some]

theorem byteAt_eq {o : Nat} (h : o < buf.length) : byteAt buf o = .ok (byteOf buf o) := by
  obtain ⟨v, hv, hval⟩ := cellAt_toNat h
  rw [byteAt, hv, ok_bind, hval]
  rfl

theorem hiLoWord_eq {o : Nat} (h : o + 1 < buf.length) : hiLoWord buf o = .ok (wordOf buf o) := by
  obtain ⟨v, hv, hval⟩ := cellAt_toNat (Nat.lt_of_succ_lt h)
  obtain ⟨w, hw, hval'⟩ := cellAt_toNat h
  rw [hiLoWord, hv, ok_bind, hw, ok_bind, hval, hval']
  rfl

theorem loHiWord_eq {o : Nat} (h : o + 1 < buf.length) :
    loHiWord buf o = .ok (byteOf buf (o + 1) * 256 + byteOf buf o) := by
  obtain ⟨v, hv, hval⟩ := cellAt_toNat (Nat.lt_of_succ_lt h)
  obtain ⟨w, hw, hval'⟩ := cellAt_toNat h
  rw [loHiWord, hw, ok_bind, hv, ok_bind, hval, hval']
  rfl

theorem hostWord_ok {o : Nat} (h : o + 1 < buf.length) : ∃ v, hostWord host buf o = .ok v := by
  rw [hostWord]
  split
  · exact ⟨_, loHiWord_eq h⟩
  · exact ⟨_, hiLoWord_eq h⟩

/-! ### Averaging in the buffer -/

/-- A step that keeps the length of the buffer. -/
theorem foldlM_length {f : ScanBuf → Nat → Except Fault ScanBuf} {l : List Nat} {n : Nat}
    (hf : ∀ x ∈ l, ∀ buf : ScanBuf, buf.length = n → ∃ buf', f buf x = .ok buf' ∧ buf'.length = n)
    (hbuf : buf.length = n) : ∃ buf', l.foldlM f buf = .ok buf' ∧ buf'.length = n := by
  induction l generalizing buf with
  | nil => exact ⟨buf, rfl, hbuf⟩
  | cons x l ih =>
    obtain ⟨t, hx, ht⟩ := hf x List.mem_cons_self buf hbuf
    obtain ⟨buf', hrun, hbuf'⟩ := ih (fun y hy => hf y (List.mem_cons_of_mem x hy)) ht
    refine ⟨buf', ?_, hbuf'⟩
    rw [List.foldlM_cons, hx, ok_bind, hrun]

theorem setCell_length {o n : Nat} (v : SaneByte) (h : o < n) (hbuf : buf.length = n) :
    ∃ buf', setCell buf o v = .ok buf' ∧ buf'.length = n := by
  refine ⟨_, setCell_of_lt (hbuf ▸ h), ?_⟩
  rw [List.length_set]
  exact hbuf

theorem storeHostWord_length {o n : Nat} (v : Nat) (h : o + 1 < n) (hbuf : buf.length = n) :
    ∃ buf', storeHostWord host buf o v = .ok buf' ∧ buf'.length = n := by
  obtain ⟨t, ht, hlen⟩ := setCell_length
    (if host.swap then BitVec.ofNat 8 v else BitVec.ofNat 8 (v / 256)) (Nat.lt_of_succ_lt h) hbuf
  obtain ⟨buf', hbuf', hlen'⟩ := setCell_length
    (if host.swap then BitVec.ofNat 8 (v / 256) else BitVec.ofNat 8 v) h hlen
  refine ⟨buf', ?_, hlen'⟩
  rw [storeHostWord]
  simp only [ht, ok_bind]
  exact hbuf'

variable {stride n : Nat} {starts : List Nat}

theorem averageBytes_ok (h : ∀ x ∈ starts, x + stride * (n - 1) < buf.length) :
    ∃ buf', averageBytes stride starts n buf = .ok buf' ∧ buf'.length = buf.length := by
  refine turns_ok (I := fun _ t => List.length t = buf.length) rfl fun dw hdw t ht => ?_
  refine foldlM_length (fun x hx t ht => ?_) ht
  have hle : stride * (dw + 1) ≤ stride * (n - 1) := Nat.mul_le_mul_left stride hdw
  have hlt : stride * dw ≤ stride * (dw + 1) := Nat.mul_le_mul_left stride (Nat.le_succ dw)
  have hx := h x hx
  rw [byteAt_eq (by omega), ok_bind, byteAt_eq (by omega), ok_bind]
  exact setCell_length _ (by omega) ht

theorem shiftRight_length {o k : Nat} (h : o + 1 < k) (hbuf : buf.length = k) :
    ∃ buf', shiftRight host buf o = .ok buf' ∧ buf'.length = k := by
  rw [shiftRight, hiLoWord_eq (hbuf ▸ h), ok_bind]
  exact storeHostWord_length _ h hbuf

theorem shiftLeft_length {o k : Nat} (h : o + 1 < k) (hbuf : buf.length = k) :
    ∃ buf', shiftLeft host buf o = .ok buf' ∧ buf'.length = k := by
  rw [shiftLeft, hiLoWord_eq (hbuf ▸ h), ok_bind]
  exact storeHostWord_length _ h hbuf

theorem meanWord_length {x y k : Nat} (hx : x + 1 < k) (hy : y + 1 < k) (hbuf : buf.length = k) :
    ∃ buf', meanWord host buf x y = .ok buf' ∧ buf'.length = k := by
  obtain ⟨a, ha⟩ := @hostWord_ok host buf x (hbuf ▸ hx)
  obtain ⟨b, hb⟩ := @hostWord_ok host buf y (hbuf ▸ hy)
  rw [meanWord, ha, ok_bind, hb, ok_bind]
  exact storeHostWord_length _ hx hbuf

theorem averageWords_ok (h : ∀ x ∈ starts, x + stride * (n - 1) + 1 < buf.length) :
    ∃ buf', averageWords host stride starts n buf = .ok buf' ∧ buf'.length = buf.length := by
  obtain ⟨t, ht, hlen⟩ := foldlM_length (f := fun t x => shiftRight host t x) (l := starts)
    (fun x hx t ht => shiftRight_length (by have := h x hx; omega) ht) (rfl : buf.length = _)
  obtain ⟨u, hu, hulen⟩ := turns_ok (n := n - 1)
    (f := fun dw t => do
      let t ← starts.foldlM (fun t x => shiftRight host t (x + stride * (dw + 1))) t
      let t ← starts.foldlM
        (fun t x => meanWord host t (x + stride * dw) (x + stride * (dw + 1))) t
      starts.foldlM (fun t x => shiftLeft host t (x + stride * dw)) t)
    (I := fun _ t => List.length t = buf.length) hlen
    (by
      intro dw hdw t ht
      have hle : stride * (dw + 1) ≤ stride * (n - 1) := Nat.mul_le_mul_left stride hdw
      have hlt : stride * dw ≤ stride * (dw + 1) := Nat.mul_le_mul_left stride (Nat.le_succ dw)
      obtain ⟨t₁, h₁, hlen₁⟩ := foldlM_length
        (f := fun t x => shiftRight host t (x + stride * (dw + 1))) (l := starts)
        (fun x hx t ht => shiftRight_length (by have := h x hx; omega) ht) ht
      obtain ⟨t₂, h₂, hlen₂⟩ := foldlM_length
        (f := fun t x => meanWord host t (x + stride * dw) (x + stride * (dw + 1))) (l := starts)
        (fun x hx t ht => meanWord_length (by have := h x hx; omega) (by have := h x hx; omega) ht)
        hlen₁
      obtain ⟨t₃, h₃, hlen₃⟩ := foldlM_length
        (f := fun t x => shiftLeft host t (x + stride * dw)) (l := starts)
        (fun x hx t ht => shiftLeft_length (by have := h x hx; omega) ht) hlen₂
      refine ⟨t₃, ?_, hlen₃⟩
      rw [h₁, ok_bind, h₂, ok_bind, h₃])
  obtain ⟨v, hv, hvlen⟩ := foldlM_length
    (f := fun t x => shiftLeft host t (x + stride * (n - 1))) (l := starts)
    (fun x hx t ht => shiftLeft_length (by have := h x hx; omega) ht) hulen
  refine ⟨v, ?_, hvlen⟩
  rw [averageWords, ht, ok_bind, hu, ok_bind, hv]

end SaneBackends.PlustekLine

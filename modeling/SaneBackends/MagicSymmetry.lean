import SaneBackends.MagicTrans

/-!
# Transitions of mirrored and transposed images

The scans from two opposite ends of an image should give the same as scans of the mirrored
image, and those of columns the same as those of the lines of the transposed image.  The scan
from the right fills its windows with the leftmost pixel, which spoils the threshold, and the
scans of columns take the lines of a black and white image to follow each other without a gap,
which they do only if the width is a multiple of eight.  Both stop at images whose indices are no
`int`s.
-/

namespace SaneBackends.Magic

open EdgeScan CountLoops FaultState

/-! ### Views of an image -/

/-- The pixels of `img'` are those of `img`, at other places. -/
structure IsView (img img' : Image) (w h : Nat) (point : Nat → Nat → Nat × Nat) : Prop where
  format_eq : img'.params.format = img.params.format
  depth_eq : img'.params.depth = img.params.depth
  width_eq : img'.params.pixelsPerLine = w
  height_eq : img'.params.lines = h
  tight : img'.Tight
  pixel_eq : ∀ x < w, ∀ y < h, img'.params.pixel img'.buffer x y
    = img.params.pixel img.buffer (point x y).1 (point x y).2

/-- The image mirrored left to right. -/
def IsMirroredX (img img' : Image) : Prop :=
  IsView img img' img.params.pixelsPerLine img.params.lines
    fun x y => (img.params.pixelsPerLine - 1 - x, y)

/-- The image mirrored top to bottom. -/
def IsMirroredY (img img' : Image) : Prop :=
  IsView img img' img.params.pixelsPerLine img.params.lines
    fun x y => (x, img.params.lines - 1 - y)

def IsTransposed (img img' : Image) : Prop :=
  IsView img img' img.params.lines img.params.pixelsPerLine fun x y => (y, x)

/-- The three symmetries of the scans. -/
def SymmetricScans (img mirroredX mirroredY transposed : Image) : Prop :=
  (∀ dpi, ∃ l, saneiMagicGetTransX mirroredX.params dpi mirroredX.buffer true = .ok (some l) ∧
    saneiMagicGetTransX img.params dpi img.buffer false
      = .ok (some (l.map fun x => (img.params.pixelsPerLine : Int) - 1 - x))) ∧
  (∀ dpi, ∃ l, saneiMagicGetTransY mirroredY.params dpi mirroredY.buffer true = .ok (some l) ∧
    saneiMagicGetTransY img.params dpi img.buffer false
      = .ok (some (l.map fun y => (img.params.lines : Int) - 1 - y))) ∧
  (∀ dpi, ∃ l, saneiMagicGetTransY transposed.params dpi transposed.buffer true = .ok (some l) ∧
    saneiMagicGetTransX img.params dpi img.buffer true = .ok (some l))

/-- There are pixels, unless there are no lines at all, and no index overflows.  For colour and gray
    images: along every line, from the right, the test with the threshold that the leftmost pixel
    gives differs from the one with that of the rightmost pixel only behind a change that both
    see.  For black and white images: along every column the bits that are read differ from the
    first one where the pixels do, up to a change that both see. -/
structure ScansAgree (img mirroredY transposed : Image) : Prop where
  nonempty : img.params.pixelsPerLine = 0 ↔ img.params.lines = 0
  fits : ScanFits img.params
  sampled : img.params.Sampled → ∀ y < img.params.lines,
    AgreeToFirst
      (changesAt img.params.samples
        (fun t => img.brightnessAt (img.params.pixelsPerLine - 1 - t) y)
        (winLen * (img.brightnessAt 0 y
          - img.brightnessAt (img.params.pixelsPerLine - 1) y)))
      (changesAt img.params.samples
        (fun t => img.brightnessAt (img.params.pixelsPerLine - 1 - t) y) 0)
      1 (img.params.pixelsPerLine - 1)
  upwards : img.params.Lineart → ∀ x < img.params.pixelsPerLine,
    AgreeToFirst
      (fun t => img.columnBit x (img.params.lines - 1 - t)
        != img.columnBit x (img.params.lines - 1))
      (fun t => mirroredY.columnBit x t != mirroredY.columnBit x 0) 1 (img.params.lines - 1)
  downwards : img.params.Lineart → ∀ y < img.params.lines,
    AgreeToFirst
      (fun t => pixelBit img.params.bytesPerLine img.buffer t y
        != pixelBit img.params.bytesPerLine img.buffer 0 y)
      (fun t => transposed.columnBit y t != transposed.columnBit y 0)
      1 (img.params.pixelsPerLine - 1)

/-! ### Views have the same brightnesses -/

theorem IsView.samples_eq {img img' : Image} {w h : Nat} {point : Nat → Nat → Nat × Nat}
    (hv : IsView img img' w h point) : img'.params.samples = img.params.samples := by
  rw [Params.samples, Params.samples, hv.format_eq]

theorem IsView.lineart_iff {img img' : Image} {w h : Nat} {point : Nat → Nat → Nat × Nat}
    (hv : IsView img img' w h point) : img'.params.Lineart ↔ img.params.Lineart := by
  rw [Params.Lineart, Params.Lineart, hv.format_eq, hv.depth_eq]

theorem IsView.sampled_iff {img img' : Image} {w h : Nat} {point : Nat → Nat → Nat × Nat}
    (hv : IsView img img' w h point) : img'.params.Sampled ↔ img.params.Sampled := by
  rw [Params.Sampled, Params.Sampled, hv.format_eq, hv.depth_eq]

/-- A view of the same size, perhaps on its side. -/
theorem ScanFits.view {img img' : Image} {w h : Nat} {point : Nat → Nat → Nat × Nat}
    (hfits : ScanFits img.params) (hv : IsView img img' w h point)
    (hsize : w = img.params.pixelsPerLine ∧ h = img.params.lines ∨
      w = img.params.lines ∧ h = img.params.pixelsPerLine) : ScanFits img'.params := by
  obtain ⟨hindex, hbehind⟩ := hfits
  refine ⟨?_, ?_⟩
  · rw [hv.width_eq, hv.height_eq, hv.samples_eq]
    rcases hsize with ⟨rfl, rfl⟩ | ⟨rfl, rfl⟩
    · exact hindex
    · rwa [Nat.mul_comm img.params.lines]
  · intro hs
    have := hbehind (hv.sampled_iff.mp hs)
    rw [hv.width_eq, hv.height_eq]
    omega

theorem Image.brightnessAt_eq {img : Image} (hs : img.params.Sampled) (x y : Nat) :
    img.brightnessAt x y
      = ((img.params.pixel img.buffer x y).map fun n : Nat => (n : Int)).sum := by
  rw [Params.pixel, if_neg hs.not_lineart, List.map_map]
  rfl

theorem IsView.brightness_eq {img img' : Image} {w h : Nat} {point : Nat → Nat → Nat × Nat}
    (hv : IsView img img' w h point) (hs : img.params.Sampled) {x y : Nat} (hx : x < w)
    (hy : y < h) : img'.brightnessAt x y = img.brightnessAt (point x y).1 (point x y).2 := by
  rw [Image.brightnessAt_eq (hv.sampled_iff.mpr hs), Image.brightnessAt_eq hs,
    hv.pixel_eq x hx y hy]

theorem IsView.bit_eq {img img' : Image} {w h : Nat} {point : Nat → Nat → Nat × Nat}
    (hv : IsView img img' w h point) (hl : img.params.Lineart) {x y : Nat} (hx : x < w)
    (hy : y < h) :
    pixelBit img'.params.bytesPerLine img'.buffer x y
      = pixelBit img.params.bytesPerLine img.buffer (point x y).1 (point x y).2 := by
  have hpixel := hv.pixel_eq x hx y hy
  rw [Params.pixel, if_pos (hv.lineart_iff.mpr hl), Params.pixel, if_pos hl] at hpixel
  exact bit_of_singleton hpixel

/-! ### Empty images -/

theorem byteAt_nil (idx : Int) : byteAt [] idx = .error .outOfBounds := by
  unfold byteAt intValue
  split_ifs
  · rw [ok_bind]
    split_ifs
    · rfl
    · exact cellAt_of_ge (Nat.zero_le _)
  · rfl

theorem sampleAt_nil (idx : Int) : sampleAt [] idx = .error .outOfBounds := by
  rw [sampleAt, byteAt_nil]
  rfl

theorem bitAt_nil (idx n : Int) : bitAt [] idx n = .error .outOfBounds := by
  rw [bitAt, byteAt_nil]
  rfl

theorem columnBit_nil (idx n : Int) :
    (do bitAt [] ((← intValue idx).tdiv 8) n) = .error Fault.outOfBounds := by
  unfold intValue
  split_ifs
  · exact bitAt_nil _ _
  · rfl

/-- The first line is not there. -/
theorem mapM_error {ε α : Type} {g : Nat → Except ε α} {e : ε} {n : Nat} (hn : 0 < n)
    (h : g 0 = .error e) : (List.range n).mapM g = .error e := by
  obtain ⟨n, rfl⟩ := Nat.exists_eq_succ_of_ne_zero hn.ne'
  rw [List.range_succ_eq_map, List.mapM_cons, h]
  rfl

theorem transitions_fault {p : Params} {dpi : Int} {count size fuel : Nat} {fromStart : Bool}
    {load : Nat → Nat → Except Fault Int} {read : Nat → Int → Nat → Except Fault Int}
    {readBit : Nat → Int → Except Fault Bool} {e : Fault} (hp : p.Sampled ∨ p.Lineart)
    (hcount : 0 < count) (hload : ∀ k, load 0 k = .error e) (hbit : ∀ j, readBit 0 j = .error e) :
    transitions p dpi count size fromStart fuel load read readBit = .error e := by
  have hfill : fillWindow (load 0) p.samples = .error e := by
    unfold fillWindow
    exact turns_error p.samples_pos (by rw [hload]; rfl)
  rcases hp with hs | hl
  · rw [transitions, if_pos hs, mapM_error hcount (by rw [hfill]; rfl)]
    rfl
  · rw [transitions, if_neg hl.not_sampled, if_pos hl, mapM_error hcount (by rw [hbit]; rfl)]
    rfl

/-- An image without columns but with lines is not scanned. -/
theorem Image.getTransX_fault {img : Image} {dpi : Int} {fromStart : Bool}
    (hbuffer : img.buffer = []) (hlines : 0 < img.params.lines) :
    saneiMagicGetTransX img.params dpi img.buffer fromStart = .error .outOfBounds := by
  rw [saneiMagicGetTransX, hbuffer]
  exact transitions_fault img.supported hlines (fun _ => sampleAt_nil _) (fun _ => bitAt_nil _ _)

theorem Image.getTransY_fault {img : Image} {dpi : Int} {fromStart : Bool}
    (hbuffer : img.buffer = []) (hwidth : 0 < img.params.pixelsPerLine) :
    saneiMagicGetTransY img.params dpi img.buffer fromStart = .error .outOfBounds := by
  rw [saneiMagicGetTransY, hbuffer]
  exact transitions_fault img.supported hwidth (fun _ => sampleAt_nil _)
    (fun _ => columnBit_nil _ _)

theorem Image.buffer_nil {img : Image} (htight : img.Tight)
    (h : img.params.pixelsPerLine = 0 ∨ img.params.lines = 0) : img.buffer = [] := by
  apply List.eq_nil_of_length_eq_zero
  rw [img.length_buffer]
  rcases h with hw | hh
  · have hrow : img.params.rowSize = 0 := by
      unfold Params.rowSize
      rw [hw]
      split
      · rfl
      · exact Nat.zero_mul _
    rw [show img.params.bytesPerLine = 0 from htight.trans hrow, Nat.zero_mul]
  · rw [hh, Nat.mul_zero]

/-- Scans that come to an end are scans of images with pixels, or with neither lines nor
    columns. -/
theorem SymmetricScans.nonempty {img mx my tr : Image} (htight : img.Tight)
    (h : SymmetricScans img mx my tr) :
    img.params.pixelsPerLine = 0 ↔ img.params.lines = 0 := by
  constructor
  · intro hw
    by_contra hlines
    obtain ⟨l, _, hscan⟩ := h.1 0
    rw [img.getTransX_fault (img.buffer_nil htight (Or.inl hw)) (Nat.pos_of_ne_zero hlines)]
      at hscan
    exact nomatch hscan
  · intro hh
    by_contra hwidth
    obtain ⟨l, _, hscan⟩ := h.2.1 0
    rw [img.getTransY_fault (img.buffer_nil htight (Or.inr hh)) (Nat.pos_of_ne_zero hwidth)]
      at hscan
    exact nomatch hscan

/-- Scans that come to an end have computed their indices and places. -/
theorem SymmetricScans.fits {img mx my tr : Image} (htight : img.Tight)
    (h : SymmetricScans img mx my tr) : ScanFits img.params := by
  have hsize := h.nonempty htight
  obtain ⟨_, _, hright⟩ := h.1 0
  obtain ⟨_, _, hbottom⟩ := h.2.1 0
  have hindex := fun hw hh => Image.index_le_of_getTransY hw hh hbottom
  unfold saneiMagicGetTransX at hright
  unfold saneiMagicGetTransY at hbottom
  rcases Nat.eq_zero_or_pos img.params.lines with hzero | hpos
  · refine ⟨?_, fun _ => ?_⟩
    · rw [hzero, Nat.mul_zero, Nat.zero_mul]
      exact Nat.zero_le _
    · have := hsize.mpr hzero
      omega
  · have hw : 0 < img.params.pixelsPerLine := by omega
    refine ⟨hindex hw hpos, fun hs => ⟨?_, ?_⟩⟩
    · exact behind_lt_of_run hs hpos (Nat.succ_pos _) hright
    · exact behind_lt_of_run hs hw (Nat.succ_pos _) hbottom

/-! ### When the scans are symmetric -/

theorem natAbs_mirror (c a b : Int) : ((c - a) - (c - b)).natAbs = (a - b).natAbs := by
  omega

/-- The scan from the end counts the places from the other side. -/
theorem edgeAt_mirror (size t : Nat) :
    edgeAt false size t = (size : Int) - 1 - edgeAt true size t := rfl

theorem lastOf_mirror (size : Nat) : lastOf false size = (size : Int) - 1 - lastOf true size := by
  show (-1 : Int) = size - 1 - size
  omega

/-- Lists of places correspond if the numbers of steps are the same. -/
theorem mirrored_edges_iff {n size : Nat} {a b : Nat → Nat} :
    (List.range n).map (fun i => edgeAt false size (a i))
        = ((List.range n).map fun i => edgeAt true size (b i)).map (fun x => (size : Int) - 1 - x)
      ↔ ∀ i < n, a i = b i := by
  rw [List.map_map, List.map_inj_left]
  constructor
  · intro h i hi
    have hedge := h i (List.mem_range.mpr hi)
    rw [edgeAt_mirror] at hedge
    have hsame : (size : Int) - 1 - (a i : Int) = size - 1 - (b i : Int) := hedge
    omega
  · intro h i hi
    rw [h i (List.mem_range.mp hi)]
    exact edgeAt_mirror size (b i)

theorem same_edges_iff {n size : Nat} {a b : Nat → Nat} :
    (List.range n).map (fun i => edgeAt true size (a i))
        = (List.range n).map (fun i => edgeAt true size (b i)) ↔ ∀ i < n, a i = b i := by
  rw [List.map_inj_left]
  constructor
  · intro h i hi
    exact Int.ofNat_inj.mp (h i (List.mem_range.mpr hi))
  · intro h i hi
    rw [h i (List.mem_range.mp hi)]

/-- The places at which the windows are compared lie on the line. -/
theorem changesAt_congr {d size : Nat} {s s' : Nat → Int} {offset : Int}
    (h : ∀ t < size, s t = s' t) {t : Nat} (ht : t < size) :
    changesAt d s offset t = changesAt d s' offset t := by
  have hsum : ∀ u < size, windowSum s u = windowSum s' u := by
    intro u hu
    unfold windowSum
    congr 1
    apply List.map_congr_left
    intro v _
    exact h (u - v) (by omega)
  rw [changesAt, changesAt, hsum t ht, hsum (t - winLen) (by omega)]

theorem firstFrom_congr_places {P Q : Nat → Bool} {size : Nat} (h : ∀ t < size, P t = Q t) :
    firstFrom P 1 (size - 1) = firstFrom Q 1 (size - 1) :=
  firstFrom_congr fun u _ hu => h u (by omega)

section Scans

variable {img mx my tr : Image}

/-- From the right, against the mirrored image. -/
theorem scanX_sampled_iff (htight : img.Tight) (hfits : ScanFits img.params)
    (hmx : IsMirroredX img mx) (hs : img.params.Sampled)
    (hsize : img.params.pixelsPerLine = 0 ↔ img.params.lines = 0) :
    (∀ dpi, ∃ l, saneiMagicGetTransX mx.params dpi mx.buffer true = .ok (some l) ∧
      saneiMagicGetTransX img.params dpi img.buffer false
        = .ok (some (l.map fun x => (img.params.pixelsPerLine : Int) - 1 - x))) ↔
    ∀ y < img.params.lines, AgreeToFirst
      (changesAt img.params.samples
        (fun t => img.brightnessAt (img.params.pixelsPerLine - 1 - t) y)
        (winLen * (img.brightnessAt 0 y - img.brightnessAt (img.params.pixelsPerLine - 1) y)))
      (changesAt img.params.samples
        (fun t => img.brightnessAt (img.params.pixelsPerLine - 1 - t) y) 0)
      1 (img.params.pixelsPerLine - 1) := by
  have hpos : 0 < img.params.lines → 0 < img.params.pixelsPerLine := by omega
  have hpos' : 0 < mx.params.lines → 0 < mx.params.pixelsPerLine := by
    rw [hmx.width_eq, hmx.height_eq]
    exact hpos
  have hscan : ∀ dpi, saneiMagicGetTransX mx.params dpi mx.buffer true
      = some <$> ignoreLonely dpi (lastOf true img.params.pixelsPerLine)
          ((List.range img.params.lines).map fun y => edgeAt true img.params.pixelsPerLine
            (firstFrom (changesAt img.params.samples
              (fun t => img.brightnessAt (img.params.pixelsPerLine - 1 - t) y) 0) 1
              (img.params.pixelsPerLine - 1))) := by
    intro dpi
    rw [Image.getTransX_sampled hmx.tight (hfits.view hmx (Or.inl ⟨rfl, rfl⟩))
      (hmx.sampled_iff.mpr hs) hpos', hmx.width_eq, hmx.height_eq,
      hmx.samples_eq]
    congr 2
    apply List.map_congr_left
    intro y hy
    have hy := List.mem_range.mp hy
    rw [sampledEdge]
    congr 1
    apply firstFrom_congr_places
    intro t ht
    show changesAt _ (fun t => mx.brightnessAt t y)
      (winLen * (mx.brightnessAt 0 y - mx.brightnessAt 0 y)) t = _
    rw [Int.sub_self, Int.mul_zero]
    exact changesAt_congr (fun u hu => hmx.brightness_eq hs hu hy) ht
  have hown : ∀ dpi, saneiMagicGetTransX img.params dpi img.buffer false
      = some <$> ignoreLonely dpi ((img.params.pixelsPerLine : Int) - 1
          - lastOf true img.params.pixelsPerLine)
          ((List.range img.params.lines).map fun y => edgeAt false img.params.pixelsPerLine
            (firstFrom (changesAt img.params.samples
              (fun t => img.brightnessAt (img.params.pixelsPerLine - 1 - t) y)
              (winLen * (img.brightnessAt 0 y
                - img.brightnessAt (img.params.pixelsPerLine - 1) y))) 1
              (img.params.pixelsPerLine - 1))) := by
    intro dpi
    rw [Image.getTransX_sampled htight hfits hs hpos, lastOf_mirror]
    rfl
  simp only [hscan, hown]
  rw [ignoreLonely_iff (natAbs_mirror _), mirrored_edges_iff]
  exact forall₂_congr fun y hy => firstFrom_eq_iff 1 _

theorem scanX_lineart (htight : img.Tight) (hfits : ScanFits img.params)
    (hmx : IsMirroredX img mx) (hl : img.params.Lineart)
    (hsize : img.params.pixelsPerLine = 0 ↔ img.params.lines = 0) (dpi : Int) :
    ∃ l, saneiMagicGetTransX mx.params dpi mx.buffer true = .ok (some l) ∧
      saneiMagicGetTransX img.params dpi img.buffer false
        = .ok (some (l.map fun x => (img.params.pixelsPerLine : Int) - 1 - x)) := by
  have hpos : 0 < img.params.lines → 0 < img.params.pixelsPerLine := by omega
  have hpos' : 0 < mx.params.lines → 0 < mx.params.pixelsPerLine := by
    rw [hmx.width_eq, hmx.height_eq]
    exact hpos
  rw [Image.getTransX_lineart hmx.tight (hfits.view hmx (Or.inl ⟨rfl, rfl⟩))
    (hmx.lineart_iff.mpr hl) hpos', Image.getTransX_lineart htight hfits hl hpos, hmx.width_eq,
    hmx.height_eq, lastOf_mirror]
  refine (ignoreLonely_iff (natAbs_mirror _)).mpr ?_ dpi
  refine (mirrored_edges_iff).mpr ?_
  intro y hy
  apply firstFrom_congr_places
  intro t ht
  have hbit : ∀ u < img.params.pixelsPerLine,
      pixelBit mx.params.bytesPerLine mx.buffer u y = pixelBit img.params.bytesPerLine img.buffer
        (img.params.pixelsPerLine - 1 - u) y := fun u hu => hmx.bit_eq hl hu hy
  show (_ != _) = (pixelBit mx.params.bytesPerLine mx.buffer t y
    != pixelBit mx.params.bytesPerLine mx.buffer 0 y)
  rw [hbit t ht, hbit 0 (by omega)]
  rfl

theorem scanY_sampled (htight : img.Tight) (hfits : ScanFits img.params)
    (hmy : IsMirroredY img my) (hs : img.params.Sampled)
    (hsize : img.params.pixelsPerLine = 0 ↔ img.params.lines = 0) (dpi : Int) :
    ∃ l, saneiMagicGetTransY my.params dpi my.buffer true = .ok (some l) ∧
      saneiMagicGetTransY img.params dpi img.buffer false
        = .ok (some (l.map fun y => (img.params.lines : Int) - 1 - y)) := by
  have hsize' : my.params.pixelsPerLine = 0 ↔ my.params.lines = 0 := by
    rwa [hmy.width_eq, hmy.height_eq]
  rw [Image.getTransY_sampled hmy.tight (hfits.view hmy (Or.inl ⟨rfl, rfl⟩))
      (hmy.sampled_iff.mpr hs) hsize',
    Image.getTransY_sampled htight hfits hs hsize, hmy.width_eq, hmy.height_eq, hmy.samples_eq,
    lastOf_mirror]
  refine (ignoreLonely_iff (natAbs_mirror _)).mpr ?_ dpi
  refine (mirrored_edges_iff).mpr ?_
  intro x hx
  apply firstFrom_congr_places
  intro t ht
  rw [Int.sub_self, Int.sub_self]
  exact changesAt_congr (fun u hu => (hmy.brightness_eq hs hx hu).symm) ht

theorem scanY_lineart_iff (hfits : ScanFits img.params) (hmy : IsMirroredY img my)
    (hl : img.params.Lineart) (hsize : img.params.pixelsPerLine = 0 ↔ img.params.lines = 0) :
    (∀ dpi, ∃ l, saneiMagicGetTransY my.params dpi my.buffer true = .ok (some l) ∧
      saneiMagicGetTransY img.params dpi img.buffer false
        = .ok (some (l.map fun y => (img.params.lines : Int) - 1 - y))) ↔
    ∀ x < img.params.pixelsPerLine, AgreeToFirst
      (fun t => img.columnBit x (img.params.lines - 1 - t)
        != img.columnBit x (img.params.lines - 1))
      (fun t => my.columnBit x t != my.columnBit x 0) 1 (img.params.lines - 1) := by
  have hpos : 0 < img.params.pixelsPerLine → 0 < img.params.lines := by omega
  have hpos' : 0 < my.params.pixelsPerLine → 0 < my.params.lines := by
    rw [hmy.width_eq, hmy.height_eq]
    exact hpos
  simp only [Image.getTransY_lineart (hfits.view hmy (Or.inl ⟨rfl, rfl⟩))
      (hmy.lineart_iff.mpr hl) hpos', Image.getTransY_lineart hfits hl hpos, hmy.width_eq,
    hmy.height_eq, lastOf_mirror]
  rw [ignoreLonely_iff (natAbs_mirror _)]
  refine (mirrored_edges_iff).trans ?_
  exact forall₂_congr fun x hx => firstFrom_eq_iff 1 _

/-- Lines against the columns of the transposed image. -/
theorem scan_transposed_sampled (htight : img.Tight) (hfits : ScanFits img.params)
    (htr : IsTransposed img tr) (hs : img.params.Sampled)
    (hsize : img.params.pixelsPerLine = 0 ↔ img.params.lines = 0) (dpi : Int) :
    ∃ l, saneiMagicGetTransY tr.params dpi tr.buffer true = .ok (some l) ∧
      saneiMagicGetTransX img.params dpi img.buffer true = .ok (some l) := by
  have hpos : 0 < img.params.lines → 0 < img.params.pixelsPerLine := by omega
  have hsize' : tr.params.pixelsPerLine = 0 ↔ tr.params.lines = 0 := by
    rw [htr.width_eq, htr.height_eq]
    exact hsize.symm
  rw [Image.getTransY_sampled htr.tight (hfits.view htr (Or.inr ⟨rfl, rfl⟩))
      (htr.sampled_iff.mpr hs) hsize',
    Image.getTransX_sampled htight hfits hs hpos, htr.width_eq, htr.height_eq, htr.samples_eq]
  obtain ⟨l, hl, hsame⟩ := (ignoreLonely_iff (f := id) (fun _ _ => rfl)).mpr
    (List.map_id _).symm dpi
  refine ⟨l, hl, ?_⟩
  rw [List.map_id] at hsame
  rw [← hsame]
  refine congrArg (fun raw => some <$> ignoreLonely dpi _ raw) ((same_edges_iff).mpr ?_)
  intro y hy
  apply firstFrom_congr_places
  intro t ht
  show changesAt _ (fun t => img.brightnessAt t y)
      (winLen * (img.brightnessAt 0 y - img.brightnessAt 0 y)) t
    = changesAt _ (fun t => tr.brightnessAt y t)
      (winLen * (tr.brightnessAt y 0 - tr.brightnessAt y 0)) t
  rw [Int.sub_self, Int.sub_self]
  exact changesAt_congr (fun u hu => (htr.brightness_eq hs hy hu).symm) ht

theorem scan_transposed_lineart_iff (htight : img.Tight) (hfits : ScanFits img.params)
    (htr : IsTransposed img tr) (hl : img.params.Lineart)
    (hsize : img.params.pixelsPerLine = 0 ↔ img.params.lines = 0) :
    (∀ dpi, ∃ l, saneiMagicGetTransY tr.params dpi tr.buffer true = .ok (some l) ∧
      saneiMagicGetTransX img.params dpi img.buffer true = .ok (some l)) ↔
    ∀ y < img.params.lines, AgreeToFirst
      (fun t => pixelBit img.params.bytesPerLine img.buffer t y
        != pixelBit img.params.bytesPerLine img.buffer 0 y)
      (fun t => tr.columnBit y t != tr.columnBit y 0) 1 (img.params.pixelsPerLine - 1) := by
  have hpos : 0 < img.params.lines → 0 < img.params.pixelsPerLine := by omega
  have hpos' : 0 < tr.params.pixelsPerLine → 0 < tr.params.lines := by
    rw [htr.width_eq, htr.height_eq]
    exact hpos
  simp only [Image.getTransY_lineart (hfits.view htr (Or.inr ⟨rfl, rfl⟩))
      (htr.lineart_iff.mpr hl) hpos', Image.getTransX_lineart htight hfits hl hpos, htr.width_eq,
    htr.height_eq]
  have hiff := @ignoreLonely_iff (lastOf true img.params.pixelsPerLine) id (fun _ _ => rfl)
    ((List.range img.params.lines).map fun y =>
      lineartEdge true img.params.pixelsPerLine fun t =>
        pixelBit img.params.bytesPerLine img.buffer t y)
    ((List.range img.params.lines).map fun y =>
      lineartEdge true img.params.pixelsPerLine fun t => tr.columnBit y t)
  simp only [List.map_id] at hiff
  refine hiff.trans ((same_edges_iff).trans ?_)
  exact forall₂_congr fun y hy => firstFrom_eq_iff 1 _

end Scans

/-! ### Images whose scans are symmetric -/

/-- If lines consist of whole bytes they do follow each other without a gap. -/
theorem Image.columnBit_eq {img : Image} (htight : img.Tight) (hl : img.params.Lineart)
    (hw : 8 ∣ img.params.pixelsPerLine) (x y : Nat) :
    img.columnBit x y = pixelBit img.params.bytesPerLine img.buffer x y := by
  obtain ⟨n, hn⟩ := hw
  have hbytes : img.params.bytesPerLine = n := by
    have hrow : img.params.bytesPerLine = (img.params.pixelsPerLine + 7) / 8 :=
      htight.trans hl.rowSize_eq
    omega
  have haddr : (y * img.params.pixelsPerLine + x) / 8 = y * img.params.bytesPerLine + x / 8 := by
    rw [hn, hbytes, Nat.mul_left_comm, Nat.mul_add_div (by decide)]
  rw [columnBit, pixelBit, haddr]

/-- It is enough that the two ends of every line are equally bright, or that width and height are
    multiples of eight. -/
theorem scansAgree_of_edges {img my tr : Image} (htight : img.Tight)
    (hmy : IsMirroredY img my) (htr : IsTransposed img tr)
    (hsize : img.params.pixelsPerLine = 0 ↔ img.params.lines = 0) (hfits : ScanFits img.params)
    (hends : img.params.Sampled → ∀ y < img.params.lines,
      img.brightnessAt 0 y = img.brightnessAt (img.params.pixelsPerLine - 1) y)
    (hbytes : img.params.Lineart → 8 ∣ img.params.pixelsPerLine ∧ 8 ∣ img.params.lines) :
    ScansAgree img my tr := by
  refine ⟨hsize, hfits, ?_, ?_, ?_⟩
  · intro hs y hy
    apply AgreeToFirst.of_eq
    intro t _ _
    rw [hends hs y hy, Int.sub_self, Int.mul_zero]
  · intro hl x hx
    obtain ⟨hw, _⟩ := hbytes hl
    have hbit : ∀ t < img.params.lines,
        img.columnBit x (img.params.lines - 1 - t) = my.columnBit x t := by
      intro t ht
      rw [Image.columnBit_eq htight hl hw, Image.columnBit_eq hmy.tight (hmy.lineart_iff.mpr hl)
        (hmy.width_eq ▸ hw)]
      exact (hmy.bit_eq hl hx ht).symm
    apply AgreeToFirst.of_eq
    intro t _ ht
    show (_ != _) = (_ != _)
    rw [hbit t (by omega), ← hbit 0 (by omega), Nat.sub_zero]
  · intro hl y hy
    obtain ⟨_, hh⟩ := hbytes hl
    have hbit : ∀ t < img.params.pixelsPerLine,
        pixelBit img.params.bytesPerLine img.buffer t y = tr.columnBit y t := by
      intro t ht
      rw [Image.columnBit_eq htr.tight (htr.lineart_iff.mpr hl) (htr.width_eq ▸ hh)]
      exact (htr.bit_eq hl hy ht).symm
    apply AgreeToFirst.of_eq
    intro t _ ht
    show (_ != _) = (_ != _)
    rw [hbit t (by omega), hbit 0 (by omega)]

/-! ### The scans of an image and its views -/

/-- The scans are symmetric exactly if the tests agree up to the first change and no index
    overflows. -/
theorem symmetricScans_iff {img mx my tr : Image} (htight : img.Tight) (hmx : IsMirroredX img mx)
    (hmy : IsMirroredY img my) (htr : IsTransposed img tr) :
    SymmetricScans img mx my tr ↔ ScansAgree img my tr := by
  constructor
  · intro h
    have hsize := h.nonempty htight
    have hfits := h.fits htight
    refine ⟨hsize, hfits, ?_, ?_, ?_⟩
    · exact fun hs => (scanX_sampled_iff htight hfits hmx hs hsize).mp h.1
    · exact fun hl => (scanY_lineart_iff hfits hmy hl hsize).mp h.2.1
    · exact fun hl => (scan_transposed_lineart_iff htight hfits htr hl hsize).mp h.2.2
  · rintro ⟨hsize, hfits, hsampled, hup, hdown⟩
    rcases img.supported with hs | hl
    · refine ⟨?_, ?_, ?_⟩
      · exact (scanX_sampled_iff htight hfits hmx hs hsize).mpr (hsampled hs)
      · exact scanY_sampled htight hfits hmy hs hsize
      · exact scan_transposed_sampled htight hfits htr hs hsize
    · refine ⟨?_, ?_, ?_⟩
      · exact scanX_lineart htight hfits hmx hl hsize
      · exact (scanY_lineart_iff hfits hmy hl hsize).mpr (hup hl)
      · exact (scan_transposed_lineart_iff htight hfits htr hl hsize).mpr (hdown hl)

/-- A dark pixel between two bright ones, in each of two lines. -/
def brightFrame : Image where
  params := { format := .gray, depth := 8, pixelsPerLine := 3, bytesPerLine := 3, lines := 2 }
  buffer := [255, 0, 255, 255, 0, 255]
  supported := Or.inl (Or.inr ⟨rfl, rfl⟩)
  row_le := by decide
  length_buffer := rfl

def brightFrameOnSide : Image where
  params := { format := .gray, depth := 8, pixelsPerLine := 2, bytesPerLine := 2, lines := 3 }
  buffer := [255, 255, 0, 0, 255, 255]
  supported := Or.inl (Or.inr ⟨rfl, rfl⟩)
  row_le := by decide
  length_buffer := rfl

/-- The dark pixels are found from the right; there is no change along a column. -/
theorem symmetricScans_iff_frame :
    SymmetricScans brightFrame brightFrame brightFrame brightFrameOnSide ∧
    saneiMagicGetTransX brightFrame.params 300 brightFrame.buffer false
      = .ok (some [1, 1]) ∧
    saneiMagicGetTransY brightFrame.params 300 brightFrame.buffer false
      = .ok (some [-1, -1, -1]) := by
  have htight : brightFrame.Tight := rfl
  have hmx : IsMirroredX brightFrame brightFrame := ⟨rfl, rfl, rfl, rfl, rfl, by decide⟩
  have hmy : IsMirroredY brightFrame brightFrame := ⟨rfl, rfl, rfl, rfl, rfl, by decide⟩
  have htr : IsTransposed brightFrame brightFrameOnSide := ⟨rfl, rfl, rfl, rfl, rfl, by decide⟩
  have hagree : ScansAgree brightFrame brightFrame brightFrameOnSide :=
    scansAgree_of_edges htight hmy htr (by decide) ⟨by decide, fun _ => by decide⟩ (by decide)
      (fun h => absurd h (by decide))
  exact ⟨(symmetricScans_iff htight hmx hmy htr).mpr hagree, by decide +kernel, by decide +kernel⟩

/-- A line of two gray pixels. -/
def grayPair (a b : SaneByte) : Image where
  params := { format := .gray, depth := 8, pixelsPerLine := 2, bytesPerLine := 2, lines := 1 }
  buffer := [a, b]
  supported := Or.inl (Or.inr ⟨rfl, rfl⟩)
  row_le := by decide
  length_buffer := rfl

def grayColumn (a b : SaneByte) : Image where
  params := { format := .gray, depth := 8, pixelsPerLine := 1, bytesPerLine := 1, lines := 2 }
  buffer := [a, b]
  supported := Or.inl (Or.inr ⟨rfl, rfl⟩)
  row_le := by decide
  length_buffer := rfl

/-- The step from 100 to 255 is seen from the right but not in the mirrored image. -/
theorem asymmetric_pair :
    IsMirroredX (grayPair 255 100) (grayPair 100 255) ∧
    IsMirroredY (grayPair 255 100) (grayPair 255 100) ∧
    IsTransposed (grayPair 255 100) (grayColumn 255 100) ∧
    ¬ SymmetricScans (grayPair 255 100) (grayPair 100 255) (grayPair 255 100)
      (grayColumn 255 100) := by
  refine ⟨⟨rfl, rfl, rfl, rfl, rfl, by decide⟩, ⟨rfl, rfl, rfl, rfl, rfl, by decide⟩,
    ⟨rfl, rfl, rfl, rfl, rfl, by decide⟩, ?_⟩
  intro h
  obtain ⟨l, hl, hscan⟩ := h.1 300
  have hmirrored : saneiMagicGetTransX (grayPair 100 255).params 300 (grayPair 100 255).buffer
      true = .ok (some [2]) := by decide +kernel
  have hright : saneiMagicGetTransX (grayPair 255 100).params 300 (grayPair 255 100).buffer
      false = .ok (some [0]) := by decide +kernel
  obtain rfl : [2] = l := Option.some.inj (Except.ok.inj (hmirrored.symm.trans hl))
  exact absurd (Option.some.inj (Except.ok.inj (hright.symm.trans hscan))) (by decide)

end SaneBackends.Magic

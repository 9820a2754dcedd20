import SaneBackends.MagicImage
import SaneBackends.CountLoops
import SaneBackends.EdgeScan

/-!
# Transitions of an image

`sanei_magic_getTransX` and `sanei_magic_getTransY` of `sanei/sanei_magic.c`: for each line or
column of an image, the place of the first change of brightness from one of its ends.  Indices
and places are `int`s, which overflow for images from two gigabytes on.
-/

namespace SaneBackends.Magic

open CountLoops EdgeScan FaultState

/-! ### Reading -/

/-- `buffer[idx]` for an `int` that may be negative.  Products and sums of which it consists do
    not overflow unless it does. -/
def byteAt (buffer : List SaneByte) (idx : Int) : Except Fault SaneByte := do
  let idx ← intValue idx
  if idx < 0 then .error .outOfBounds else cellAt buffer idx.toNat

/-- The value of a byte. -/
def sampleAt (buffer : List SaneByte) (idx : Int) : Except Fault Int := do
  .ok ((← byteAt buffer idx).toNat : Int)

/-- `buffer[idx] >> n & 1` -/
def bitAt (buffer : List SaneByte) (idx n : Int) : Except Fault Bool := do
  .ok (bitOf (← byteAt buffer idx) n.toNat)

/-! ### One line -/

/-- `firstLine` or `firstCol`. -/
def firstOf (fromStart : Bool) (size : Nat) : Int := if fromStart then 0 else size - 1

/-- `lastLine` or `lastCol`. -/
def lastOf (fromStart : Bool) (size : Nat) : Int := if fromStart then size else -1

/-- `direction` -/
def directionOf (fromStart : Bool) : Int := if fromStart then 1 else -1

def winLen : Nat := 9

/-- A place of a window, which stops at the first one. -/
def clampTo (first : Int) (size : Nat) (j : Int) : Int :=
  if j < 0 ∨ size ≤ j then first else j

/-- `abs(near - far) > 50*winLen*depth - near*40/255` -/
def significant (depth : Nat) (near far : Int) : Bool :=
  50 * winLen * depth - (near * 40).tdiv 255 < ((near - far).natAbs : Int)

/-- The loop that fills the windows. -/
def fillWindow (load : Nat → Except Fault Int) (depth : Nat) : Except Fault Int :=
  turns (fun k near => do .ok (near + (← load k))) depth 0

/-- The loop over the samples when the windows, `near` and `far`, move on to `j`. -/
def moveSamples (read : Int → Nat → Except Fault Int) (depth : Nat) (farAt nearAt j : Int) :
    Int × Int → Except Fault (Int × Int) :=
  turns (fun k w => do
    let far := w.2 - (← read farAt k)
    let far := far + (← read nearAt k)
    let near := w.1 - (← read nearAt k)
    let near := near + (← read j k)
    .ok (near, far)) depth

/-- The loop that moves the windows on along a line.  The line is left when `j` becomes `last`;
    should it have started behind that, `j` sooner or later leaves the buffer. -/
def moveWindows (read : Int → Nat → Except Fault Int) (depth : Nat) (first last direction : Int)
    (size : Nat) : Nat → Int → Int × Int → Except Fault Int
  | 0, _, _ => .error .outOfBounds
  | fuel + 1, j, windows =>
    if j = last then .ok last
    else do
      let far ← intValue (j - (winLen * 2 : Nat) * direction)
      let near ← intValue (j - winLen * direction)
      let windows ← moveSamples read depth (clampTo first size far) (clampTo first size near) j
        windows
      if significant depth windows.1 windows.2 then .ok j
      else moveWindows read depth first last direction size fuel (j + direction) windows

/-- The loop that moves on to the first bit that differs from `near`. -/
def moveToChange (read : Int → Except Fault Bool) (last direction : Int) (near : Bool) :
    Nat → Int → Except Fault Int
  | 0, _ => .error .outOfBounds
  | fuel + 1, j =>
    if j = last then .ok last
    else do
      let bit ← read j
      if bit ≠ near then .ok j
      else moveToChange read last direction near fuel (j + direction)

/-! ### All lines -/

/-- One turn of the loop that counts the `j` with `abs(buff[i+j] - buff[i]) < dpi/2`. -/
def countNeighbour (dpi : Int) (buff : List Int) (i j sum : Nat) : Except Fault Nat := do
  let there ← cellAt buff (i + (j + 1))
  let here ← cellAt buff i
  .ok (if (there - here).natAbs < dpi.tdiv 2 then sum + 1 else sum)

/-- How many of the next seven places are neighbours. -/
def neighbours (dpi : Int) (buff : List Int) (i : Nat) : Except Fault Nat :=
  turns (countNeighbour dpi buff i) 7 0

def ignoreIfLonely (dpi last : Int) (i : Nat) (buff : List Int) : Except Fault (List Int) := do
  let sum ← neighbours dpi buff i
  if sum < 2 then setCell buff i last else .ok buff

/-- Transitions with few neighbours within half an inch are ignored. -/
def ignoreLonely (dpi last : Int) (buff : List Int) : Except Fault (List Int) :=
  turns (ignoreIfLonely dpi last) (buff.length - 7) buff

/-- What the two functions have in common: `count` lines of `size` pixels are searched.  `load`
    reads the samples that the windows are filled with, `read` and `readBit` those of a place. -/
def transitions (p : Params) (dpi : Int) (count size : Nat) (fromStart : Bool) (fuel : Nat)
    (load : Nat → Nat → Except Fault Int) (read : Nat → Int → Nat → Except Fault Int)
    (readBit : Nat → Int → Except Fault Bool) : Except Fault (Option (List Int)) :=
  let first := firstOf fromStart size
  let last := lastOf fromStart size
  let direction := directionOf fromStart
  if p.Sampled then do
    let buff ← (List.range count).mapM fun i => do
      let near ← fillWindow (load i) p.samples
      let near := near * winLen
      moveWindows (read i) p.samples first last direction size fuel (first + direction)
        (near, near)
    some <$> ignoreLonely dpi last buff
  else if p.Lineart then do
    let buff ← (List.range count).mapM fun i => do
      let near ← readBit i first
      moveToChange (readBit i) last direction near fuel (first + direction)
    some <$> ignoreLonely dpi last buff
  else .ok none

/-- More turns than any line of the buffer has places. -/
def scanFuel (buffer : List SaneByte) (size : Nat) : Nat := 8 * buffer.length + size + 9

def saneiMagicGetTransY (p : Params) (dpi : Int) (buffer : List SaneByte) (top : Bool) :
    Except Fault (Option (List Int)) :=
  let width := p.pixelsPerLine
  let height := p.lines
  let depth := p.samples
  transitions p dpi width height top (scanFuel buffer height)
    (fun i k => sampleAt buffer ((firstOf top height * width + i) * depth + k))
    (fun i j k => sampleAt buffer ((j * width + i) * depth + k))
    (fun i j => do bitAt buffer ((← intValue (j * width + i)).tdiv 8) (7 - i % 8))

def saneiMagicGetTransX (p : Params) (dpi : Int) (buffer : List SaneByte) (left : Bool) :
    Except Fault (Option (List Int)) :=
  let bwidth := p.bytesPerLine
  let width := p.pixelsPerLine
  let height := p.lines
  let depth := p.samples
  transitions p dpi height width left (scanFuel buffer width)
    (fun i k => sampleAt buffer (i * bwidth + k))
    (fun i j k => sampleAt buffer (i * bwidth + j * depth + k))
    (fun i j => bitAt buffer (i * bwidth + j.tdiv 8) (7 - j.tmod 8))

/-! ### Places along a line -/

/-- The place that is reached after `t` steps. -/
def edgeAt (fromStart : Bool) (size t : Nat) : Int :=
  if fromStart then t else (size : Int) - 1 - t

/-- The same as an index. -/
def placeOf (fromStart : Bool) (size t : Nat) : Nat := if fromStart then t else size - 1 - t

section Places

variable (fromStart : Bool) (size t : Nat)

theorem edgeAt_zero : edgeAt fromStart size 0 = firstOf fromStart size := by
  cases fromStart with
  | true => rfl
  | false => exact Int.sub_zero _

theorem edgeAt_size : edgeAt fromStart size size = lastOf fromStart size := by
  cases fromStart with
  | true => rfl
  | false =>
    show (size : Int) - 1 - size = -1
    omega

theorem edgeAt_succ :
    edgeAt fromStart size t + directionOf fromStart = edgeAt fromStart size (t + 1) := by
  cases fromStart with
  | true => rfl
  | false =>
    show (size : Int) - 1 - t + -1 = size - 1 - (t + 1 : Nat)
    omega

variable {fromStart size t}

theorem edgeAt_of_lt (h : t < size) : edgeAt fromStart size t = placeOf fromStart size t := by
  cases fromStart with
  | true => rfl
  | false =>
    show (size : Int) - 1 - t = (size - 1 - t : Nat)
    omega

theorem placeOf_lt (h : t < size) : placeOf fromStart size t < size := by
  cases fromStart with
  | true => exact h
  | false =>
    show size - 1 - t < size
    omega

theorem edgeAt_ne_last (h : t < size) : edgeAt fromStart size t ≠ lastOf fromStart size := by
  cases fromStart with
  | true =>
    show (t : Int) ≠ size
    omega
  | false =>
    show (size : Int) - 1 - t ≠ -1
    omega

/-- The places that the windows follow behind are `int`s. -/
theorem intValue_behind (hsize : size + 16 < 2 ^ 31) (h : t + 1 < size) {c : Nat} (hc : c ≤ 18) :
    intValue (edgeAt fromStart size (t + 1) - c * directionOf fromStart)
      = .ok (edgeAt fromStart size (t + 1) - c * directionOf fromStart) := by
  refine intValue_eq_ok.mpr ⟨?_, rfl⟩
  cases fromStart with
  | true =>
    show -2 ^ 31 ≤ ((t + 1 : Nat) : Int) - c * 1 ∧ ((t + 1 : Nat) : Int) - c * 1 < 2 ^ 31
    omega
  | false =>
    show -2 ^ 31 ≤ (size : Int) - 1 - (t + 1 : Nat) - c * -1 ∧
      (size : Int) - 1 - (t + 1 : Nat) - c * -1 < 2 ^ 31
    omega

/-- A place of a window that follows `c` places behind. -/
theorem clampTo_edgeAt (h : t < size) (c : Nat) :
    clampTo (firstOf fromStart size) size (edgeAt fromStart size t - c * directionOf fromStart)
      = edgeAt fromStart size (t - c) := by
  rw [clampTo]
  cases fromStart with
  | true =>
    show (if (t : Int) - c * 1 < 0 ∨ (size : Int) ≤ t - c * 1 then (0 : Int) else t - c * 1)
      = (t - c : Nat)
    split <;> omega
  | false =>
    show (if (size : Int) - 1 - t - c * -1 < 0 ∨ (size : Int) ≤ size - 1 - t - c * -1
      then (size : Int) - 1 else size - 1 - t - c * -1) = size - 1 - (t - c : Nat)
    split <;> omega

end Places

/-! ### What a line gives -/

/-- The test that the windows are put to after `t` steps.  `s` are the brightnesses of the
    places and `offset` what the windows have been filled with too much. -/
def changesAt (depth : Nat) (s : Nat → Int) (offset : Int) (t : Nat) : Bool :=
  significant depth (windowSum s t + offset) (windowSum s (t - winLen) + offset)

/-- The sum of the samples of a pixel. -/
def brightness (d : Nat) (v : Nat → Int) : Int := ((List.range d).map v).sum

theorem brightness_succ (d : Nat) (v : Nat → Int) :
    brightness (d + 1) v = brightness d v + v d := by
  rw [brightness, List.range_succ, List.map_append, List.sum_append, brightness, List.map_singleton,
    List.sum_singleton]

section Lines

variable {d size : Nat} {fromStart : Bool}

theorem fillWindow_ok {load : Nat → Except Fault Int} {v : Nat → Int}
    (hload : ∀ k < d, load k = .ok (v k)) : fillWindow load d = .ok (brightness d v) := by
  induction d with
  | zero => rfl
  | succ d ih =>
    unfold fillWindow at ih ⊢
    rw [turns_succ, ih fun k hk => hload k (by omega), brightness_succ]
    show (load d >>= _) = _
    rw [hload d (Nat.lt_succ_self d)]
    rfl

theorem moveSamples_ok {read : Int → Nat → Except Fault Int} {far near j : Int}
    {vfar vnear vj : Nat → Int} (hfar : ∀ k < d, read far k = .ok (vfar k))
    (hnear : ∀ k < d, read near k = .ok (vnear k)) (hj : ∀ k < d, read j k = .ok (vj k))
    (w : Int × Int) :
    moveSamples read d far near j w
      = .ok (w.1 - brightness d vnear + brightness d vj,
          w.2 - brightness d vfar + brightness d vnear) := by
  induction d with
  | zero =>
    show Except.ok w = Except.ok (w.1 - 0 + 0, w.2 - 0 + 0)
    rw [Int.sub_zero, Int.sub_zero, Int.add_zero, Int.add_zero]
  | succ d ih =>
    unfold moveSamples at ih ⊢
    rw [turns_succ, ih (fun k hk => hfar k (by omega)) (fun k hk => hnear k (by omega))
      (fun k hk => hj k (by omega))]
    show (read far d >>= _) = _
    rw [hfar d (Nat.lt_succ_self d)]
    show (read near d >>= _) = _
    rw [hnear d (Nat.lt_succ_self d)]
    show (read j d >>= _) = _
    rw [hj d (Nat.lt_succ_self d), brightness_succ, brightness_succ, brightness_succ]
    show Except.ok (_, _) = Except.ok (_, _)
    congr 2 <;> omega

/-- The windows move on to the first significant change. -/
theorem moveWindows_ok {read : Int → Nat → Except Fault Int} {v : Nat → Nat → Int}
    (hsize : size + 16 < 2 ^ 31)
    (hread : ∀ t < size, ∀ k < d, read (edgeAt fromStart size t) k = .ok (v t k)) (offset : Int)
    {m t fuel : Nat} (ht : t + 1 + m = size) (hfuel : m < fuel) :
    moveWindows read d (firstOf fromStart size) (lastOf fromStart size) (directionOf fromStart)
        size fuel (edgeAt fromStart size (t + 1))
        (windowSum (fun t => brightness d (v t)) t + offset,
          windowSum (fun t => brightness d (v t)) (t - winLen) + offset)
      = .ok (edgeAt fromStart size
          (firstFrom (changesAt d (fun t => brightness d (v t)) offset) (t + 1) m)) := by
  induction m generalizing t fuel with
  | zero =>
    obtain ⟨fuel, rfl⟩ : ∃ n, fuel = n + 1 := ⟨fuel - 1, by omega⟩
    have hend : t + 1 = size := ht
    rw [moveWindows, hend, edgeAt_size, if_pos rfl, firstFrom, edgeAt_size]
  | succ m ih =>
    obtain ⟨fuel, rfl⟩ : ∃ n, fuel = n + 1 := ⟨fuel - 1, by omega⟩
    have hlt : t + 1 < size := by omega
    rw [moveWindows, if_neg (edgeAt_ne_last hlt), intValue_behind hsize hlt (by decide), ok_bind,
      intValue_behind hsize hlt (by decide), ok_bind, clampTo_edgeAt hlt, clampTo_edgeAt hlt,
      moveSamples_ok (hread _ (by omega)) (hread _ (by omega)) (hread _ hlt)]
    have hnearSum : windowSum (fun t => brightness d (v t)) (t + 1)
        = windowSum (fun t => brightness d (v t)) t - brightness d (v (t + 1 - winLen))
          + brightness d (v (t + 1)) := windowSum_succ (fun t => brightness d (v t)) t
    have hfarSum : windowSum (fun t => brightness d (v t)) (t + 1 - winLen)
        = windowSum (fun t => brightness d (v t)) (t - winLen)
          - brightness d (v (t + 1 - winLen * 2)) + brightness d (v (t + 1 - winLen)) :=
      windowSum_behind (fun t => brightness d (v t)) t
    have hwindows : ((windowSum (fun t => brightness d (v t)) t + offset
          - brightness d (v (t + 1 - winLen)) + brightness d (v (t + 1)),
        windowSum (fun t => brightness d (v t)) (t - winLen) + offset
          - brightness d (v (t + 1 - winLen * 2)) + brightness d (v (t + 1 - winLen))) : Int × Int)
        = (windowSum (fun t => brightness d (v t)) (t + 1) + offset,
          windowSum (fun t => brightness d (v t)) (t + 1 - winLen) + offset) := by
      congr 1 <;> omega
    rw [hwindows, firstFrom]
    show (if changesAt d (fun t => brightness d (v t)) offset (t + 1) then _ else _) = _
    by_cases hfires : changesAt d (fun t => brightness d (v t)) offset (t + 1) = true
    · rw [if_pos hfires, if_pos hfires]
    · rw [if_neg hfires, if_neg hfires, edgeAt_succ]
      exact ih (by omega) (by omega)

/-- A bit line is left at the first bit that differs from the one at the edge. -/
theorem moveToChange_ok {read : Int → Except Fault Bool} {v : Nat → Bool}
    (hread : ∀ t < size, read (edgeAt fromStart size t) = .ok (v t)) {m t fuel : Nat}
    (ht : t + m = size) (hfuel : m < fuel) :
    moveToChange read (lastOf fromStart size) (directionOf fromStart) (v 0) fuel
        (edgeAt fromStart size t)
      = .ok (edgeAt fromStart size (firstFrom (fun t => v t != v 0) t m)) := by
  induction m generalizing t fuel with
  | zero =>
    obtain ⟨fuel, rfl⟩ : ∃ n, fuel = n + 1 := ⟨fuel - 1, by omega⟩
    have hend : t = size := ht
    rw [moveToChange, hend, edgeAt_size, if_pos rfl, firstFrom, edgeAt_size]
  | succ m ih =>
    obtain ⟨fuel, rfl⟩ : ∃ n, fuel = n + 1 := ⟨fuel - 1, by omega⟩
    have hlt : t < size := by omega
    rw [moveToChange, if_neg (edgeAt_ne_last hlt), hread t hlt, firstFrom]
    show (if v t ≠ v 0 then _ else _) = _
    by_cases hdiffers : v t = v 0
    · rw [if_neg (not_not.mpr hdiffers), if_neg (by simp [hdiffers]), edgeAt_succ]
      exact ih (by omega) (by omega)
    · rw [if_pos hdiffers, if_pos (by simp [hdiffers])]

end Lines

/-! ### Ignoring lonely transitions -/

section Lonely

variable {dpi last : Int} {buff : List Int}

theorem countNeighbour_of_lt {i j sum : Nat} (h : i + (j + 1) < buff.length) :
    countNeighbour dpi buff i j sum
      = .ok (if (buff[i + (j + 1)] - buff[i]).natAbs < dpi.tdiv 2 then sum + 1 else sum) := by
  rw [countNeighbour, cellAt_of_lt h, cellAt_of_lt (show i < buff.length by omega)]
  rfl

theorem neighbours_ok {i : Nat} (h : i + 7 < buff.length) :
    ∃ n, neighbours dpi buff i = .ok n := by
  have hturn : ∀ j < 7, ∀ sum, True → ∃ sum', countNeighbour dpi buff i j sum = .ok sum' ∧ True :=
    fun j hj sum _ => ⟨_, countNeighbour_of_lt (by omega), trivial⟩
  obtain ⟨n, hrun, _⟩ := turns_ok (I := fun _ _ => True) (s := 0) trivial hturn
  exact ⟨n, hrun⟩

theorem ignoreLonely_ok : ∃ l, ignoreLonely dpi last buff = .ok l ∧ l.length = buff.length := by
  apply turns_ok (I := fun _ l => l.length = buff.length) (n := buff.length - 7) (s := buff)
    (f := ignoreIfLonely dpi last) rfl
  intro i hi l hl
  obtain ⟨n, hn⟩ := @neighbours_ok dpi l i (by omega)
  rw [ignoreIfLonely, hn]
  show ∃ s', (if n < 2 then setCell l i last else .ok l) = _ ∧ _
  split
  · exact ⟨l.set i last, setCell_of_lt (by omega), List.length_set.trans hl⟩
  · exact ⟨l, rfl, hl⟩

theorem cellAt_map {f : Int → Int} {l : List Int} {i : Nat} :
    cellAt (l.map f) i = (cellAt l i).map f := by
  rw [cellAt, cellAt, List.getElem?_map]
  cases l[i]? <;> rfl

theorem setCell_map {f : Int → Int} {l : List Int} {i : Nat} {x : Int} :
    setCell (l.map f) i (f x) = (setCell l i x).map (List.map f) := by
  rw [setCell, setCell, List.length_map]
  split
  · rw [← List.map_set]
    rfl
  · rfl

/-- Places that are counted differently have the same neighbours if their distances stay. -/
theorem neighbours_map {f : Int → Int} (hf : ∀ a b, (f a - f b).natAbs = (a - b).natAbs)
    (l : List Int) (i : Nat) : neighbours dpi (l.map f) i = neighbours dpi l i := by
  apply turns_congr
  intro j _ sum
  rw [countNeighbour, countNeighbour, cellAt_map, cellAt_map]
  cases cellAt l (i + (j + 1)) with
  | error e => rfl
  | ok a =>
    cases cellAt l i with
    | error e => rfl
    | ok b =>
      show Except.ok (if (f a - f b).natAbs < dpi.tdiv 2 then _ else _) = Except.ok _
      rw [hf]

theorem ignoreLonely_map {f : Int → Int} (hf : ∀ a b, (f a - f b).natAbs = (a - b).natAbs)
    (l : List Int) :
    ignoreLonely dpi (f last) (l.map f) = (ignoreLonely dpi last l).map (List.map f) := by
  rw [ignoreLonely, List.length_map]
  apply turns_map
  intro i _ s
  rw [ignoreIfLonely, ignoreIfLonely, neighbours_map hf]
  cases neighbours dpi s i with
  | error e => rfl
  | ok n =>
    show (if n < 2 then _ else _) = ((if n < 2 then setCell s i last else .ok s) : Except _ _).map _
    split
    · exact setCell_map
    · rfl

/-- With a resolution that is high enough all places are neighbours. -/
theorem ignoreLonely_all {bound : Int} (hall : ∀ a ∈ buff, ∀ b ∈ buff, (a - b).natAbs < bound)
    (hdpi : dpi = 2 * bound) : ignoreLonely dpi last buff = .ok buff := by
  have hhalf : dpi.tdiv 2 = bound := by
    rw [hdpi]
    exact Int.mul_tdiv_cancel_left bound (by decide)
  have hseven : ∀ i, i + 7 < buff.length → neighbours dpi buff i = .ok 7 := by
    intro i hi
    obtain ⟨n, hrun, rfl⟩ := turns_ok (I := fun j sum => sum = j) (n := 7) (s := 0)
      (f := countNeighbour dpi buff i) rfl (by
        rintro j hj sum rfl
        have hthere : i + (sum + 1) < buff.length := by omega
        have hnear := hall _ (List.getElem_mem hthere) _
          (List.getElem_mem (show i < buff.length by omega))
        refine ⟨sum + 1, ?_, rfl⟩
        rw [countNeighbour_of_lt hthere, hhalf, if_pos hnear])
    exact hrun
  obtain ⟨l, hrun, hl⟩ := turns_ok (I := fun _ l => l = buff) (n := buff.length - 7) (s := buff)
    (f := ignoreIfLonely dpi last) rfl (by
      rintro i hi l rfl
      rw [ignoreIfLonely, hseven i (by omega)]
      exact ⟨l, rfl, rfl⟩)
  rw [hl] at hrun
  exact hrun

theorem exists_bound (l : List Int) : ∃ b : Int, ∀ a ∈ l, (a.natAbs : Int) < b := by
  induction l with
  | nil => exact ⟨0, fun a ha => nomatch ha⟩
  | cons x l ih =>
    obtain ⟨b, hb⟩ := ih
    refine ⟨max b (x.natAbs + 1), ?_⟩
    intro a ha
    rcases List.mem_cons.mp ha with rfl | ha
    · omega
    · have := hb a ha
      omega

/-- Two lists of transitions correspond at every resolution exactly if they do before lonely
    transitions are ignored. -/
theorem ignoreLonely_iff {f : Int → Int} (hf : ∀ a b, (f a - f b).natAbs = (a - b).natAbs)
    {raw raw' : List Int} :
    (∀ dpi, ∃ l, some <$> ignoreLonely dpi last raw' = .ok (some l) ∧
      some <$> ignoreLonely dpi (f last) raw = .ok (some (l.map f))) ↔ raw = raw'.map f := by
  constructor
  · intro h
    obtain ⟨b, hb⟩ := exists_bound raw
    obtain ⟨b', hb'⟩ := exists_bound raw'
    have hall : ∀ x ∈ raw, ∀ y ∈ raw, ((x - y).natAbs : Int) < 2 * max b b' := by
      intro x hx y hy
      have := hb x hx
      have := hb y hy
      omega
    have hall' : ∀ x ∈ raw', ∀ y ∈ raw', ((x - y).natAbs : Int) < 2 * max b b' := by
      intro x hx y hy
      have := hb' x hx
      have := hb' y hy
      omega
    obtain ⟨l, hl, hmap⟩ := h (2 * (2 * max b b'))
    rw [ignoreLonely_all hall' rfl] at hl
    rw [ignoreLonely_all hall rfl] at hmap
    obtain rfl : raw' = l := Option.some.inj (Except.ok.inj hl)
    exact Option.some.inj (Except.ok.inj hmap)
  · rintro rfl dpi
    obtain ⟨l, hl, _⟩ := @ignoreLonely_ok dpi last raw'
    refine ⟨l, ?_, ?_⟩
    · rw [hl]
      rfl
    · rw [ignoreLonely_map hf, hl]
      rfl

end Lonely

/-! ### What the functions return -/

/-- The place of the first significant change of a line.  `s` are the brightnesses of its places
    from the edge on, `filled` the one that the windows are filled with. -/
def sampledEdge (depth : Nat) (fromStart : Bool) (size : Nat) (s : Nat → Int) (filled : Int) :
    Int :=
  edgeAt fromStart size (firstFrom (changesAt depth s (winLen * (filled - s 0))) 1 (size - 1))

/-- The place of the first bit that differs from the one at the edge. -/
def lineartEdge (fromStart : Bool) (size : Nat) (v : Nat → Bool) : Int :=
  edgeAt fromStart size (firstFrom (fun t => v t != v 0) 1 (size - 1))

section Transitions

variable {p : Params} {dpi : Int} {count size fuel : Nat} {fromStart : Bool}
  {load : Nat → Nat → Except Fault Int} {read : Nat → Int → Nat → Except Fault Int}
  {readBit : Nat → Int → Except Fault Bool}

theorem transitions_sampled (hs : p.Sampled) (hsize : 0 < count → 0 < size) (hfuel : size ≤ fuel)
    (hbehind : size + 16 < 2 ^ 31)
    {l : Nat → Nat → Int} (hload : ∀ i < count, ∀ k < p.samples, load i k = .ok (l i k))
    {v : Nat → Nat → Nat → Int} (hread : ∀ i < count, ∀ t < size, ∀ k < p.samples,
      read i (edgeAt fromStart size t) k = .ok (v i t k)) :
    transitions p dpi count size fromStart fuel load read readBit
      = some <$> ignoreLonely dpi (lastOf fromStart size) ((List.range count).map fun i =>
          sampledEdge p.samples fromStart size (fun t => brightness p.samples (v i t))
            (brightness p.samples (l i))) := by
  rw [transitions, if_pos hs, mapM_ok]
  · rfl
  · intro i hi
    have hi := List.mem_range.mp hi
    have hpos := hsize (Nat.zero_lt_of_lt hi)
    have hmove := moveWindows_ok hbehind (hread i hi)
      (winLen * (brightness p.samples (l i) - brightness p.samples (v i 0))) (m := size - 1)
      (t := 0) (by omega) (show size - 1 < fuel by omega)
    have hwindow : windowSum (fun t => brightness p.samples (v i t)) 0
          + winLen * (brightness p.samples (l i) - brightness p.samples (v i 0))
        = brightness p.samples (l i) * winLen := by
      rw [windowSum_zero]
      show 9 * brightness p.samples (v i 0)
        + 9 * (brightness p.samples (l i) - brightness p.samples (v i 0)) = _ * 9
      omega
    rw [Nat.zero_sub, hwindow, ← edgeAt_succ, edgeAt_zero] at hmove
    rw [fillWindow_ok (hload i hi)]
    exact hmove

theorem transitions_lineart (hl : p.Lineart) (hsize : 0 < count → 0 < size) (hfuel : size ≤ fuel)
    {v : Nat → Nat → Bool}
    (hread : ∀ i < count, ∀ t < size, readBit i (edgeAt fromStart size t) = .ok (v i t)) :
    transitions p dpi count size fromStart fuel load read readBit
      = some <$> ignoreLonely dpi (lastOf fromStart size) ((List.range count).map fun i =>
          lineartEdge fromStart size (v i)) := by
  rw [transitions, if_neg hl.not_sampled, if_pos hl, mapM_ok]
  · rfl
  · intro i hi
    have hi := List.mem_range.mp hi
    have hpos := hsize (Nat.zero_lt_of_lt hi)
    have hmove := moveToChange_ok (hread i hi) (m := size - 1) (t := 1) (by omega)
      (show size - 1 < fuel by omega)
    rw [← edgeAt_succ, edgeAt_zero] at hmove
    have hfirst := hread i hi 0 hpos
    rw [edgeAt_zero] at hfirst
    rw [hfirst]
    exact hmove

/-- What a scan that comes to an end has read of each line. -/
theorem transitions_sampled_each (hs : p.Sampled) {r : Option (List Int)}
    (hrun : transitions p dpi count size fromStart fuel load read readBit = .ok r) {i : Nat}
    (hi : i < count) : (∃ near, fillWindow (load i) p.samples = .ok near) ∧
      ∃ windows v, moveWindows (read i) p.samples (firstOf fromStart size) (lastOf fromStart size)
        (directionOf fromStart) size fuel (firstOf fromStart size + directionOf fromStart) windows
          = .ok v := by
  rw [transitions, if_pos hs] at hrun
  obtain ⟨buff, hbuff, _⟩ := bind_eq_ok.mp hrun
  obtain ⟨v, hline⟩ := mapM_each hbuff (List.mem_range.mpr hi)
  obtain ⟨near, hnear, hmove⟩ := bind_eq_ok.mp hline
  exact ⟨⟨near, hnear⟩, _, v, hmove⟩

theorem transitions_lineart_each (hl : p.Lineart) {r : Option (List Int)}
    (hrun : transitions p dpi count size fromStart fuel load read readBit = .ok r) {i : Nat}
    (hi : i < count) : ∃ near, readBit i (firstOf fromStart size) = .ok near := by
  rw [transitions, if_neg hl.not_sampled, if_pos hl] at hrun
  obtain ⟨buff, hbuff, _⟩ := bind_eq_ok.mp hrun
  obtain ⟨_, hline⟩ := mapM_each hbuff (List.mem_range.mpr hi)
  obtain ⟨near, hnear, _⟩ := bind_eq_ok.mp hline
  exact ⟨near, hnear⟩

end Transitions

/-! ### The samples and bits of an image -/

theorem byteAt_of_lt {buffer : List SaneByte} {idx : Nat} (h : idx < buffer.length)
    (hint : idx < 2 ^ 31) : byteAt buffer idx = .ok buffer[idx] := by
  have hneg : ¬ (idx : Int) < 0 := by omega
  rw [byteAt, intValue_natCast, if_pos hint, ok_bind, if_neg hneg, Int.toNat_natCast,
    cellAt_of_lt h]

theorem lt_of_byteAt {buffer : List SaneByte} {idx : Int} {b : SaneByte}
    (h : byteAt buffer idx = .ok b) : idx < 2 ^ 31 := by
  obtain ⟨_, hint, _⟩ := bind_eq_ok.mp h
  exact (intValue_eq_ok.mp hint).1.2

theorem sampleAt_of_lt {buffer : List SaneByte} {idx : Nat} (h : idx < buffer.length)
    (hint : idx < 2 ^ 31) : sampleAt buffer idx = .ok ((buffer.getD idx 0).toNat : Int) := by
  rw [sampleAt, byteAt_of_lt h hint, List.getD_eq_getElem _ _ h]
  rfl

theorem bitAt_of_lt {buffer : List SaneByte} {idx n : Nat} (h : idx < buffer.length)
    (hint : idx < 2 ^ 31) : bitAt buffer idx n = .ok (bitIn buffer idx n) := by
  rw [bitAt, byteAt_of_lt h hint, bitIn, List.getD_eq_getElem _ _ h, Int.toNat_natCast]
  rfl

namespace Image

variable (img : Image)

/-- The sum of the samples of pixel `x` of line `y`. -/
def brightnessAt (x y : Nat) : Int :=
  brightness img.params.samples fun k => ((img.buffer.getD
    (y * img.params.bytesPerLine + x * img.params.samples + k) 0).toNat : Int)

/-- The bit that is read for column `i` of line `j` of an image whose lines are taken to follow
    each other without a gap. -/
def columnBit (i j : Nat) : Bool :=
  bitIn img.buffer ((j * img.params.pixelsPerLine + i) / 8) (7 - i % 8)

end Image

/-! ### The two scans of an image -/

/-- The indices of all samples or bits, and the places that the windows follow behind, are
    `int`s. -/
structure ScanFits (p : Params) : Prop where
  index_le : p.pixelsPerLine * p.lines * p.samples ≤ 2 ^ 31
  behind_lt : p.Sampled → p.pixelsPerLine + 16 < 2 ^ 31 ∧ p.lines + 16 < 2 ^ 31

namespace Image

variable {img : Image} {dpi : Int} {fromStart : Bool}

/-- The bytes of a line are just enough for its pixels. -/
def Tight (img : Image) : Prop := img.params.bytesPerLine = img.params.rowSize

theorem length_le_of_fits (htight : img.Tight) (hfits : ScanFits img.params)
    (hsize : 0 < img.params.lines → 0 < img.params.pixelsPerLine) :
    img.buffer.length ≤ 2 ^ 31 := by
  refine le_trans ?_ hfits.index_le
  rw [img.length_buffer, show img.params.bytesPerLine = _ from htight, Nat.mul_right_comm]
  rcases Nat.eq_zero_or_pos img.params.lines with hzero | hpos
  · rw [hzero, Nat.mul_zero]
    exact Nat.zero_le _
  · apply Nat.mul_le_mul_right
    rcases img.supported with hs | hl
    · exact hs.rowSize_eq.le
    · have := hsize hpos
      rw [hl.rowSize_eq, hl.samples_eq]
      omega

theorem getTransX_sampled (htight : img.Tight) (hfits : ScanFits img.params)
    (hs : img.params.Sampled)
    (hsize : 0 < img.params.lines → 0 < img.params.pixelsPerLine) :
    saneiMagicGetTransX img.params dpi img.buffer fromStart
      = some <$> ignoreLonely dpi (lastOf fromStart img.params.pixelsPerLine)
          ((List.range img.params.lines).map fun y =>
            sampledEdge img.params.samples fromStart img.params.pixelsPerLine
              (fun t => img.brightnessAt (placeOf fromStart img.params.pixelsPerLine t) y)
              (img.brightnessAt 0 y)) := by
  have hlength := img.length_le_of_fits htight hfits hsize
  rw [saneiMagicGetTransX]
  apply transitions_sampled hs hsize (by unfold scanFuel; omega) (hfits.behind_lt hs).1
  · intro y hy k hk
    have hlt := img.sampleAddress_lt hs (hsize (Nat.zero_lt_of_lt hy)) hy hk
    rw [Nat.zero_mul, Nat.add_zero] at hlt
    rw [Nat.zero_mul, Nat.add_zero, ← sampleAt_of_lt hlt (by omega), Nat.cast_add, Nat.cast_mul]
  · intro y hy t ht k hk
    have hlt := img.sampleAddress_lt hs (@placeOf_lt fromStart _ _ ht) hy hk
    rw [edgeAt_of_lt ht, ← sampleAt_of_lt hlt (by omega), Nat.cast_add, Nat.cast_add,
      Nat.cast_mul, Nat.cast_mul]

theorem getTransX_lineart (htight : img.Tight) (hfits : ScanFits img.params)
    (hl : img.params.Lineart)
    (hsize : 0 < img.params.lines → 0 < img.params.pixelsPerLine) :
    saneiMagicGetTransX img.params dpi img.buffer fromStart
      = some <$> ignoreLonely dpi (lastOf fromStart img.params.pixelsPerLine)
          ((List.range img.params.lines).map fun y =>
            lineartEdge fromStart img.params.pixelsPerLine fun t =>
              pixelBit img.params.bytesPerLine img.buffer
                (placeOf fromStart img.params.pixelsPerLine t) y) := by
  have hlength := img.length_le_of_fits htight hfits hsize
  rw [saneiMagicGetTransX]
  apply transitions_lineart hl hsize (by unfold scanFuel; omega)
  intro y hy t ht
  have hlt := img.bitAddress_lt hl (@placeOf_lt fromStart _ _ ht) hy
  have hshift : (7 : Int) - (placeOf fromStart img.params.pixelsPerLine t : Int).tmod 8
      = (7 - placeOf fromStart img.params.pixelsPerLine t % 8 : Nat) := by
    rw [Int.tmod_eq_emod_of_nonneg (by omega)]
    omega
  have hbyte : (placeOf fromStart img.params.pixelsPerLine t : Int).tdiv 8
      = (placeOf fromStart img.params.pixelsPerLine t / 8 : Nat) := rfl
  rw [edgeAt_of_lt ht, hshift, hbyte, pixelBit, ← bitAt_of_lt hlt (by omega), Nat.cast_add,
    Nat.cast_mul]

theorem getTransY_sampled (htight : img.Tight) (hfits : ScanFits img.params)
    (hs : img.params.Sampled)
    (hsize : img.params.pixelsPerLine = 0 ↔ img.params.lines = 0) :
    saneiMagicGetTransY img.params dpi img.buffer fromStart
      = some <$> ignoreLonely dpi (lastOf fromStart img.params.lines)
          ((List.range img.params.pixelsPerLine).map fun x =>
            sampledEdge img.params.samples fromStart img.params.lines
              (fun t => img.brightnessAt x (placeOf fromStart img.params.lines t))
              (img.brightnessAt x (placeOf fromStart img.params.lines 0))) := by
  have hlength := img.length_le_of_fits htight hfits (by omega)
  have haddr : ∀ x y k, (y * img.params.pixelsPerLine + x) * img.params.samples + k
      = y * img.params.bytesPerLine + x * img.params.samples + k := by
    intro x y k
    rw [show img.params.bytesPerLine = _ from htight, hs.rowSize_eq]
    ring
  have hread : ∀ x < img.params.pixelsPerLine, ∀ t < img.params.lines,
      ∀ k < img.params.samples,
      sampleAt img.buffer ((edgeAt fromStart img.params.lines t * img.params.pixelsPerLine + x)
          * img.params.samples + k)
        = .ok ((img.buffer.getD (placeOf fromStart img.params.lines t * img.params.bytesPerLine
            + x * img.params.samples + k) 0).toNat : Int) := by
    intro x hx t ht k hk
    have hlt := img.sampleAddress_lt hs hx (@placeOf_lt fromStart _ _ ht) hk
    rw [edgeAt_of_lt ht, ← sampleAt_of_lt hlt (by omega), ← haddr, Nat.cast_add, Nat.cast_mul, Nat.cast_add,
      Nat.cast_mul]
  rw [saneiMagicGetTransY]
  apply transitions_sampled hs (by omega) (by unfold scanFuel; omega) (hfits.behind_lt hs).2
  · intro x hx k hk
    rw [← edgeAt_zero]
    exact hread x hx 0 (by omega) k hk
  · exact hread

theorem getTransY_lineart (hfits : ScanFits img.params) (hl : img.params.Lineart)
    (hsize : 0 < img.params.pixelsPerLine → 0 < img.params.lines) :
    saneiMagicGetTransY img.params dpi img.buffer fromStart
      = some <$> ignoreLonely dpi (lastOf fromStart img.params.lines)
          ((List.range img.params.pixelsPerLine).map fun x =>
            lineartEdge fromStart img.params.lines fun t =>
              img.columnBit x (placeOf fromStart img.params.lines t)) := by
  rw [saneiMagicGetTransY]
  apply transitions_lineart hl hsize (by unfold scanFuel; omega)
  intro x hx t ht
  have hline := rowAddress_lt (@placeOf_lt fromStart _ _ ht) hx
  have hint : placeOf fromStart img.params.lines t * img.params.pixelsPerLine + x < 2 ^ 31 := by
    have htotal := hfits.index_le
    rw [hl.samples_eq, Nat.mul_one] at htotal
    omega
  have hlt : (placeOf fromStart img.params.lines t * img.params.pixelsPerLine + x) / 8
      < img.buffer.length := by
    have hrow := img.row_le
    rw [hl.rowSize_eq] at hrow
    have hbytes : img.params.pixelsPerLine * img.params.lines
        ≤ 8 * (img.params.bytesPerLine * img.params.lines) := by
      rw [← Nat.mul_assoc]
      exact Nat.mul_le_mul_right _ (by omega)
    rw [img.length_buffer]
    omega
  have hshift : (7 : Int) - (x : Int) % 8 = (7 - x % 8 : Nat) := by omega
  have hbit : (placeOf fromStart img.params.lines t : Int) * img.params.pixelsPerLine + x
      = (placeOf fromStart img.params.lines t * img.params.pixelsPerLine + x : Nat) := by
    rw [← Nat.cast_mul, ← Nat.cast_add]
  have hbyte : ((placeOf fromStart img.params.lines t * img.params.pixelsPerLine + x : Nat)
      : Int).tdiv 8
        = ((placeOf fromStart img.params.lines t * img.params.pixelsPerLine + x) / 8 : Nat) := rfl
  rw [edgeAt_of_lt ht, hbit, intValue_natCast, if_pos hint, ok_bind, hshift, hbyte, columnBit]
  exact bitAt_of_lt hlt (by omega)

/-- The scan from the bottom begins with the pixel that has the largest index. -/
theorem index_le_of_getTransY {r : Option (List Int)} (hw : 0 < img.params.pixelsPerLine)
    (hh : 0 < img.params.lines)
    (hrun : saneiMagicGetTransY img.params dpi img.buffer false = .ok r) :
    img.params.pixelsPerLine * img.params.lines * img.params.samples ≤ 2 ^ 31 := by
  obtain ⟨w, hw'⟩ := Nat.exists_eq_succ_of_ne_zero hw.ne'
  obtain ⟨h, hh'⟩ := Nat.exists_eq_succ_of_ne_zero hh.ne'
  obtain ⟨d, hd⟩ := Nat.exists_eq_succ_of_ne_zero img.params.samples_pos.ne'
  have hlast : w < img.params.pixelsPerLine := by omega
  have hfirst : firstOf false img.params.lines = h := by
    show (img.params.lines : Int) - 1 = h
    omega
  have hpixel : (h : Int) * img.params.pixelsPerLine + w
      = (img.params.pixelsPerLine * img.params.lines : Nat) - 1 := by
    rw [hw', hh']
    push_cast
    ring
  unfold saneiMagicGetTransY at hrun
  rcases img.supported with hs | hl
  · obtain ⟨⟨near, hnear⟩, _⟩ := transitions_sampled_each hs hrun hlast
    obtain ⟨_, _, hload⟩ := turns_each hnear (show d < img.params.samples by omega)
    obtain ⟨_, hsample, _⟩ := bind_eq_ok.mp hload
    obtain ⟨_, hbyte, _⟩ := bind_eq_ok.mp hsample
    have hlt := lt_of_byteAt hbyte
    have hindex : (((img.params.pixelsPerLine * img.params.lines : Nat) : Int) - 1)
        * img.params.samples + d
          = (img.params.pixelsPerLine * img.params.lines * img.params.samples : Nat) - 1 := by
      rw [hd]
      push_cast
      ring
    rw [hfirst, hpixel, hindex] at hlt
    omega
  · obtain ⟨near, hnear⟩ := transitions_lineart_each hl hrun hlast
    obtain ⟨_, hint, _⟩ := bind_eq_ok.mp hnear
    have hlt := (intValue_eq_ok.mp hint).1.2
    rw [hfirst, hpixel] at hlt
    rw [hl.samples_eq, Nat.mul_one]
    omega

end Image

section Behind

variable {p : Params} {dpi : Int} {count size fuel : Nat}
  {load : Nat → Nat → Except Fault Int} {read : Nat → Int → Nat → Except Fault Int}
  {readBit : Nat → Int → Except Fault Bool}

/-- The first place that the scan from the end looks back to is eighteen places behind. -/
theorem behind_lt_of_run (hs : p.Sampled) {r : Option (List Int)} (hcount : 0 < count)
    (hfuel : 0 < fuel)
    (hrun : transitions p dpi count size false fuel load read readBit = .ok r) :
    size + 16 < 2 ^ 31 := by
  by_cases hshort : size < 2
  · omega
  · obtain ⟨_, _, v, hmove⟩ := transitions_sampled_each hs hrun hcount
    obtain ⟨fuel, rfl⟩ := Nat.exists_eq_succ_of_ne_zero hfuel.ne'
    have hplace : firstOf false size + directionOf false = (size : Int) - 1 + -1 := rfl
    rw [hplace, moveWindows, if_neg] at hmove
    · obtain ⟨_, hfar, _⟩ := bind_eq_ok.mp hmove
      have hlt := (intValue_eq_ok.mp hfar).1.2
      change (size : Int) - 1 + -1 - 18 * -1 < 2 ^ 31 at hlt
      omega
    · show ¬ (size : Int) - 1 + -1 = -1
      omega

end Behind

end SaneBackends.Magic

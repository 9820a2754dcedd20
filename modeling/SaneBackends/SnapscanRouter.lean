import SaneBackends.SnapscanBase

/-!
# The RGB router of the SnapScan backend

A line holds its channels one behind the other, and some channels are scanned some lines
later than others.  The router keeps as many lines as the latest channel is late and puts
each line together from the channels of different ones.  What it says about the bytes that
remain is wrong in two situations: with a buffer of one line, when it holds a part of the last
line, and while the buffer is filled for the first time, when few lines are left below it.
-/

namespace SaneBackends

open Overwrite PullStream RingWindow

variable {σ : Type}

/-! ### What the output is -/

/-- Line `j` of the output, for an input of which `w i` is byte `i`. -/
def routedLine (pss : SnapScanScanner) (line : Nat) (w : Nat → SaneByte) (j : Nat) :
    List SaneByte :=
  let channel (offset c i : Nat) := w (line * (j + offset) + c * (line / 3) + i)
  let (r, g, b) := pss.chromaOffset
  routeCells pss.bppScan (line / 3) (channel r 0) (channel g 1) (channel b 2)

def routedImage (pss : SnapScanScanner) (line : Nat) (w : List SaneByte) : List SaneByte :=
  (List.range (w.length / line - pss.chroma)).flatMap (routedLine pss line (w.getD · 0))

/-- The samples of a line fill it, and no channel is later than the buffer allows. -/
structure Routable (pss : SnapScanScanner) (line : Nat) : Prop where
  nonempty : 0 < line
  samples : pss.bppScan = 8 ∧ 3 ∣ line ∨ pss.bppScan ≠ 8 ∧ 6 ∣ line
  red : pss.chromaOffset.1 ≤ pss.chroma
  green : pss.chromaOffset.2.1 ≤ pss.chroma
  blue : pss.chromaOffset.2.2 ≤ pss.chroma

theorem length_routeCells {α : Type} {pss : SnapScanScanner} {line : Nat} (h : Routable pss line)
    (red green blue : Nat → α) :
    (routeCells pss.bppScan (line / 3) red green blue).length = line := by
  unfold routeCells
  rcases h.samples with ⟨hbpp, n, rfl⟩ | ⟨hbpp, n, rfl⟩
  · rw [if_pos hbpp]
    simp
    omega
  · rw [if_neg hbpp]
    simp
    omega

/-- Only the samples of the line are read. -/
theorem routeCells_map {α β : Type} {pss : SnapScanScanner} {line : Nat} (h : Routable pss line)
    {red green blue : Nat → α} {red' green' blue' : Nat → β} {f : α → β}
    (hred : ∀ i < line / 3, red' i = f (red i)) (hgreen : ∀ i < line / 3, green' i = f (green i))
    (hblue : ∀ i < line / 3, blue' i = f (blue i)) :
    routeCells pss.bppScan (line / 3) red' green' blue' =
      (routeCells pss.bppScan (line / 3) red green blue).map f := by
  unfold routeCells
  rcases h.samples with ⟨hbpp, -⟩ | ⟨hbpp, n, rfl⟩
  · rw [if_pos hbpp, if_pos hbpp, List.map_flatMap]
    apply List.flatMap_congr
    intro i hi
    have hlt := List.mem_range.mp hi
    rw [hred i hlt, hgreen i hlt, hblue i hlt]
    rfl
  · rw [if_neg hbpp, if_neg hbpp, List.map_flatMap]
    apply List.flatMap_congr
    intro i hi
    have hlt := List.mem_range.mp hi
    rw [hred _ (by omega), hred _ (by omega), hgreen _ (by omega), hgreen _ (by omega),
      hblue _ (by omega), hblue _ (by omega)]
    rfl

theorem length_routedLine {pss : SnapScanScanner} {line : Nat} (h : Routable pss line)
    (w : Nat → SaneByte) (j : Nat) : (routedLine pss line w j).length = line :=
  length_routeCells h _ _ _

/-- In lists of equal lengths one behind the other, the rest from list `j` on begins with it. -/
theorem prefix_drop_flatMap {α : Type} {f : Nat → List α} {n m j : Nat}
    (hlen : ∀ i, (f i).length = n) (hj : j < m) :
    f j <+: ((List.range m).flatMap f).drop (n * j) := by
  have hbefore : ((List.range j).flatMap f).length = n * j := by
    induction j with
    | zero => rfl
    | succ j ih =>
      rw [List.range_succ, List.flatMap_append, List.length_append, ih (by omega),
        List.flatMap_singleton, hlen, Nat.mul_succ]
  obtain ⟨d, rfl⟩ : ∃ d, m = j + 1 + d := ⟨m - (j + 1), by omega⟩
  rw [List.range_add, List.range_succ, List.append_assoc, List.flatMap_append,
    List.drop_left' hbefore, List.singleton_append, List.flatMap_cons]
  exact List.prefix_append _ _

theorem length_routedImage {pss : SnapScanScanner} {line : Nat} (h : Routable pss line)
    (w : List SaneByte) :
    (routedImage pss line w).length = line * (w.length / line - pss.chroma) := by
  simp [routedImage, List.length_flatMap, length_routedLine h, Nat.mul_comm]

/-! ### What the steps keep -/

/-- `t` bytes of `w` have been read, and `k` bytes been given; `next` lines of the output have
    been put together. -/
structure RGBRouter.Inv (pss : SnapScanScanner) (line : Nat) (w : List SaneByte) (r : RGBRouter)
    (t next k : Nat) : Prop where
  size : r.cbSize = line * (pss.chroma + 1)
  lineSize : r.cbLineSize = line
  offsets : r.chOffset = (pss.chromaOffset.1 * line, pss.chromaOffset.2.1 * line + line / 3,
    pss.chromaOffset.2.2 * line + 2 * (line / 3))
  cells : r.cbuf.length = line * (pss.chroma + 1)
  xcells : r.xbuf.length = line
  req : r.roundReq = if next = 0 then line * (pss.chroma + 1) else line
  read : r.roundRead ≤ r.roundReq
  begins : t + r.roundReq = line * (pss.chroma + 1 + next) + r.roundRead
  start : r.cbStart = line * ((next - 1) % (pss.chroma + 1))
  window : Window r.cbuf w t
  pos : r.pos ≤ line
  count : k + line = line * next + r.pos
  held : r.pos < line → 0 < next ∧ r.roundRead = 0 ∧
    r.xbuf = (routedLine pss line (w.getD · 0) (next - 1)).map some
  fresh : r.stale = false

section
variable {psub : Source σ} {w : List SaneByte} {slack line : Nat} {subFit fit : Nat → Prop}
  {subAt : σ → Nat → Prop} {prompt : σ → Prop} {atOnce : Prop} {pss : SnapScanScanner}
  {r : RGBRouter} {t next k : Nat}

/-- A place in a circle of lines. -/
theorem place_mod {x y b : Nat} (hb : b < line) :
    (line * x + b) % (line * y) = line * (x % y) + b := by
  rw [Nat.mod_mul, Nat.mul_add_mod, Nat.mod_eq_of_lt hb, Nat.mul_add_div (by omega),
    Nat.div_eq_of_lt hb, Nat.add_zero, Nat.add_comm]

/-- A round ends inside of the buffer. -/
theorem round_fits (h : r.Inv pss line w t next k) :
    r.cbStart + r.roundReq ≤ line * (pss.chroma + 1) := by
  rw [h.start, h.req]
  rcases Nat.eq_zero_or_pos next with rfl | hnext
  · simp
  · rw [if_neg (by omega), ← Nat.mul_succ]
    exact Nat.mul_le_mul_left _ (Nat.mod_lt _ (Nat.succ_pos _))

/-- The place of the next byte that is read. -/
theorem read_place (h : r.Inv pss line w t next k) (hmore : r.roundRead < r.roundReq) :
    t % (line * (pss.chroma + 1)) = r.cbStart + r.roundRead := by
  have hbegins := h.begins
  have hreq := h.req
  rw [h.start]
  rcases next with - | next
  · rw [if_pos rfl] at hreq
    have ht : t = r.roundRead := by
      rw [Nat.add_zero] at hbegins
      omega
    rw [ht, Nat.mod_eq_of_lt (by omega)]
    simp
  · rw [if_neg (Nat.succ_ne_zero _)] at hreq
    have ht : t = line * (pss.chroma + 1 + next) + r.roundRead := by
      rw [← Nat.add_assoc, Nat.mul_succ] at hbegins
      omega
    rw [ht, place_mod (by omega), Nat.add_mod_left, Nat.add_sub_cancel]

theorem router_gotData_inv {bytes : List SaneByte} (h : r.Inv pss line w t next k)
    (hfull : r.pos = line) (hmore : r.roundRead < r.roundReq) (hfront : bytes <+: w.drop t)
    (hlen : bytes.length ≤ r.roundReq - r.roundRead) :
    (r.gotData bytes).Inv pss line w (t + bytes.length) next k := by
  have hfits := round_fits h
  have hplace := read_place h hmore
  refine ⟨h.size, h.lineSize, h.offsets, ?_, h.xcells, h.req, ?_, ?_, h.start, ?_, h.pos, h.count,
    ?_, h.fresh⟩
  · refine (length_overwrite ?_).trans h.cells
    rw [h.cells, List.length_map]
    omega
  · show r.roundRead + bytes.length ≤ r.roundReq
    omega
  · have hbegins := h.begins
    show t + bytes.length + r.roundReq =
      line * (pss.chroma + 1 + next) + (r.roundRead + bytes.length)
    omega
  · show Window (overwrite r.cbuf (r.cbStart + r.roundRead) (bytes.map some)) w (t + bytes.length)
    rw [← hplace, ← h.cells]
    apply h.window.store hfront
    rw [h.cells, hplace]
    omega
  · intro hpos
    exact absurd hpos hfull.not_lt

/-- Between two calls a round is not complete. -/
def RGBRouter.Within (pss : SnapScanScanner) (line : Nat) (w : List SaneByte)
    (subAt : σ → Nat → Prop) (s : RGBRouter × σ) (k : Nat) : Prop :=
  ∃ t next, subAt s.2 t ∧ s.1.Inv pss line w t next k ∧ s.1.roundRead < s.1.roundReq

/-- A line is there. -/
def RGBRouter.Ready (pss : SnapScanScanner) (line : Nat) (w : List SaneByte)
    (subAt : σ → Nat → Prop) (s : RGBRouter × σ) (k : Nat) : Prop :=
  RGBRouter.Within pss line w subAt s k ∧ s.1.pos < line

/-- A part of a line is held only where a request may end, and, if all data comes at once,
    no part of a round has been read. -/
def RGBRouter.At (pss : SnapScanScanner) (line : Nat) (w : List SaneByte) (fit : Nat → Prop)
    (atOnce : Prop) (subAt : σ → Nat → Prop) (s : RGBRouter × σ) (k : Nat) : Prop :=
  RGBRouter.Within pss line w subAt s k ∧ (s.1.pos = line ∨ 0 < s.1.pos ∧ fit k) ∧
    (atOnce → pss.chroma < w.length / line → s.1.roundRead = 0)

/-- A round stops where the source below stops. -/
theorem readRound_stop
    (hsub : Delivers psub.toPullSource SaneStatus.good w slack subFit subAt)
    (hfit : ∀ e, subFit e) {fuel : Nat} {s s' : RGBRouter × σ} (hat : subAt s.2 t)
    (h : s.1.Inv pss line w t next k) (hfull : s.1.pos = line)
    (hmore : s.1.roundRead < s.1.roundReq)
    (hround : RGBRouter.readRound psub fuel s = some (.stop .good s')) :
    RGBRouter.Within pss line w subAt s' k ∧ s'.1.pos = line := by
  induction fuel generalizing s t with
  | zero => cases hround
  | succ fuel ih =>
    rw [RGBRouter.readRound] at hround
    cases hask : askSub psub (s.1.roundReq - s.1.roundRead) s.1.gotData s.1 s.2 with
    | none =>
      rw [hask] at hround
      cases hround
    | some answer =>
      rw [hask] at hround
      cases answer with
      | stop status u =>
        cases hround
        obtain ⟨hsame, hat'⟩ := askSub_stop hsub hat (hfit _) hask
        rw [← hsame] at h hmore hfull
        exact ⟨⟨t, next, hat', h, hmore⟩, hfull⟩
      | go u =>
        simp only at hround
        split_ifs at hround with hagain
        · obtain ⟨bytes, -, hstored, -, hlen, hfront, hat'⟩ := askSub_go hsub hat (hfit _) hask
          have hgot := router_gotData_inv h hfull hmore hfront hlen
          rw [← hstored] at hgot
          refine ih hat' hgot ?_ hagain hround
          rw [hstored]
          exact hfull
        · cases hround

/-- Otherwise it is complete. -/
theorem readRound_go
    (hsub : Delivers psub.toPullSource SaneStatus.good w slack subFit subAt)
    (hfit : ∀ e, subFit e) {fuel : Nat} {s s' : RGBRouter × σ} (hat : subAt s.2 t)
    (h : s.1.Inv pss line w t next k) (hfull : s.1.pos = line)
    (hmore : s.1.roundRead < s.1.roundReq) (hfuel : s.1.roundReq - s.1.roundRead ≤ fuel)
    (hround : RGBRouter.readRound psub fuel s = some (.go s')) :
    ∃ t, subAt s'.2 t ∧ s'.1.Inv pss line w t next k ∧ s'.1.pos = line ∧
      s'.1.roundRead = s'.1.roundReq := by
  induction fuel generalizing s t with
  | zero => omega
  | succ fuel ih =>
    rw [RGBRouter.readRound] at hround
    cases hask : askSub psub (s.1.roundReq - s.1.roundRead) s.1.gotData s.1 s.2 with
    | none =>
      rw [hask] at hround
      cases hround
    | some answer =>
      rw [hask] at hround
      cases answer with
      | stop status u => cases hround
      | go u =>
        simp only at hround
        obtain ⟨bytes, -, hstored, hsome, hlen, hfront, hat'⟩ := askSub_go hsub hat (hfit _) hask
        have hgot := router_gotData_inv h hfull hmore hfront hlen
        have hbytes := List.length_pos_iff.mpr hsome
        have hread : u.1.roundRead = s.1.roundRead + bytes.length := by
          rw [hstored]
          rfl
        have hreq : u.1.roundReq = s.1.roundReq := by
          rw [hstored]
          rfl
        have hpos : u.1.pos = line := by
          rw [hstored]
          exact hfull
        rw [← hstored] at hgot
        split_ifs at hround with hagain
        · exact ih hat' hgot hpos hagain (by omega) hround
        · cases hround
          exact ⟨_, hat', hgot, hpos, le_antisymm hgot.read (Nat.le_of_not_lt hagain)⟩

/-- A prompt source gives a round at once. -/
theorem readRound_full (fuel : Nat)
    (hanswers : Answers psub.toPullSource SaneStatus.good w subFit subAt prompt)
    (hfit : ∀ e, subFit e) {s : RGBRouter × σ} (hat : subAt s.2 t) (hprompt : prompt s.2)
    (hmore : s.1.roundRead < s.1.roundReq)
    (hle : t + (s.1.roundReq - s.1.roundRead) ≤ w.length) :
    ∃ s', RGBRouter.readRound psub (fuel + 1) s = some (.go s') ∧ prompt s'.2 := by
  obtain ⟨sub', hask, hprompt'⟩ := askSub_full (s.1.roundReq - s.1.roundRead) s.1.gotData s.1
    hanswers hat hprompt (by omega) hle (hfit _)
  have hdone : ¬ (s.1.gotData ((w.drop t).take (s.1.roundReq - s.1.roundRead))).roundReq >
      (s.1.gotData ((w.drop t).take (s.1.roundReq - s.1.roundRead))).roundRead := by
    show ¬ s.1.roundReq >
      s.1.roundRead + ((w.drop t).take (s.1.roundReq - s.1.roundRead)).length
    rw [length_take_drop hle]
    omega
  exact ⟨_, by rw [RGBRouter.readRound, hask]; exact if_neg hdone, hprompt'⟩

/-- At the end of the input nothing comes any more. -/
theorem readRound_end
    (hsub : Delivers psub.toPullSource SaneStatus.good w slack subFit subAt)
    (hfit : ∀ e, subFit e) {fuel : Nat} {s s' : RGBRouter × σ} (hat : subAt s.2 w.length)
    (hround : RGBRouter.readRound psub fuel s = some (.stop .good s')) : s'.1 = s.1 := by
  cases fuel with
  | zero => cases hround
  | succ fuel =>
    rw [RGBRouter.readRound] at hround
    cases hask : askSub psub (s.1.roundReq - s.1.roundRead) s.1.gotData s.1 s.2 with
    | none =>
      rw [hask] at hround
      cases hround
    | some answer =>
      rw [hask] at hround
      cases answer with
      | stop status u =>
        cases hround
        exact (askSub_stop hsub hat (hfit _) hask).1
      | go u =>
        obtain ⟨bytes, -, -, hsome, -, hfront, -⟩ := askSub_go hsub hat (hfit _) hask
        rw [List.drop_length] at hfront
        exact absurd (List.prefix_nil.mp hfront) hsome

/-- Where the buffer begins once a round is complete. -/
theorem round_start (h : r.Inv pss line w t next k) (hdone : r.roundRead = r.roundReq) :
    (r.cbStart + r.roundRead) % r.cbSize = line * (next % (pss.chroma + 1)) := by
  rw [hdone, h.req, h.start, h.size]
  rcases next with - | next
  · rw [if_pos rfl]
    simp
  · rw [if_neg (Nat.succ_ne_zero _), Nat.add_sub_cancel, ← Nat.mul_succ, Nat.mul_mod_mul_left,
      Nat.succ_eq_add_one, Nat.mod_add_mod]

/-- The cells of a channel of the line that is put together. -/
theorem channel_cell (h : r.Inv pss line w t next k) (hdone : r.roundRead = r.roundReq)
    (ht : t ≤ w.length) {offset c i : Nat} (hoffset : offset ≤ pss.chroma)
    (hi : c * (line / 3) + i < line) :
    readCell r.cbuf (((r.cbStart + r.roundRead) % r.cbSize + (offset * line + c * (line / 3))) %
      r.cbSize + i : Nat) = some (w.getD (line * (next + offset) + c * (line / 3) + i) 0) := by
  have hbegins := h.begins
  have hplace : ((r.cbStart + r.roundRead) % r.cbSize + (offset * line + c * (line / 3))) %
      r.cbSize + i =
      (line * (next + offset) + (c * (line / 3) + i)) % (line * (pss.chroma + 1)) := by
    rw [round_start h hdone, h.size, place_mod hi, Nat.mul_comm offset, ← Nat.add_assoc,
      ← Nat.mul_add, place_mod (by omega), Nat.mod_add_mod, Nat.add_assoc]
  have hread := @readCell_window w r.cbuf t (line * (next + offset) + (c * (line / 3) + i)) h.window
  have hlate : line * (next + offset) ≤ line * (next + pss.chroma) :=
    Nat.mul_le_mul_left _ (Nat.add_le_add_left hoffset _)
  have hlines : line * (pss.chroma + 1 + next) = line * (next + pss.chroma) + line := by
    rw [← Nat.mul_succ]
    congr 1
    omega
  have hcells : line * (next + pss.chroma) + line = line * next + line * (pss.chroma + 1) := by
    rw [← Nat.mul_succ, ← Nat.mul_add]
    rfl
  rw [h.cells, ← hplace] at hread
  rw [Nat.add_assoc]
  apply hread
  · omega
  · have hfrom := Nat.mul_le_mul_left line (Nat.le_add_right next offset)
    omega
  · exact ht

/-- The line that is put together is the line of the output. -/
theorem route_xbuf (h : r.Inv pss line w t next k) (hroutable : Routable pss line)
    (hdone : r.roundRead = r.roundReq) (ht : t ≤ w.length) :
    (r.route pss.bppScan).xbuf = (routedLine pss line (w.getD · 0) next).map some := by
  have hnonempty := hroutable.nonempty
  have hxcells := h.xcells
  have hcell := fun {offset c i : Nat} => @channel_cell w line pss r t next k h hdone ht offset c i
  unfold RGBRouter.route routedLine
  simp only [h.offsets, h.lineSize]
  rw [overwrite, List.take_zero, List.nil_append, Nat.zero_add,
    List.drop_eq_nil_of_le (by rw [length_routeCells hroutable, hxcells]), List.append_nil]
  apply routeCells_map hroutable
  · intro i hi
    have hred := @hcell pss.chromaOffset.1 0 i hroutable.red (by omega)
    simp only [Nat.zero_mul, Nat.add_zero] at hred ⊢
    exact hred
  · intro i hi
    have hgreen := @hcell pss.chromaOffset.2.1 1 i hroutable.green (by omega)
    simp only [Nat.one_mul] at hgreen ⊢
    exact hgreen
  · intro i hi
    exact @hcell pss.chromaOffset.2.2 2 i hroutable.blue (by omega)

theorem route_inv (h : r.Inv pss line w t next k) (hroutable : Routable pss line)
    (hfull : r.pos = line) (hdone : r.roundRead = r.roundReq) (ht : t ≤ w.length) :
    (r.route pss.bppScan).Inv pss line w t (next + 1) k := by
  have hxbuf := route_xbuf h hroutable hdone ht
  refine ⟨h.size, h.lineSize, h.offsets, h.cells, ?_, ?_, Nat.zero_le _, ?_, ?_, h.window,
    Nat.zero_le _, ?_, ?_, h.fresh⟩
  · rw [hxbuf, List.length_map, length_routedLine hroutable]
  · rw [if_neg (Nat.succ_ne_zero _)]
    exact h.lineSize
  · have hbegins := h.begins
    show t + r.cbLineSize = line * (pss.chroma + 1 + (next + 1)) + 0
    rw [h.lineSize, ← Nat.add_assoc, Nat.mul_succ]
    omega
  · exact round_start h hdone
  · have hcount := h.count
    show k + line = line * (next + 1) + 0
    rw [Nat.mul_succ]
    omega
  · intro _
    exact ⟨Nat.succ_pos _, rfl, hxbuf⟩

/-- No more lines are put together than the input determines. -/
theorem lines_le (h : r.Inv pss line w t next k) (hnonempty : 0 < line)
    (ht : t ≤ w.length) (hnext : 0 < next) : pss.chroma + next ≤ w.length / line := by
  have hbegins := h.begins
  have hreq := h.req
  rw [if_neg (by omega)] at hreq
  rw [Nat.le_div_iff_mul_le hnonempty, Nat.mul_comm]
  have hlines : line * (pss.chroma + 1 + next) = line * (pss.chroma + next) + line := by
    rw [← Nat.mul_succ]
    congr 1
    omega
  omega

theorem routerPortion_length (h : r.Inv pss line w t next k) (n : Nat) :
    (r.portion n).length = min n (line - r.pos) := by
  rw [RGBRouter.portion, List.length_take, List.length_drop, List.length_take, h.lineSize, h.xcells,
    Nat.min_self]

/-- Bytes of the line that is there are copied. -/
theorem copied_inv (h : r.Inv pss line w t next k) (hroutable : Routable pss line)
    (ht : t ≤ w.length) (hpos : r.pos < line) (n : Nat) :
    ((r.portion n).map (·.getD 0)).length ≤ n ∧
      (r.portion n).map (·.getD 0) <+: (routedImage pss line w).drop k ∧
      (r.copied n).Inv pss line w t next (k + ((r.portion n).map (·.getD 0)).length) := by
  obtain ⟨hnext, hread, hxbuf⟩ := h.held hpos
  have hlines := lines_le h hroutable.nonempty ht hnext
  have hlen := length_routedLine hroutable (w.getD · 0) (next - 1)
  have hportion : r.portion n =
      (((routedLine pss line (w.getD · 0) (next - 1)).drop r.pos).take n).map some := by
    have hall := List.take_of_length_le hlen.le
    rw [RGBRouter.portion, h.lineSize, hxbuf, ← List.map_take, hall, List.map_take, List.map_drop]
  have hbytes : (r.portion n).map (·.getD 0) =
      ((routedLine pss line (w.getD · 0) (next - 1)).drop r.pos).take n := by
    rw [hportion, List.map_map]
    exact List.map_id _
  have hk : k = line * (next - 1) + r.pos := by
    have hcount := h.count
    obtain ⟨m, rfl⟩ := Nat.exists_eq_succ_of_ne_zero hnext.ne'
    rw [Nat.mul_succ] at hcount
    rw [Nat.succ_sub_one]
    omega
  have hinside : r.pos + (r.portion n).length ≤ line := by
    rw [hportion, List.length_map, List.length_take, List.length_drop, hlen]
    omega
  refine ⟨?_, ?_, ⟨h.size, h.lineSize, h.offsets, h.cells, h.xcells, h.req, h.read, h.begins,
    h.start, h.window, hinside, ?_, fun _ => ⟨hnext, hread, hxbuf⟩, ?_⟩⟩
  · rw [hbytes]
    exact List.length_take_le _ _
  · rw [hbytes, hk, ← List.drop_drop]
    refine (List.take_prefix _ _).trans ?_
    apply List.IsPrefix.drop
    exact prefix_drop_flatMap (length_routedLine hroutable _) (by omega)
  · have hcount := h.count
    rw [List.length_map]
    show k + (r.portion n).length + line = line * next + (r.pos + (r.portion n).length)
    omega
  · show (r.stale || (r.portion n).any Option.isNone) = false
    rw [h.fresh, Bool.false_or, hportion, List.any_map]
    exact List.any_eq_false.mpr fun _ _ => Bool.false_ne_true

theorem router_refill {s : RGBRouter × σ} {answer : Refill (RGBRouter × σ)}
    (hrefill : RGBRouter.refill pss psub s = some answer) :
    s.1.pos < s.1.cbLineSize ∧ answer = .go s ∨ s.1.cbLineSize ≤ s.1.pos ∧
      ((∃ status u, RGBRouter.readRound psub (s.1.cbSize + 1) s = some (.stop status u) ∧
          answer = .stop status u) ∨
        ∃ u, RGBRouter.readRound psub (s.1.cbSize + 1) s = some (.go u) ∧
          answer = .go (u.1.route pss.bppScan, u.2)) := by
  unfold RGBRouter.refill at hrefill
  split_ifs at hrefill with hfetch
  · refine .inr ⟨hfetch, ?_⟩
    cases hround : RGBRouter.readRound psub (s.1.cbSize + 1) s with
    | none =>
      rw [hround] at hrefill
      cases hrefill
    | some round =>
      rw [hround] at hrefill
      cases round with
      | stop status u =>
        cases hrefill
        exact .inl ⟨status, u, rfl, rfl⟩
      | go u =>
        cases hrefill
        exact .inr ⟨u, rfl, rfl⟩
  · cases hrefill
    exact .inl ⟨Nat.lt_of_not_le hfetch, rfl⟩

/-- What a round needs is there as long as lines are missing. -/
theorem router_round_le (hroutable : Routable pss line) (h : r.Inv pss line w t next k)
    (hfull : r.pos = line) (hk : k < (routedImage pss line w).length) :
    t + (r.roundReq - r.roundRead) ≤ w.length := by
  have hbegins := h.begins
  have hread := h.read
  have hk' : k = line * next := by
    have := h.count
    omega
  rw [length_routedImage hroutable, hk'] at hk
  have hnext := Nat.lt_of_mul_lt_mul_left hk
  have hall : line * (pss.chroma + 1 + next) ≤ line * (w.length / line) :=
    Nat.mul_le_mul_left _ (by omega)
  have hlines := Nat.mul_div_le w.length line
  omega

/-- Data that comes at once does not stop inside of a round. -/
theorem router_stop_atOnce (hwhole : line ∣ w.length)
    (hsub : Delivers psub.toPullSource SaneStatus.good w slack subFit subAt)
    (hanswers : Answers psub.toPullSource SaneStatus.good w subFit subAt prompt)
    (hfit : ∀ e, subFit e) {s s' : RGBRouter × σ} (hat : subAt s.2 t) (hprompt : prompt s.2)
    (h : s.1.Inv pss line w t next k) (hmore : s.1.roundRead < s.1.roundReq)
    (hnone : s.1.roundRead = 0) (hlines : pss.chroma < w.length / line) {fuel : Nat}
    (hround : RGBRouter.readRound psub (fuel + 1) s = some (.stop .good s')) :
    s'.1.roundRead = 0 := by
  have hbegins := h.begins
  have hreq := h.req
  have ht := hsub.le hat
  have hwhole' := Nat.mul_div_cancel' hwhole
  rcases Nat.lt_or_ge (pss.chroma + next) (w.length / line) with hmissing | hall
  · have hle : line * (pss.chroma + 1 + next) ≤ line * (w.length / line) :=
      Nat.mul_le_mul_left _ (by omega)
    obtain ⟨u, hu, -⟩ := readRound_full fuel hanswers hfit hat hprompt hmore
      (by omega)
    rw [hu] at hround
    cases hround
  · -- all lines have been put together, so that nothing is left
    have hnext : next ≠ 0 := by omega
    rw [if_neg hnext] at hreq
    have hend : line * (w.length / line) ≤ line * (pss.chroma + next) := Nat.mul_le_mul_left _ hall
    have hlast : line * (pss.chroma + 1 + next) = line * (pss.chroma + next) + line := by
      rw [← Nat.mul_succ]
      congr 1
      omega
    have hread : t = w.length := by omega
    rw [hread] at hat
    rw [readRound_end hsub hfit hat hround, hnone]

theorem router_transforms (hroutable : Routable pss line) (hwhole : line ∣ w.length)
    (hsub : Delivers psub.toPullSource SaneStatus.good w slack subFit subAt)
    (hanswers : Answers psub.toPullSource SaneStatus.good w subFit subAt prompt)
    (hprompt : atOnce → ∀ {s k}, subAt s k → prompt s) (hfit : ∀ e, subFit e) :
    Transforms (RGBRouter.refill pss psub)
      (fun s n => ((s.1.portion n).map (·.getD 0), (s.1.copied n, s.2)))
      (routedImage pss line w) fit (RGBRouter.At pss line w fit atOnce subAt)
      (RGBRouter.Ready pss line w subAt) where
  stop {s k s'} h hrefill := by
    obtain ⟨⟨t, next, hat, hinv, hmore⟩, -, hnone⟩ := h
    rcases router_refill hrefill with ⟨-, heq⟩ | ⟨hfetch, ⟨status, u, hround, heq⟩ | ⟨u, -, heq⟩⟩
    · cases heq
    · cases heq
      rw [hinv.lineSize] at hfetch
      have hfull := le_antisymm hinv.pos hfetch
      obtain ⟨hwithin, hpos⟩ := readRound_stop hsub hfit hat hinv hfull hmore hround
      refine ⟨hwithin, .inl hpos, fun honce hlines => ?_⟩
      exact router_stop_atOnce hwhole hsub hanswers hfit hat (hprompt honce hat) hinv hmore
        (hnone honce hlines) hlines hround
    · cases heq
  go {s k s'} h hrefill := by
    obtain ⟨⟨t, next, hat, hinv, hmore⟩, -⟩ := h
    rcases router_refill hrefill with ⟨hpos, heq⟩ | ⟨hfetch, ⟨status, u, -, heq⟩ | ⟨u, hround, heq⟩⟩
    · cases heq
      rw [hinv.lineSize] at hpos
      exact ⟨⟨t, next, hat, hinv, hmore⟩, hpos⟩
    · cases heq
    · cases heq
      rw [hinv.lineSize] at hfetch
      have hfits := round_fits hinv
      have hfull := le_antisymm hinv.pos hfetch
      obtain ⟨t', hat', hinv', hfull', hdone⟩ :=
        readRound_go hsub hfit hat hinv hfull hmore (by rw [hinv.size]; omega) hround
      have hroute := route_inv hinv' hroutable hfull' hdone (hsub.le hat')
      refine ⟨⟨t', next + 1, hat', hroute, ?_⟩, hroutable.nonempty⟩
      show 0 < u.1.cbLineSize
      rw [hinv'.lineSize]
      exact hroutable.nonempty
  makes {s k n} h hn hend := by
    obtain ⟨⟨t, next, hat, hinv, hmore⟩, hpos⟩ := h
    obtain ⟨hlen, hfront, hcopied⟩ := copied_inv hinv hroutable (hsub.le hat) hpos n
    have hportion := routerPortion_length hinv n
    have hread := (hinv.held hpos).2.1
    refine ⟨hlen, hfront, ⟨t, next, hat, hcopied, hmore⟩, ?_, fun _ _ => hread⟩
    show s.1.pos + (s.1.portion n).length = line ∨ 0 < s.1.pos + (s.1.portion n).length ∧ _
    rw [List.length_map, hportion]
    rcases Nat.le_total (line - s.1.pos) n with hrest | hpart
    · rw [Nat.min_eq_right hrest]
      omega
    · rw [Nat.min_eq_left hpart]
      exact .inr ⟨by omega, hend⟩

/-! ### What remains -/

/-- The router counts on whole rounds of the first size, though less than that remains, and
    it holds a part of a line, or a part of the first round of an input with more. -/
def RGBRouter.Forgets (psub : Source σ) (total : Nat) (s : RGBRouter × σ) : Prop :=
  s.1.roundReq = s.1.cbSize ∧ psub.remaining s.2 + s.1.cbLineSize ≤ s.1.cbSize ∧
    (s.1.pos < s.1.cbLineSize ∨ 0 < s.1.roundRead ∧ s.1.cbSize ≤ total)

/-- What `RGBRouter_remaining` returns, in terms of what has been given. -/
theorem router_remaining (hroutable : Routable pss line)
    (hbuffer : line * (pss.chroma + 1) < 2 ^ 31) (hsmall : w.length + slack < 2 ^ 31)
    (hsub : Delivers psub.toPullSource SaneStatus.good w slack subFit subAt)
    (hcounts : Counts psub.toPullSource w subAt) {s : RGBRouter × σ} (hat : subAt s.2 t)
    (h : s.1.Inv pss line w t next k) :
    RGBRouter.remaining psub s =
      if next = 0 ∨ pss.chroma = 0 then psub.remaining s.2 - line * pss.chroma
      else psub.remaining s.2 + line - s.1.pos := by
  have hbound : psub.remaining s.2 + t ≤ w.length + slack := hsub.remaining_le hat
  have hcount : (w.length : Int) ≤ t + psub.remaining s.2 := hcounts hat
  have hle := hsub.le hat
  have hpos := h.pos
  have hnonempty := hroutable.nonempty
  have hbegins := h.begins
  have hreq := h.req
  have hsize : line * (pss.chroma + 1) = line * pss.chroma + line := Nat.mul_succ ..
  unfold RGBRouter.remaining
  rw [h.size, h.lineSize, hreq]
  have hmul : (line * pss.chroma : Int) = (line * pss.chroma : Nat) := (Nat.cast_mul ..).symm
  rw [hmul]
  by_cases hfirst : next = 0 ∨ pss.chroma = 0
  · have hround : (if next = 0 then line * (pss.chroma + 1) else line) =
        line * (pss.chroma + 1) := by
      rcases hfirst with rfl | hchroma
      · rw [if_pos rfl]
      · rw [hchroma, Nat.zero_add, Nat.mul_one, ite_self]
    rw [if_pos hround, if_pos hfirst, saneInt_of_lt (by omega) (by omega)]
    omega
  · rw [not_or] at hfirst
    have hmore : 0 < line * pss.chroma := Nat.mul_pos hnonempty (Nat.pos_of_ne_zero hfirst.2)
    have hread : line * (pss.chroma + 1 + next) = line * (pss.chroma + 1) + line * next :=
      Nat.mul_add ..
    have hlines : line ≤ line * next := Nat.le_mul_of_pos_right _ (Nat.pos_of_ne_zero hfirst.1)
    rw [if_neg hfirst.1] at hreq ⊢
    rw [if_neg (by omega), if_neg (not_or.mpr hfirst), saneInt_of_lt (by omega) (by omega)]

/-- As long as lines are to be put together, the source below has what they need. -/
theorem router_lines_left (hroutable : Routable pss line) (hwhole : line ∣ w.length)
    (hcounts : Counts psub.toPullSource w subAt) {s : RGBRouter × σ} (hat : subAt s.2 t)
    (h : s.1.Inv pss line w t next k) (hfull : s.1.pos = line)
    (hk : k < (routedImage pss line w).length) :
    (s.1.roundReq : Int) ≤ s.1.roundRead + psub.remaining s.2 ∧
      line * (pss.chroma + 1) ≤ w.length := by
  have hcount : (w.length : Int) ≤ t + psub.remaining s.2 := hcounts hat
  have hbegins := h.begins
  have hk' : k = line * next := by
    have := h.count
    omega
  obtain ⟨lines, hlines⟩ := hwhole
  rw [length_routedImage hroutable, hk', hlines, Nat.mul_div_cancel_left _ hroutable.nonempty] at hk
  have hnext := Nat.lt_of_mul_lt_mul_left hk
  have hall : line * (pss.chroma + 1 + next) ≤ line * lines := Nat.mul_le_mul_left _ (by omega)
  have hfirst : line * (pss.chroma + 1) ≤ line * lines := Nat.mul_le_mul_left _ (by omega)
  omega

/-- Unless the router forgets what it holds, it says that bytes remain as long as some do. -/
theorem router_remaining_pos (hroutable : Routable pss line) (hwhole : line ∣ w.length)
    (hbuffer : line * (pss.chroma + 1) < 2 ^ 31) (hsmall : w.length + slack < 2 ^ 31)
    (hsub : Delivers psub.toPullSource SaneStatus.good w slack subFit subAt)
    (hcounts : Counts psub.toPullSource w subAt) {s : RGBRouter × σ} (hat : subAt s.2 t)
    (h : s.1.Inv pss line w t next k) (hmore : s.1.roundRead < s.1.roundReq)
    (hforgets : ¬ RGBRouter.Forgets psub w.length s) (hk : k < (routedImage pss line w).length) :
    0 < RGBRouter.remaining psub s := by
  have hcount : (w.length : Int) ≤ t + psub.remaining s.2 := hcounts hat
  have hle := hsub.le hat
  have hpos := h.pos
  have hnonempty := hroutable.nonempty
  have hleft := fun hfull => router_lines_left hroutable hwhole hcounts hat h hfull hk
  have hreq := h.req
  have hsize : line * (pss.chroma + 1) = line * pss.chroma + line := Nat.mul_succ ..
  have hmul : (line * pss.chroma : Int) = (line * pss.chroma : Nat) := (Nat.cast_mul ..).symm
  rw [router_remaining hroutable hbuffer hsmall hsub hcounts hat h]
  by_cases hfirst : next = 0 ∨ pss.chroma = 0
  · have hround : s.1.roundReq = line * (pss.chroma + 1) := by
      rw [hreq]
      rcases hfirst with rfl | hchroma
      · rw [if_pos rfl]
      · rw [hchroma, Nat.zero_add, Nat.mul_one, ite_self]
    rw [if_pos hfirst, hmul]
    by_contra hnone
    apply hforgets
    unfold RGBRouter.Forgets
    rw [h.size, h.lineSize]
    refine ⟨hround, by omega, ?_⟩
    rcases Nat.lt_or_ge s.1.pos line with hinside | hfull
    · exact .inl hinside
    · have := hleft (le_antisymm hpos hfull)
      right
      omega
  · rw [if_neg hfirst]
    rcases Nat.lt_or_ge s.1.pos line with hinside | hfull
    · omega
    · have := hleft (le_antisymm hpos hfull)
      omega

/-- The lines that are late have been read before the first one is put together. -/
theorem router_read_le (h : r.Inv pss line w t next k) :
    next = 0 ∨ line * pss.chroma + line * next ≤ t := by
  have hbegins := h.begins
  have hreq := h.req
  rw [Nat.mul_add, Nat.mul_succ] at hbegins
  rcases Nat.eq_zero_or_pos next with hzero | hnext
  · exact .inl hzero
  · rw [if_neg (by omega)] at hreq
    right
    omega

/-- Where the requests may end: with a buffer of one line, not inside of the last line. -/
def RGBRouter.Fit (pss : SnapScanScanner) (line total e : Nat) : Prop :=
  pss.chroma = 0 → e + line ≤ total ∨ total ≤ e

/-- The first round is not interrupted when no more than `chroma` lines are left. -/
def RGBRouter.Fills (pss : SnapScanScanner) (lines : Nat) (atOnce : Prop) : Prop :=
  lines ≤ pss.chroma ∨ 2 * pss.chroma < lines ∨ atOnce

theorem router_not_forgets (hroutable : Routable pss line) (hwhole : line ∣ w.length)
    (hcounts : Counts psub.toPullSource w subAt)
    (hsub : Delivers psub.toPullSource SaneStatus.good w slack subFit subAt)
    (hfills : RGBRouter.Fills pss (w.length / line) atOnce) {s : RGBRouter × σ}
    (h : RGBRouter.At pss line w
      (RGBRouter.Fit pss line (routedImage pss line w).length) atOnce subAt s k)
    (hk : k < (routedImage pss line w).length) : ¬ RGBRouter.Forgets psub w.length s := by
  obtain ⟨⟨t, next, hat, hinv, hmore⟩, hends, hnone⟩ := h
  rintro ⟨hround, hrest, hheld⟩
  have hcount : (w.length : Int) ≤ t + psub.remaining s.2 := hcounts hat
  have hle := hsub.le hat
  have hbegins := hinv.begins
  have hreq := hinv.req
  have hpos := hinv.pos
  have hgiven := hinv.count
  have hnonempty := hroutable.nonempty
  have hlines := Nat.mul_div_cancel' hwhole
  have hsize : line * (pss.chroma + 1) = line * pss.chroma + line := Nat.mul_succ ..
  have hdrop : line * (pss.chroma + 1 + next) = line * pss.chroma + line + line * next := by
    rw [Nat.mul_add, hsize]
  rw [length_routedImage hroutable] at hk hends
  rw [hinv.size, hinv.lineSize] at hrest
  rw [hinv.size] at hround hheld
  rw [hinv.lineSize] at hheld
  have hsome : pss.chroma < w.length / line := by
    by_contra hfew
    rw [Nat.sub_eq_zero_of_le (Nat.le_of_not_lt hfew), Nat.mul_zero] at hk
    exact absurd hk (Nat.not_lt_zero k)
  rcases Nat.eq_zero_or_pos next with rfl | hnext
  · have hfull : s.1.pos = line := by
      by_contra hpart
      exact absurd (hinv.held (lt_of_le_of_ne hpos hpart)).1 (lt_irrefl 0)
    have hread : 0 < s.1.roundRead := by
      rcases hheld with hpart | ⟨hread, -⟩
      · omega
      · exact hread
    rcases hfills with hfew | hmany | honce
    · omega
    · have hlong : line * (2 * pss.chroma + 1) ≤ line * (w.length / line) :=
        Nat.mul_le_mul_left _ hmany
      have htwice : line * (2 * pss.chroma + 1) = 2 * (line * pss.chroma) + line := by
        rw [Nat.mul_succ, Nat.mul_left_comm]
      omega
    · have := hnone honce hsome
      omega
  · rw [if_neg hnext.ne'] at hreq
    have hchroma : pss.chroma = 0 := by
      by_contra hne
      have := Nat.mul_pos hnonempty (Nat.pos_of_ne_zero hne)
      omega
    rw [hchroma, Nat.zero_add, Nat.mul_one] at hrest
    rw [hchroma, Nat.zero_add] at hbegins hdrop
    rw [Nat.mul_zero] at hdrop
    rw [hchroma, Nat.sub_zero, hlines] at hk hends
    rw [hchroma, Nat.mul_zero] at hsize
    -- all of the input has been read, so that no part of a round is there
    have hall : t = w.length := by omega
    have hwhole' : line ∣ s.1.roundRead := by
      have hsum : w.length = line * next + s.1.roundRead := by omega
      exact (Nat.dvd_add_right (Nat.dvd_mul_right line next)).mp (hsum ▸ hwhole)
    have hnothing : s.1.roundRead = 0 := Nat.eq_zero_of_dvd_of_lt hwhole' (by omega)
    rcases hends with hfull | ⟨hsome, hfit⟩
    · omega
    · rcases hfit hchroma with hbefore | hbehind
      · omega
      · omega

theorem router_next_le (hroutable : Routable pss line) (h : r.Inv pss line w t next k)
    (ht : t ≤ w.length) : line * next ≤ (routedImage pss line w).length := by
  rw [length_routedImage hroutable]
  rcases Nat.eq_zero_or_pos next with rfl | hnext
  · exact Nat.zero_le _
  · have hlines := lines_le h hroutable.nonempty ht hnext
    exact Nat.mul_le_mul_left _ (by omega)

/-- The router gives the lines that are put together from what the source below it gives. -/
theorem router_delivers (hroutable : Routable pss line) (hwhole : line ∣ w.length)
    (hbuffer : line * (pss.chroma + 1) < 2 ^ 31) (hsmall : w.length + slack < 2 ^ 31)
    (hsub : Delivers psub.toPullSource SaneStatus.good w slack subFit subAt)
    (hanswers : Answers psub.toPullSource SaneStatus.good w subFit subAt prompt)
    (hprompt : atOnce → ∀ {s k}, subAt s k → prompt s) (hfit : ∀ e, subFit e)
    (hcounts : Counts psub.toPullSource w subAt)
    (hfills : RGBRouter.Fills pss (w.length / line) atOnce) :
    Delivers (routerSource pss psub).toPullSource SaneStatus.good (routedImage pss line w) slack
      (RGBRouter.Fit pss line (routedImage pss line w).length)
      (RGBRouter.At pss line w (RGBRouter.Fit pss line (routedImage pss line w).length) atOnce
        subAt) := by
  have hsize : line * (pss.chroma + 1) = line * pss.chroma + line := Nat.mul_succ ..
  have hmul : (line * pss.chroma : Int) = (line * pss.chroma : Nat) := (Nat.cast_mul ..).symm
  refine ⟨?_, ?_, ?_, ?_, ?_⟩
  · rintro s k ⟨⟨t, next, hat, hinv, -⟩, -⟩
    have hnext := router_next_le hroutable hinv (hsub.le hat)
    have hcount := hinv.count
    have hpos := hinv.pos
    omega
  · intro s k n xs s' h hend hget
    exact transformLoop_gives
      (router_transforms hroutable hwhole hsub hanswers hprompt hfit) h hend hget
  · intro s k h hk
    have hforgets := router_not_forgets hroutable hwhole hcounts hsub hfills h hk
    obtain ⟨⟨t, next, hat, hinv, hmore⟩, -⟩ := h
    exact router_remaining_pos hroutable hwhole hbuffer hsmall hsub hcounts hat hinv hmore hforgets
      hk
  · rintro s k ⟨⟨t, next, hat, hinv, -⟩, -⟩ hk
    have hremaining := router_remaining hroutable hbuffer hsmall hsub hcounts hat hinv
    have hcount : (w.length : Int) ≤ t + psub.remaining s.2 := hcounts hat
    have hle := hsub.le hat
    have hpos := hinv.pos
    have hgiven := hinv.count
    show 0 ≤ RGBRouter.remaining psub s
    rw [hremaining]
    split_ifs with hfirst
    · rcases hfirst with rfl | hchroma
      · omega
      · rw [hchroma]
        omega
    · omega
  · rintro s k ⟨⟨t, next, hat, hinv, -⟩, -⟩
    have hremaining := router_remaining hroutable hbuffer hsmall hsub hcounts hat hinv
    have hbound : psub.remaining s.2 + t ≤ w.length + slack := hsub.remaining_le hat
    have hgiven := hinv.count
    have hpos := hinv.pos
    have himage : w.length ≤ (routedImage pss line w).length + line * pss.chroma := by
      obtain ⟨lines, hlines⟩ := hwhole
      rw [length_routedImage hroutable, hlines, Nat.mul_div_cancel_left _ hroutable.nonempty,
        ← Nat.mul_add]
      exact Nat.mul_le_mul_left _ (by omega)
    show RGBRouter.remaining psub s + k ≤ (routedImage pss line w).length + slack
    rw [hremaining]
    rcases router_read_le hinv with rfl | hread
    · rw [if_pos (.inl rfl)]
      omega
    · split_ifs
      · omega
      · omega

/-- Data is there when a byte is missing. -/
theorem router_refill_prompt (hroutable : Routable pss line)
    (hanswers : Answers psub.toPullSource SaneStatus.good w subFit subAt prompt)
    (hfit : ∀ e, subFit e) {s : RGBRouter × σ}
    (h : RGBRouter.Within pss line w subAt s k) (hprompt : prompt s.2)
    (hk : k < (routedImage pss line w).length) :
    ∃ s', RGBRouter.refill pss psub s = some (.go s') ∧ prompt s'.2 := by
  obtain ⟨t, next, hat, hinv, hmore⟩ := h
  unfold RGBRouter.refill
  split_ifs with hfetch
  · rw [hinv.lineSize] at hfetch
    obtain ⟨u, hu, hprompt'⟩ := readRound_full s.1.cbSize hanswers hfit hat hprompt hmore
      (router_round_le hroutable hinv (le_antisymm hinv.pos hfetch) hk)
    rw [hu]
    exact ⟨_, rfl, hprompt'⟩
  · exact ⟨s, rfl, hprompt⟩

/-- Above a prompt source it gives all that it is asked for. -/
theorem router_answers (hroutable : Routable pss line) (hwhole : line ∣ w.length)
    (hsub : Delivers psub.toPullSource SaneStatus.good w slack subFit subAt)
    (hanswers : Answers psub.toPullSource SaneStatus.good w subFit subAt prompt)
    (hprompt : atOnce → ∀ {s k}, subAt s k → prompt s) (hfit : ∀ e, subFit e)
    (hdelivers : Delivers (routerSource pss psub).toPullSource SaneStatus.good
      (routedImage pss line w) slack fit (RGBRouter.At pss line w fit atOnce subAt)) :
    Answers (routerSource pss psub).toPullSource SaneStatus.good (routedImage pss line w) fit
      (RGBRouter.At pss line w fit atOnce subAt) (fun s => prompt s.2) := by
  intro s k n h hready hn hle hend
  refine transformLoop_full (router_transforms hroutable hwhole hsub hanswers hprompt hfit)
    ⟨hdelivers.remaining_pos, ?_, ?_, fun h => h⟩ h hready le_rfl hle hend
  · intro s k h hready hk
    exact router_refill_prompt hroutable hanswers hfit h.1 hready hk
  · rintro s k n ⟨⟨t, next, hat, hinv, -⟩, hpos⟩ hn
    apply List.ne_nil_of_length_pos
    rw [List.length_map, routerPortion_length hinv]
    omega

/-- Asked for a line at the end of one, the router gives it or nothing. -/
theorem router_lines (hroutable : Routable pss line) (hwhole : line ∣ w.length)
    (hsub : Delivers psub.toPullSource SaneStatus.good w slack subFit subAt)
    (hanswers : Answers psub.toPullSource SaneStatus.good w subFit subAt prompt)
    (hfit : ∀ e, subFit e) :
    GivesLines (routerSource pss psub) line (RGBRouter.At pss line w fit atOnce subAt) := by
  rintro s k bytes s' ⟨hwithin, hends, -⟩ hk hget
  have hat : RGBRouter.At pss line w (fun e => line ∣ e) False subAt s k :=
    ⟨hwithin, hends.imp id fun h => ⟨h.1, hk⟩, False.elim⟩
  have htransforms := @router_transforms _ psub w slack line _ (fun e => line ∣ e) _ _ False pss
    hroutable hwhole hsub hanswers False.elim hfit
  obtain ⟨-, -, ⟨t, next, -, hinv, -⟩, hends', -⟩ :=
    (transformLoop_gives htransforms hat (Nat.dvd_add hk (dvd_refl line)) hget).piece
  rcases hends' with hfull | ⟨-, hdvd⟩
  · have hcount := hinv.count
    have hend : k + bytes.length = line * next := by omega
    exact (Nat.dvd_add_right hk).mp (hend ▸ Nat.dvd_mul_right line next)
  · exact (Nat.dvd_add_right hk).mp hdvd

theorem router_init (hroutable : Routable pss psub.bytesPerLine) {s : σ} (h : subAt s 0) :
    RGBRouter.At pss psub.bytesPerLine w fit atOnce subAt (RGBRouter.init pss psub, s) 0 := by
  have hnonempty := hroutable.nonempty
  refine ⟨?_, .inl rfl, fun _ _ => rfl⟩
  refine ⟨0, 0, h, ⟨rfl, rfl, rfl, List.length_replicate, List.length_replicate, rfl,
    Nat.zero_le _, ?_, ?_, window_zero, le_rfl, ?_, ?_, rfl⟩, ?_⟩
  · show 0 + psub.bytesPerLine * (pss.chroma + 1) = psub.bytesPerLine * (pss.chroma + 1 + 0) + 0
    rw [Nat.zero_add]
    rfl
  · show 0 = psub.bytesPerLine * ((0 - 1) % (pss.chroma + 1))
    simp
  · show 0 + psub.bytesPerLine = psub.bytesPerLine * 0 + psub.bytesPerLine
    omega
  · intro hpos
    exact absurd hpos (lt_irrefl _)
  · show 0 < psub.bytesPerLine * (pss.chroma + 1)
    exact Nat.mul_pos hnonempty (Nat.succ_pos _)

end

end SaneBackends

import SaneBackends.FujitsuSides

/-!
# The calls of a `fujitsu` scan

The invariant of the sides through `sane_read` and `sane_start`, and which side is next: a new
sheet is fed when the frontend has got all of the one before.
-/

namespace SaneBackends.FujitsuBuffer

open DrainBuffer DuplexSides FaultState LabelledRun

variable {c : Config} {page : Page} {ts : List Transfer} {side : Side} {d d' : SideState}
  {q : List SaneByte} {s s' : Scanner c} {ret : SaneStatus} {inp : ReadInput} {maxLen : Nat}
  {out : Outcome}

theorem Page.send_nil (page : Page) : page.send [] = page := by
  rw [Page.send, List.append_nil]

theorem Page.send_send (page : Page) (ts us : List Transfer) :
    (page.send ts).send us = page.send (ts ++ us) := by
  rw [Page.send, Page.send, Page.send, List.append_assoc]

theorem Page.deliver_nil (page : Page) (side : Side) : page.deliver side [] = page := by
  cases side <;> simp [Page.deliver, Sides.set, Sides.get]

/-! ### Reading -/

theorem readBlocks_safe (h : Safe s) (inp : ReadInput) :
    ∃ r, readBlocks s inp = .ok r ∧ Safe r.2.2 := by
  rw [readBlocks]
  split
  · obtain ⟨⟨ret, front, s₁⟩, hfront, h₁⟩ := readFromScanner_safe h .front inp.front
    rw [hfront]
    dsimp only [Bind.bind, Except.bind]
    split
    · exact ⟨_, rfl, h₁⟩
    split
    · obtain ⟨⟨ret, back, s₂⟩, hback, h₂⟩ := readFromScanner_safe h₁ .back inp.back
      exact ⟨_, bind_eq_ok.mpr ⟨_, hback, rfl⟩, h₂⟩
    · exact ⟨_, rfl, h₁⟩
  · exact readFromScanner_safe h s.side (inp.get s.side)

theorem readBlocks_ne_eof (hblocks : readBlocks s inp = .ok (ret, ts, s')) : ret ≠ .eof := by
  rw [readBlocks] at hblocks
  split at hblocks
  · obtain ⟨⟨ret₁, front, s₁⟩, hfront, hblocks⟩ := bind_eq_ok.mp hblocks
    dsimp only at hblocks
    split at hblocks
    · cases hblocks
      exact (readFromScanner_cases hfront).1
    split at hblocks
    · obtain ⟨⟨ret₂, back, s₂⟩, hback, hblocks⟩ := bind_eq_ok.mp hblocks
      cases hblocks
      exact (readFromScanner_cases hback).1
    · cases hblocks
      nofun
  · exact (readFromScanner_cases hblocks).1

theorem readBlocks_inv (h : Inv page s) (hstarted : s.started = true)
    (hblocks : readBlocks s inp = .ok (ret, ts, s')) (hfine : ∀ t ∈ ts, t.Whole c) :
    Inv (page.send ts) s' ∧ Frame s s' ∧
      (c.source ≠ .adfDuplex → ∀ t ∈ ts, t.side = s.side) := by
  rw [readBlocks] at hblocks
  split at hblocks
  · rename_i hduplex
    have hno : c.source ≠ .adfDuplex → ∀ t ∈ ts, t.side = s.side :=
      fun hne => absurd hduplex.1 hne
    obtain ⟨⟨ret₁, front, s₁⟩, hfront, hblocks⟩ := bind_eq_ok.mp hblocks
    dsimp only at hblocks
    split at hblocks
    · cases hblocks
      obtain ⟨hinv, hframe, -⟩ := readFromScanner_inv h hstarted hfront hfine
      exact ⟨hinv, hframe, hno⟩
    split at hblocks
    · obtain ⟨⟨ret₂, back, s₂⟩, hback, hblocks⟩ := bind_eq_ok.mp hblocks
      cases hblocks
      have hfine₁ : ∀ t ∈ front, t.Whole c := fun t ht => hfine t (List.mem_append_left _ ht)
      have hfine₂ : ∀ t ∈ back, t.Whole c := fun t ht => hfine t (List.mem_append_right _ ht)
      obtain ⟨hinv₁, hframe₁, -⟩ := readFromScanner_inv h hstarted hfront hfine₁
      obtain ⟨hinv₂, hframe₂, -⟩ :=
        readFromScanner_inv hinv₁ (hframe₁.started.trans hstarted) hback hfine₂
      rw [Page.send_send] at hinv₂
      exact ⟨hinv₂, hframe₁.trans hframe₂, hno⟩
    · cases hblocks
      obtain ⟨hinv, hframe, -⟩ := readFromScanner_inv h hstarted hfront hfine
      exact ⟨hinv, hframe, hno⟩
  · obtain ⟨hinv, hframe, hside⟩ := readFromScanner_inv h hstarted hblocks hfine
    exact ⟨hinv, hframe, fun _ => hside⟩

/-- The first bytes that are pending go to the frontend. -/
theorem readFromBuffer_eq (h : d.buffer.Holds d.buffTot q) (maxLen : Nat) :
    ∃ b : Buffer SaneByte, readFromBuffer d maxLen = .ok (q.take maxLen, { d with
        buffer := b
        bytesTx := d.bytesTx + (q.take maxLen).length }) ∧
      b.Holds d.buffTot (q.drop maxLen) := by
  have hlen := h.length
  have hremain : d.buffer.rx - d.buffer.tx = q.length := by omega
  rw [readFromBuffer, hremain]
  have hbytes : (if maxLen > q.length then q.length else maxLen) = (q.take maxLen).length := by
    rw [List.length_take]
    split <;> omega
  obtain ⟨htake, hdrop⟩ : q.take (q.take maxLen).length = q.take maxLen ∧
      q.drop (q.take maxLen).length = q.drop maxLen := by
    rcases Nat.le_total maxLen q.length with hle | hle
    · rw [List.length_take_of_le hle]
      exact ⟨rfl, rfl⟩
    · rw [List.take_of_length_le hle, List.take_length, List.drop_length,
        List.drop_of_length_le hle]
      exact ⟨rfl, rfl⟩
  dsimp only
  rw [hbytes]
  split
  · rename_i hzero
    have hnil : q.take maxLen = [] := List.length_eq_zero_iff.mp hzero
    rw [hnil]
    refine ⟨d.buffer, rfl, ?_⟩
    rw [← hdrop, hzero, List.drop_zero]
    exact h
  · have hle : (q.take maxLen).length ≤ q.length := by
      rw [List.length_take]
      exact Nat.min_le_right _ _
    obtain ⟨hfetch, hholds⟩ := h.fetch hle
    rw [htake] at hfetch
    rw [hdrop] at hholds
    rw [hfetch]
    refine ⟨_, rfl, ?_⟩
    dsimp only
    split
    · rename_i hreset
      have hempty : d.buffer.tx + (q.take maxLen).length = d.buffer.rx := hreset.1
      have hrest : d.buffer.tx + (q.take maxLen).length + (q.drop maxLen).length = d.buffer.rx :=
        hholds.length
      have hnil : q.drop maxLen = [] := List.length_eq_zero_iff.mp (by omega)
      rw [hnil] at hholds ⊢
      exact hholds.rewind
    · exact hholds

/-- What a call of `sane_read` can do. -/
theorem saneRead_cases (h : saneRead s inp maxLen = .ok (out, s')) :
    (s.started = false ∧ out = { status := .cancelled, side := s.side } ∧ s' = s) ∨
    (s.started = true ∧ ((s.sides.get s.side).eofRx = true ∧
        (s.sides.get s.side).bytesTx = (s.sides.get s.side).bytesRx) ∧
      out = { status := .eof, side := s.side } ∧
      s' = (s.setSide s.side { s.sides.get s.side with eofTx := true }).swap) ∨
    (s.started = true ∧ ¬ ((s.sides.get s.side).eofRx = true ∧
        (s.sides.get s.side).bytesTx = (s.sides.get s.side).bytesRx) ∧
      ∃ ret ts t, readBlocks s inp = .ok (ret, ts, t) ∧
        ((ret ≠ .good ∧ out = { status := ret, side := s.side, transfers := ts } ∧ s' = t) ∨
          ∃ data d, readFromBuffer (t.sides.get s.side) maxLen = .ok (data, d) ∧
            out = { status := .good, side := s.side, data, transfers := ts } ∧
            s' = (t.setSide s.side d).swap)) := by
  rw [saneRead] at h
  split at h
  · rename_i hstarted
    cases h
    exact .inl ⟨hstarted, rfl, rfl⟩
  rename_i hstarted
  rw [Bool.not_eq_false] at hstarted
  split at h
  · rename_i heof
    cases h
    exact .inr (.inl ⟨hstarted, heof, rfl, rfl⟩)
  rename_i heof
  obtain ⟨⟨ret, ts, t⟩, hblocks, h⟩ := bind_eq_ok.mp h
  refine .inr (.inr ⟨hstarted, heof, ret, ts, t, hblocks, ?_⟩)
  dsimp only at h
  split at h
  · rename_i hret
    cases h
    exact .inl ⟨hret, rfl, rfl⟩
  · obtain ⟨⟨data, d⟩, hbuffer, h⟩ := bind_eq_ok.mp h
    cases h
    exact .inr ⟨data, d, hbuffer, rfl, rfl⟩

theorem Safe.set (h : Safe s) (side : Side) (hd : ∃ q, d.buffer.Holds d.buffTot q) :
    Safe (s.setSide side d) := by
  intro i
  rcases eq_or_ne i side with rfl | hne
  · rw [get_setSide_self]
    exact hd
  · rw [get_setSide_of_ne _ hne]
    exact h i

theorem swap_sides (s : Scanner c) : s.swap.sides = s.sides := by
  rw [Scanner.swap]
  split <;> rfl

theorem swap_started (s : Scanner c) : s.swap.started = s.started := by
  rw [Scanner.swap]
  split <;> rfl

theorem swap_eomRx (s : Scanner c) : s.swap.eomRx = s.eomRx := by
  rw [Scanner.swap]
  split <;> rfl

theorem Safe.swap (h : Safe s) : Safe s.swap := by
  intro i
  rw [swap_sides]
  exact h i

theorem saneRead_safe (h : Safe s) (inp : ReadInput) (maxLen : Nat) :
    ∃ r, saneRead s inp maxLen = .ok r ∧ Safe r.2 := by
  rw [saneRead]
  split
  · exact ⟨_, rfl, h⟩
  split
  · have hdone : Safe (s.setSide s.side { s.sides.get s.side with eofTx := true }) :=
      h.set s.side (h s.side)
    exact ⟨_, rfl, hdone.swap⟩
  obtain ⟨⟨ret, ts, t⟩, hblocks, ht⟩ := readBlocks_safe h inp
  rw [hblocks]
  dsimp only [Bind.bind, Except.bind]
  split
  · exact ⟨_, rfl, ht⟩
  obtain ⟨q, hq⟩ := ht s.side
  obtain ⟨b, hbuffer, hb⟩ := readFromBuffer_eq hq maxLen
  rw [hbuffer]
  exact ⟨_, rfl, (ht.set s.side ⟨_, hb⟩).swap⟩

/-! ### Whose turn it is -/

/-- The side of a scan that is not a duplex scan. -/
def Config.onlySide (c : Config) : Side := if c.source = .adfBack then .back else .front

/-- When the back is being read the front is done with, or in low memory mode the back is not. -/
def FrontDone (s : Scanner c) : Prop :=
  (c.lowMem = true ∧ s.sides.back.eofTx = false) ∨ s.sides.front.eofTx = true ∨
    (s.sides.back.eofTx = true ∧ s.sides.front.bytesTx = s.sides.front.bytesRx)

structure Order (page : Page) (s : Scanner c) : Prop where
  single : s.started = true → c.source ≠ .adfDuplex →
    s.side = c.onlySide ∧ ∀ t ∈ page.transfers, t.side = c.onlySide
  double : s.started = true → c.source = .adfDuplex → s.side = .back → FrontDone s

theorem Inv.swap (h : Inv page s) : Inv page s.swap := by
  refine ⟨fun i => ?_, ?_, fun hstarted i => ?_⟩
  · rw [swap_sides]
    exact h.sides i
  · rw [swap_eomRx]
    exact h.eomRx
  · rw [swap_sides]
    rw [swap_started] at hstarted
    exact h.totals hstarted i

/-- A side that has been given to the frontend up to its end has nothing to read. -/
theorem SideInv.not_waiting (h : SideInv c page side d) (hdone : d.eofTx = true) :
    ¬ (d.bytesRx > d.bytesTx ∨ (d.eofRx = true ∧ d.eofTx = false)) := by
  obtain ⟨-, hall⟩ := h.eofTx hdone
  rw [hdone]
  rintro (hgt | ⟨-, hno⟩)
  · omega
  · exact nomatch hno

/-- After the side has changed. -/
theorem Order.swap (hinv : Inv page s) (h : Order page s) : Order page s.swap := by
  by_cases hswap : c.lowMem = true ∧ c.source = .adfDuplex ∧
      ((s.sides.get s.side.other).bytesRx > (s.sides.get s.side.other).bytesTx ∨
        ((s.sides.get s.side.other).eofRx = true ∧ (s.sides.get s.side.other).eofTx = false))
  · have heq : s.swap = { s with side := s.side.other } := if_pos hswap
    obtain ⟨hlow, hduplex, hwaiting⟩ := hswap
    rw [heq]
    refine ⟨fun _ hne => absurd hduplex hne, fun _ _ hback => ?_⟩
    have hback : s.side.other = .back := hback
    rw [hback] at hwaiting
    refine .inl ⟨hlow, Bool.eq_false_iff.mpr fun hdone => ?_⟩
    exact (hinv.sides .back).not_waiting hdone hwaiting
  · have heq : s.swap = s := if_neg hswap
    rwa [heq]

/-- Reading of blocks does not change whose turn it is. -/
theorem Order.blocks (h : Order page s) (hframe : Frame s s')
    (hturn : ¬ ((s.sides.get s.side).eofRx = true ∧
      (s.sides.get s.side).bytesTx = (s.sides.get s.side).bytesRx)) (hinv : Inv page s)
    (hside : c.source ≠ .adfDuplex → ∀ t ∈ ts, t.side = s.side) : Order (page.send ts) s' := by
  constructor
  · intro hstarted hsource
    rw [hframe.started] at hstarted
    obtain ⟨hs, hts⟩ := h.single hstarted hsource
    refine ⟨hframe.side.trans hs, fun t ht => ?_⟩
    rcases List.mem_append.mp ht with ht | ht
    · exact hts t ht
    · exact (hside hsource t ht).trans hs
  · intro hstarted hsource hback
    rw [hframe.started] at hstarted
    rw [hframe.side] at hback
    have hbackTx := hframe.eofTx .back
    have hfrontTx := hframe.eofTx .front
    rcases h.double hstarted hsource hback with ⟨hlow, hopen⟩ | hdone | ⟨hdone, -⟩
    · exact .inl ⟨hlow, hbackTx.trans hopen⟩
    · exact .inr (.inl (hfrontTx.trans hdone))
    · rw [hback] at hturn
      exact absurd ((hinv.sides .back).eofTx hdone) hturn

/-! ### The invariant through `sane_read` -/

theorem sent_deliver (page : Page) (side : Side) (data : List SaneByte) :
    (page.deliver side data).transfers = page.transfers := rfl

/-- The frontend gets some of what is pending. -/
theorem SideInv.fetch {data : List SaneByte} (h : SideInv c page side d)
    (hread : readFromBuffer d maxLen = .ok (data, d')) :
    SideInv c (page.deliver side data) side d' ∧ d'.eofTx = d.eofTx ∧ d'.bytesTot = d.bytesTot ∧
      d'.buffTot = d.buffTot := by
  obtain ⟨q, hq, hconvert⟩ := h.holds
  obtain ⟨b, hbuffer, hb⟩ := readFromBuffer_eq hq maxLen
  rw [hread] at hbuffer
  cases hbuffer
  have hself : (page.deliver side (q.take maxLen)).delivered.get side =
      page.delivered.get side ++ q.take maxLen :=
    Sides.get_set_self ..
  refine ⟨⟨h.bytesRx, ?_, h.lines, ⟨_, hb, ?_⟩, h.iliRx, h.eofRx, fun hdone => ?_⟩, rfl, rfl, rfl⟩
  · rw [hself, List.length_append, ← h.bytesTx]
  · rw [sent_deliver, hself, hconvert, List.append_assoc, List.take_append_drop]
  · obtain ⟨heof, hall⟩ := h.eofTx hdone
    have hnil : q = [] := by
      have hlen := h.length
      rw [hq.pending] at hlen
      exact List.length_eq_zero_iff.mp (by omega)
    rw [hnil, List.take_nil, List.length_nil, Nat.add_zero]
    exact ⟨heof, hall⟩

theorem SideInv.deliver_other {data : List SaneByte} {i : Side} (h : SideInv c page side d)
    (hne : side ≠ i) : SideInv c (page.deliver i data) side d := by
  have hsame : (page.deliver i data).delivered.get side = page.delivered.get side :=
    Sides.get_set_of_ne _ hne _
  refine ⟨h.bytesRx, ?_, h.lines, ?_, h.iliRx, h.eofRx, h.eofTx⟩
  · rw [hsame]
    exact h.bytesTx
  · rw [hsame]
    exact h.holds

theorem Inv.setSide {page' : Page} (h : Inv page s) (hsame : page'.transfers = page.transfers)
    (hside : ∀ i, i ≠ side → SideInv c page' i (s.sides.get i)) (hd : SideInv c page' side d)
    (htot : d.bytesTot = (s.sides.get side).bytesTot)
    (hbuff : d.buffTot = (s.sides.get side).buffTot) : Inv page' (s.setSide side d) := by
  refine ⟨fun i => ?_, ?_, fun hstarted i => ?_⟩
  · rcases eq_or_ne i side with rfl | hne
    · rw [get_setSide_self]
      exact hd
    · rw [get_setSide_of_ne _ hne]
      exact hside i hne
  · rw [hsame]
    exact h.eomRx
  · have htotals := h.totals hstarted i
    rcases eq_or_ne i side with rfl | hne
    · rw [get_setSide_self, htot, hbuff]
      exact htotals
    · rwa [get_setSide_of_ne _ hne]

/-- The end of a side is reported. -/
theorem Inv.done (h : Inv page s) (hend : (s.sides.get side).eofRx = true ∧
    (s.sides.get side).bytesTx = (s.sides.get side).bytesRx) :
    Inv page (s.setSide side { s.sides.get side with eofTx := true }) := by
  have hd := h.sides side
  refine h.setSide rfl (fun i _ => h.sides i) ?_ rfl rfl
  exact ⟨hd.bytesRx, hd.bytesTx, hd.lines, hd.holds, hd.iliRx, hd.eofRx, fun _ => hend⟩

theorem Order.done (hinv : Inv page s) (h : Order page s)
    (hend : (s.sides.get s.side).eofRx = true ∧
      (s.sides.get s.side).bytesTx = (s.sides.get s.side).bytesRx) :
    Order page (s.setSide s.side { s.sides.get s.side with eofTx := true }).swap := by
  have hdone := hinv.done hend
  generalize hs' : s.setSide s.side { s.sides.get s.side with eofTx := true } = s' at hdone
  have hside : s'.side = s.side := by rw [← hs']; rfl
  have hstarted' : s'.started = s.started := by rw [← hs']; rfl
  have hsingle : s'.started = true → c.source ≠ .adfDuplex →
      s'.side = c.onlySide ∧ ∀ t ∈ page.transfers, t.side = c.onlySide := by
    rw [hside, hstarted']
    exact h.single
  by_cases hback : s.started = true ∧ c.source = .adfDuplex ∧ s.side = .back
  · obtain ⟨hstarted, hsource, hback⟩ := hback
    have hfront : s'.sides.front = s.sides.front := by rw [← hs', hback]; rfl
    have hbackDone : s'.sides.back.eofTx = true := by rw [← hs', hback]; rfl
    have hother : s'.sides.get s'.side.other = s.sides.front := by
      rw [hside, hback]
      exact hfront
    by_cases hall : s.sides.front.bytesTx = s.sides.front.bytesRx
    · refine Order.swap hdone ⟨hsingle, fun _ _ _ => .inr (.inr ⟨hbackDone, ?_⟩)⟩
      rw [hfront]
      exact hall
    · rcases h.double hstarted hsource hback with ⟨hlow, -⟩ | hfrontDone | ⟨-, hall'⟩
      · -- low memory mode goes on with the front
        have hlen := (hinv.sides .front).length
        have hgt : s.sides.front.bytesRx > s.sides.front.bytesTx := by
          have hlen : s.sides.front.bytesRx = s.sides.front.bytesTx + _ := hlen
          omega
        have hswap : s'.swap = { s' with side := s'.side.other } := by
          refine if_pos ⟨hlow, hsource, .inl ?_⟩
          rw [hother]
          exact hgt
        rw [hswap]
        refine ⟨fun _ hne => absurd hsource hne, fun _ _ hno => ?_⟩
        have hno : s'.side.other = .back := hno
        rw [hside, hback] at hno
        exact nomatch hno
      · exact absurd ((hinv.sides .front).eofTx hfrontDone).2 hall
      · exact absurd hall' hall
  · refine Order.swap hdone ⟨hsingle, fun hstarted hsource hno => absurd ⟨?_, hsource, ?_⟩ hback⟩
    · rwa [← hstarted']
    · rwa [← hside]

/-- A call of `sane_read` keeps the invariant. -/
theorem saneRead_inv (h : Inv page s) (hord : Order page s)
    (hread : saneRead s inp maxLen = .ok (out, s')) (hfine : ∀ t ∈ out.transfers, t.Whole c) :
    Inv (page.after out) s' ∧ Order (page.after out) s' := by
  rcases saneRead_cases hread with ⟨-, rfl, rfl⟩ | ⟨-, hend, rfl, rfl⟩ |
    ⟨hstarted, hturn, ret, ts, t, hblocks, hrest⟩
  · have hafter : page.after { status := .cancelled, side := s'.side } = page :=
      (Page.deliver_nil _ _).trans (Page.send_nil page)
    rw [hafter]
    exact ⟨h, hord⟩
  · have hafter : page.after { status := .eof, side := s.side } = page :=
      (Page.deliver_nil _ _).trans (Page.send_nil page)
    rw [hafter]
    exact ⟨(h.done hend).swap, hord.done h hend⟩
  · rcases hrest with ⟨hret, rfl, rfl⟩ | ⟨data, d, hbuffer, rfl, rfl⟩
    · obtain ⟨hinv, hframe, hside⟩ := readBlocks_inv h hstarted hblocks hfine
      have hafter : page.after { status := ret, side := s.side, transfers := ts } = page.send ts :=
        Page.deliver_nil _ _
      rw [hafter]
      exact ⟨hinv, hord.blocks hframe hturn h hside⟩
    · obtain ⟨hinv, hframe, hside⟩ := readBlocks_inv h hstarted hblocks hfine
      have hord' := hord.blocks hframe hturn h hside
      have hafter : page.after { status := .good, side := s.side, data, transfers := ts } =
          (page.send ts).deliver s.side data := rfl
      obtain ⟨hself, heofTx, htot, hbuff⟩ := (hinv.sides s.side).fetch hbuffer
      have hset : Inv ((page.send ts).deliver s.side data) (t.setSide s.side d) :=
        hinv.setSide rfl (fun i hne => (hinv.sides i).deliver_other hne) hself htot hbuff
      rw [hafter]
      refine ⟨hset.swap, Order.swap hset ⟨hord'.single, fun hst hsource hback => ?_⟩⟩
      have hdone := hord'.double hst hsource hback
      have hback : t.side = .back := hback
      rw [hframe.side] at hback
      rw [hback] at heofTx ⊢
      rwa [FrontDone, Scanner.setSide, Sides.set, heofTx]

/-! ### The invariant through `sane_start` -/

theorem readFromBuffer_zero (d : SideState) : readFromBuffer d 0 = .ok ([], d) := by
  rw [readFromBuffer, if_neg (Nat.not_lt_zero _), if_pos rfl]
  rfl

/-- Without room for bytes the frontend gets none. -/
theorem saneRead_zero (hread : saneRead s inp 0 = .ok (out, s')) (page : Page) :
    page.after out = page.send out.transfers := by
  rcases saneRead_cases hread with ⟨-, rfl, -⟩ | ⟨-, -, rfl, -⟩ | ⟨-, -, ret, ts, t, -, hrest⟩
  · exact Page.deliver_nil _ _
  · exact Page.deliver_nil _ _
  · rcases hrest with ⟨-, rfl, -⟩ | ⟨data, d, hbuffer, rfl, -⟩
    · exact Page.deliver_nil _ _
    · rw [readFromBuffer_zero] at hbuffer
      cases hbuffer
      exact Page.deliver_nil _ _

theorem bufferImage_safe {inputs : List ReadInput} {done : List Transfer} (h : Safe s) :
    bufferImage inputs s done ≠ .error .outside := by
  induction inputs generalizing s done with
  | nil =>
    rw [bufferImage]
    split <;> nofun
  | cons inp inputs ih =>
    rw [bufferImage]
    split
    · nofun
    · obtain ⟨⟨out, s'⟩, hread, h'⟩ := saneRead_safe h inp 0
      rw [hread]
      dsimp only [Bind.bind, Except.bind]
      split
      · nofun
      · exact ih h'

theorem bufferImage_inv {inputs : List ReadInput} {done : List Transfer}
    (hbuffer : bufferImage inputs s done = .ok (ret, ts, s')) :
    ∃ us, ts = done ++ us ∧ ∀ page, Inv page s → Order page s → (∀ t ∈ us, t.Whole c) →
      Inv (page.send us) s' ∧ Order (page.send us) s' := by
  induction inputs generalizing s done with
  | nil =>
    rw [bufferImage] at hbuffer
    split at hbuffer
    · cases hbuffer
      refine ⟨[], (List.append_nil _).symm, fun page h hord _ => ?_⟩
      rw [Page.send_nil]
      exact ⟨h, hord⟩
    · exact nomatch hbuffer
  | cons inp inputs ih =>
    rw [bufferImage] at hbuffer
    split at hbuffer
    · cases hbuffer
      refine ⟨[], (List.append_nil _).symm, fun page h hord _ => ?_⟩
      rw [Page.send_nil]
      exact ⟨h, hord⟩
    · obtain ⟨⟨out, s₁⟩, hread, hbuffer⟩ := bind_eq_ok.mp hbuffer
      dsimp only at hbuffer
      split at hbuffer
      · cases hbuffer
        refine ⟨out.transfers, rfl, fun page h hord hfine => ?_⟩
        have hinv := saneRead_inv h hord hread hfine
        rwa [saneRead_zero hread] at hinv
      · obtain ⟨us, rfl, hrest⟩ := ih hbuffer
        refine ⟨out.transfers ++ us, List.append_assoc .., fun page h hord hfine => ?_⟩
        have hinv := saneRead_inv h hord hread
          fun t ht => hfine t (List.mem_append_left _ ht)
        rw [saneRead_zero hread] at hinv
        have hall := hrest (page.send out.transfers) hinv.1 hinv.2
          fun t ht => hfine t (List.mem_append_right _ ht)
        rwa [Page.send_send] at hall

theorem Inv.stopped (h : Inv page s) : Inv page { s with started := false } :=
  ⟨h.sides, h.eomRx, fun hno => nomatch hno⟩

theorem Order.stopped (page : Page) (s : Scanner c) : Order page { s with started := false } :=
  ⟨(fun hno => nomatch hno), (fun hno => nomatch hno)⟩

variable {start : StartInput c} {fed : Bool}

theorem finishStart_safe (h : Safe s) : finishStart s start fed ≠ .error .outside := by
  rw [finishStart]
  split
  · cases hbuffer : bufferImage start.reads s [] with
    | error e =>
      intro heq
      cases heq
      exact bufferImage_safe h hbuffer
    | ok r =>
      dsimp only [Bind.bind, Except.bind]
      split
      · nofun
      · split <;> nofun
  · nofun

theorem finishStart_inv (h : Inv page s) (hord : Order page s)
    (hstart : finishStart s start fed = .ok (out, s'))
    (hfine : ∀ t ∈ out.transfers, t.Whole c) :
    out.newSheet = fed ∧ out.data = [] ∧ Inv (page.send out.transfers) s' ∧
      Order (page.send out.transfers) s' := by
  rw [finishStart] at hstart
  split at hstart
  · obtain ⟨⟨ret, ts, s₁⟩, hbuffer, hstart⟩ := bind_eq_ok.mp hstart
    obtain ⟨us, hus, hinv⟩ := bufferImage_inv hbuffer
    rw [List.nil_append] at hus
    subst hus
    dsimp only at hstart
    split at hstart
    · cases hstart
      obtain ⟨hinv, -⟩ := hinv page h hord hfine
      exact ⟨rfl, rfl, hinv.stopped, Order.stopped _ _⟩
    split at hstart
    · cases hstart
      obtain ⟨hinv, hord'⟩ := hinv page h hord hfine
      exact ⟨rfl, rfl, hinv, hord'⟩
    · cases hstart
      obtain ⟨hinv, hord'⟩ := hinv page h hord hfine
      exact ⟨rfl, rfl, ⟨hinv.sides, hinv.eomRx, hinv.totals⟩, ⟨hord'.single, hord'.double⟩⟩
  · cases hstart
    refine ⟨rfl, rfl, ?_⟩
    rw [Page.send_nil]
    exact ⟨h, hord⟩

theorem get_newSheet (s : Scanner c) (side : Side) : s.newSheet.sides.get side =
    (s.sides.get side).reset (c.bytesTot side) (c.buffTot side) (!s.started) := by
  cases side <;> rfl

/-- The buffers at the start of a sheet. -/
theorem Inv.newSheet (h : Inv page s) : Inv {} s.newSheet := by
  refine ⟨fun side => ?_, rfl, fun _ side => ?_⟩
  · have hholds : (⟨if !s.started then List.replicate (c.buffTot side) 0
        else (s.sides.get side).buffer.cells, 0, 0⟩ : Buffer SaneByte).Holds
          (c.buffTot side) [] := by
      refine ⟨?_, Nat.le_refl _, Nat.zero_le _, rfl⟩
      rcases Bool.eq_false_or_eq_true s.started with hstarted | hstarted
      · obtain ⟨q, hq⟩ := (h.sides side).safe
        rw [hstarted]
        exact hq.length_cells.trans (h.totals hstarted side).2
      · rw [hstarted]
        exact List.length_replicate
    rw [get_newSheet]
    have hdelivered : ({} : Page).delivered.get side = [] := by cases side <;> rfl
    refine ⟨rfl, ?_, ?_, ⟨[], hholds, ?_⟩, rfl, ?_, fun hno => nomatch hno⟩
    · rw [hdelivered]
      rfl
    · exact Nat.dvd_zero _
    · rw [hdelivered]
      exact convert_nil
    · constructor
      · exact fun hno => nomatch hno
      · rintro (⟨hne, -⟩ | ⟨us, hprefix, heom, -⟩)
        · exact absurd rfl hne
        · rw [List.prefix_nil.mp hprefix] at heom
          exact nomatch heom
  · rw [get_newSheet]
    exact ⟨rfl, rfl⟩

theorem Inv.restart (h : Inv page s) (side : Side) (p : Params c.mode) :
    Inv page { s with side, params := p } :=
  ⟨h.sides, h.eomRx, h.totals⟩

/-- When a sheet follows another one, the frontend has got both sides of it. -/
theorem Order.complete (hinv : Inv page s) (h : Order page s) (hstarted : s.started = true)
    (hdone : (s.sides.get s.side).eofTx = true)
    (hnext : nextSide s = .front ∨ c.source = .adfBack) (side : Side) :
    page.delivered.get side = c.convert (sent page.transfers side) := by
  have hcomplete : ∀ i, (s.sides.get i).bytesTx = (s.sides.get i).bytesRx →
      page.delivered.get i = c.convert (sent page.transfers i) :=
    fun i hall => (hinv.sides i).complete_iff.mp hall
  have hfinished : ∀ i, (s.sides.get i).eofTx = true →
      page.delivered.get i = c.convert (sent page.transfers i) :=
    fun i hi => hcomplete i ((hinv.sides i).eofTx hi).2
  by_cases hsource : c.source = .adfDuplex
  · have hnext : nextSide s = .front := by
      rcases hnext with hnext | hback
      · exact hnext
      · rw [hsource] at hback
        exact nomatch hback
    rw [nextSide, if_neg (by rw [hstarted]; nofun), if_pos hsource] at hnext
    by_cases hboth : c.source = .adfDuplex ∧ c.lowMem = true ∧ s.sides.front.eofTx = true ∧
        s.sides.back.eofTx = true
    · obtain ⟨-, -, hfront, hback⟩ := hboth
      cases side
      · exact hfinished .front hfront
      · exact hfinished .back hback
    · rw [if_neg hboth] at hnext
      have hback : s.side = .back := by
        cases hside : s.side
        · rw [hside] at hnext
          exact nomatch hnext
        · rfl
      rw [hback] at hdone
      cases side
      · rcases h.double hstarted hsource hback with ⟨-, hno⟩ | hfront | ⟨-, hall⟩
        · exact absurd (hdone.symm.trans hno) nofun
        · exact hfinished .front hfront
        · exact hcomplete .front hall
      · exact hfinished .back hdone
  · obtain ⟨honly, hts⟩ := h.single hstarted hsource
    by_cases hside : side = c.onlySide
    · rw [hside, ← honly]
      exact hfinished _ hdone
    · have hnone : sent page.transfers side = [] := by
        rw [sent, List.flatMap_eq_nil_iff]
        intro t ht
        exact if_neg fun heq => hside (heq.symm.trans (hts t ht))
      have hpending := (hinv.sides side).pending
      rw [hnone, convert_nil] at hpending ⊢
      exact (List.append_eq_nil_iff.mp hpending.symm).1

theorem saneStart_safe (h : Inv page s) (inp : StartInput c) :
    saneStart s inp ≠ .error .outside := by
  have hsheet : Safe ({ s with side := nextSide s, params := c.params } : Scanner c).newSheet :=
    (h.restart _ _).newSheet.safe
  rw [saneStart]
  split
  · nofun
  split
  · nofun
  split
  · split
    · nofun
    split
    · nofun
    · exact finishStart_safe hsheet
  · exact finishStart_safe (h.restart _ _).safe

theorem nextSide_single (h : Order page s) (hsource : c.source ≠ .adfDuplex) :
    nextSide s = c.onlySide := by
  have hlow : ¬ (c.source = .adfDuplex ∧ c.lowMem = true ∧ s.sides.front.eofTx = true ∧
      s.sides.back.eofTx = true) := fun hno => hsource hno.1
  rw [nextSide, if_neg hlow, if_neg hsource]
  split
  · rfl
  · rename_i hstarted
    exact (h.single (Bool.eq_true_of_not_eq_false hstarted) hsource).1

theorem Order.newSheet (h : Order page s)
    (hnext : nextSide s = .front ∨ c.source = .adfBack) :
    Order {} ({ s with side := nextSide s, params := c.params } : Scanner c).newSheet := by
  refine ⟨fun _ hsource => ⟨nextSide_single h hsource, fun t ht => nomatch ht⟩,
    fun _ hsource hback => ?_⟩
  have hback : nextSide s = .back := hback
  rw [hback, hsource] at hnext
  rcases hnext with hno | hno <;> exact nomatch hno

/-- The back of a sheet follows its front. -/
theorem Order.turned (h : Order page s) (hdone : ¬ (s.started = true ∧
      (s.sides.get s.side).eofTx = false))
    (hnext : ¬ (nextSide s = .front ∨ c.source = .adfBack)) :
    Order page ({ s with side := nextSide s, params := c.params } : Scanner c) := by
  rw [not_or] at hnext
  obtain ⟨hfront, hsource'⟩ := hnext
  constructor
  · intro _ hsource
    rw [nextSide_single h hsource, Config.onlySide, if_neg hsource'] at hfront
    exact absurd rfl hfront
  · intro hstarted hsource _
    have hstarted : s.started = true := hstarted
    rw [nextSide, if_neg (by rw [hstarted]; nofun), if_pos hsource] at hfront
    have hside : s.side = .front := by
      cases hside : s.side
      · rfl
      · rw [hside] at hfront
        split at hfront <;> exact absurd rfl hfront
    rw [hside] at hdone
    refine .inr (.inl (Bool.eq_true_of_not_eq_false fun hno => hdone ⟨hstarted, hno⟩))

/-- A call of `sane_start` keeps the invariant. -/
theorem saneStart_inv (h : Inv page s) (hord : Order page s) {inp : StartInput c}
    (hstart : saneStart s inp = .ok (out, s')) (hfine : ∀ t ∈ out.transfers, t.Whole c) :
    Inv (page.after out) s' ∧ Order (page.after out) s' := by
  rw [saneStart] at hstart
  split at hstart
  · cases hstart
    have hafter : page.after { status := .inval, side := s.side } = page :=
      (Page.deliver_nil _ _).trans (Page.send_nil page)
    rw [hafter]
    exact ⟨h, hord⟩
  rename_i hdone
  split at hstart
  · rename_i hfailed
    cases hstart
    have hafter : page.after { status := inp.prepare, side := s.side } = page :=
      (Page.deliver_nil _ _).trans (Page.send_nil page)
    rw [hafter]
    refine ⟨h.restart _ _, ⟨fun hno => ?_, fun hno => ?_⟩⟩ <;>
      exact absurd (hno.symm.trans hfailed.1) nofun
  split at hstart
  · rename_i hnext
    have hinv := (h.restart (nextSide s) c.params).newSheet
    have hord' := hord.newSheet hnext
    split at hstart
    · cases hstart
      have hafter : ∀ side, page.after { status := inp.objectPosition, side, newSheet := true } =
          {} := fun side => (Page.deliver_nil _ _).trans (Page.send_nil _)
      rw [hafter]
      exact ⟨hinv.stopped, Order.stopped _ _⟩
    split at hstart
    · cases hstart
      have hafter : ∀ side, page.after { status := inp.startScan, side, newSheet := true } =
          {} := fun side => (Page.deliver_nil _ _).trans (Page.send_nil _)
      rw [hafter]
      exact ⟨hinv.stopped, Order.stopped _ _⟩
    · obtain ⟨hnew, hdata, hall⟩ := finishStart_inv hinv hord' hstart hfine
      rwa [Page.after, hnew, hdata, Page.deliver_nil, if_pos rfl]
  · rename_i hnext
    obtain ⟨hnew, hdata, hall⟩ := finishStart_inv (h.restart (nextSide s) c.params)
      (hord.turned hdone hnext) hstart hfine
    rwa [Page.after, hnew, hdata, Page.deliver_nil, if_neg Bool.false_ne_true]

/-- What a sheet has been fed for. -/
theorem saneStart_newSheet {inp : StartInput c} (hstart : saneStart s inp = .ok (out, s'))
    (hstarted : s.started = true) (hnew : out.newSheet = true) :
    (s.sides.get s.side).eofTx = true ∧ (nextSide s = .front ∨ c.source = .adfBack) := by
  have hfinish : ∀ {s₁ : Scanner c} {fed : Bool}, finishStart s₁ inp fed = .ok (out, s') →
      out.newSheet = fed := by
    intro s₁ fed hfinish
    rw [finishStart] at hfinish
    split at hfinish
    · obtain ⟨⟨ret, ts, s₂⟩, -, hfinish⟩ := bind_eq_ok.mp hfinish
      dsimp only at hfinish
      split at hfinish
      · cases hfinish
        rfl
      · split at hfinish <;> cases hfinish <;> rfl
    · cases hfinish
      rfl
  rw [saneStart] at hstart
  split at hstart
  · cases hstart
    exact nomatch hnew
  rename_i hdone
  have heofTx : (s.sides.get s.side).eofTx = true :=
    Bool.eq_true_of_not_eq_false fun hno => hdone ⟨hstarted, hno⟩
  split at hstart
  · cases hstart
    exact nomatch hnew
  split at hstart
  · rename_i hnext
    exact ⟨heofTx, hnext⟩
  · rw [hfinish hstart] at hnew
    exact nomatch hnew

/-! ### Whole scans -/

theorem inv_opened (c : Config) : Inv {} (Scanner.opened c) := by
  refine ⟨fun side => ?_, rfl, fun hno => nomatch hno⟩
  have hdelivered : ({} : Page).delivered.get side = [] := by cases side <;> rfl
  have hstate : (Scanner.opened c).sides.get side = {} := by cases side <;> rfl
  rw [hstate]
  refine ⟨rfl, ?_, Nat.dvd_zero _, ⟨[], holds_fresh [], ?_⟩, rfl, ?_, fun hno => nomatch hno⟩
  · rw [hdelivered]
    rfl
  · rw [hdelivered]
    exact convert_nil
  · constructor
    · exact fun hno => nomatch hno
    · rintro (⟨hne, -⟩ | ⟨us, hprefix, heom, -⟩)
      · exact absurd rfl hne
      · rw [List.prefix_nil.mp hprefix] at heom
        exact nomatch heom

theorem pageOf_snoc (es : List (Event c)) (e : Event c) :
    pageOf (es ++ [e]) = (pageOf es).after e.out := by
  rw [pageOf, List.foldl_append]
  rfl

theorem FineStep.inv {e : Event c} (h : Inv page s) (hord : Order page s)
    (hstep : FineStep s e s') : Inv (page.after e.out) s' ∧ Order (page.after e.out) s' := by
  obtain ⟨hexec, hfine⟩ := hstep
  rw [Step] at hexec
  cases hop : e.op with
  | start inp =>
    rw [hop] at hexec
    exact saneStart_inv h hord hexec hfine
  | read inp maxLen =>
    rw [hop] at hexec
    exact saneRead_inv h hord hexec hfine

theorem run_inv {es : List (Event c)} (hrun : Run FineStep (Scanner.opened c) es s) :
    Inv (pageOf es) s ∧ Order (pageOf es) s := by
  refine hrun.history (I := fun es s => Inv (pageOf es) s ∧ Order (pageOf es) s) ?_ ?_
  · exact ⟨inv_opened c, ⟨(fun hno => nomatch hno), (fun hno => nomatch hno)⟩⟩
  · intro es s e s' h hstep
    rw [pageOf_snoc]
    exact hstep.inv h.1 h.2

/-- The end of the image is reported exactly when the side has ended and the frontend has got
    what it has sent. -/
theorem saneRead_eof_iff (h : Inv page s) (hstarted : s.started = true)
    (hread : saneRead s inp maxLen = .ok (out, s')) : out.status = .eof ↔
      Ended c page.transfers s.side ∧
        page.delivered.get s.side = c.convert (sent page.transfers s.side) := by
  rw [← (h.sides s.side).eofRx, ← (h.sides s.side).complete_iff]
  rcases saneRead_cases hread with ⟨hno, -, -⟩ | ⟨-, hend, rfl, -⟩ |
    ⟨-, hturn, ret, ts, t, hblocks, hrest⟩
  · rw [hstarted] at hno
    exact nomatch hno
  · exact iff_of_true rfl hend
  · refine iff_of_false ?_ hturn
    rcases hrest with ⟨-, rfl, -⟩ | ⟨data, d, -, rfl, -⟩
    · exact readBlocks_ne_eof hblocks
    · nofun

/-- The counters of a side agree, and the positions are inside of its buffer. -/
structure Balanced (d : SideState) : Prop where
  drained : d.buffer.tx ≤ d.buffer.rx
  filled : d.buffer.rx ≤ d.buffTot
  block : d.buffer.cells.length = d.buffTot
  counters : (d.bytesRx : Int) - d.bytesTx = (d.buffer.rx : Int) - d.buffer.tx

theorem SideInv.balanced (h : SideInv c page side d) : Balanced d := by
  obtain ⟨q, hq, -⟩ := h.holds
  have hlen := h.length
  have hpos := hq.length
  rw [hq.pending] at hlen
  exact ⟨hq.ordered, hq.inside, hq.length_cells, by omega⟩

/-- In every scan in which whole lines are sent where the colours of a line have to be put in
    order: the counters of each side agree; what the frontend has got and what is pending are
    together the image of what has been sent; no call reaches outside of a buffer; the end is
    reported exactly when a side has ended and all of it has been delivered; and a new sheet is
    begun only then. -/
theorem side_buffers {es : List (Event c)} (hrun : Run FineStep (Scanner.opened c) es s) :
    (∀ side, Balanced (s.sides.get side) ∧ c.convert (sent (pageOf es).transfers side) =
      (pageOf es).delivered.get side ++ (s.sides.get side).buffer.pending) ∧
    (∀ op, exec s op ≠ .error .outside) ∧
    (∀ inp maxLen out s', s.started = true → saneRead s inp maxLen = .ok (out, s') →
      (out.status = .eof ↔ Ended c (pageOf es).transfers s.side ∧
        (pageOf es).delivered.get s.side = c.convert (sent (pageOf es).transfers s.side))) ∧
    (∀ inp out s', s.started = true → saneStart s inp = .ok (out, s') → out.newSheet = true →
      ∀ side, (pageOf es).delivered.get side = c.convert (sent (pageOf es).transfers side)) := by
  obtain ⟨hinv, hord⟩ := run_inv hrun
  refine ⟨fun side => ⟨(hinv.sides side).balanced, (hinv.sides side).pending⟩, fun op => ?_,
    fun inp maxLen out s' hstarted hread => saneRead_eof_iff hinv hstarted hread,
    fun inp out s' hstarted hstart hnew side => ?_⟩
  · cases op with
    | start inp => exact saneStart_safe hinv inp
    | read inp maxLen =>
      obtain ⟨r, hread, -⟩ := saneRead_safe hinv.safe inp maxLen
      rw [exec, hread]
      nofun
  · obtain ⟨hdone, hnext⟩ := saneStart_newSheet hstart hstarted hnew
    exact hord.complete hinv hstarted hdone hnext side

/-- A flatbed scan of two lines of two pixels, the colours of a line one after the other. -/
def planesConfig : Config where
  source := .flatbed
  mode := .color
  colorInterlace := .rrggbb
  duplexInterlace := .none
  reverse := false
  lowMem := false
  usb := false
  scannerCtl := false
  mustFullyBuffer := false
  bufferSize := 12
  params := ⟨2, 2, by decide⟩

def planesStart : StartInput planesConfig where
  prepare := .good
  objectPosition := .good
  startScan := .good
  reads := []
  pixelsize := .good
  actual := planesConfig.params

/-- The scanner sends the first `len` bytes of the image. -/
def planesAnswer (len : Nat) : Answer where
  ric := .good
  status := .good
  buf := fun i => BitVec.ofNat 8 (i + 1)
  len := len
  ili := false
  eom := false

def startEvent : Event planesConfig :=
  ⟨.start planesStart, { status := .good, side := .front, newSheet := true }⟩

def readEvent (len : Nat) (data sent : List SaneByte) : Event planesConfig :=
  ⟨.read ⟨planesAnswer len, planesAnswer len⟩ 100,
    { status := .good, side := .front, data, transfers := [⟨.front, 6, sent, false, false⟩] }⟩

/-- A scan of two whole lines. -/
def planesEvents : List (Event planesConfig) :=
  [startEvent, readEvent 12 [1, 3, 5, 2, 4, 6, 7, 9, 11, 8, 10, 12]
    [1, 2, 3, 4, 5, 6, 7, 8, 9, 10, 11, 12]]

/-- All of it has been delivered, so that the next call reports the end. -/
theorem side_buffers_planes : ∃ s, Run FineStep (Scanner.opened planesConfig) planesEvents s ∧
    Balanced (s.sides.get .front) ∧
    planesConfig.convert (sent (pageOf planesEvents).transfers .front) =
      [1, 3, 5, 2, 4, 6, 7, 9, 11, 8, 10, 12] ∧
    (∀ op, exec s op ≠ .error .outside) ∧
    (∃ out s', saneRead s ⟨planesAnswer 0, planesAnswer 0⟩ 100 = .ok (out, s') ∧
      out.status = .eof ∧ Ended planesConfig (pageOf planesEvents).transfers s.side) ∧
    ∀ inp out s', saneStart s inp = .ok (out, s') → out.newSheet = true →
      ∀ side, (pageOf planesEvents).delivered.get side =
        planesConfig.convert (sent (pageOf planesEvents).transfers side) := by
  have hrun : ∃ s, Run FineStep (Scanner.opened planesConfig)
      ([] ++ [startEvent] ++ [readEvent 12 [1, 3, 5, 2, 4, 6, 7, 9, 11, 8, 10, 12]
        [1, 2, 3, 4, 5, 6, 7, 8, 9, 10, 11, 12]]) s ∧
      s.started = true ∧ (s.sides.get .front).buffer.pending = [] ∧
      ∃ out s', saneRead s ⟨planesAnswer 0, planesAnswer 0⟩ 100 = .ok (out, s') ∧
        out.status = .eof := by
    refine ⟨_, .snoc (.snoc .nil ⟨rfl, fun t ht => nomatch ht⟩) ⟨rfl, fun t ht => ?_⟩, ?_⟩
    · rw [List.mem_singleton.mp ht]
      exact ⟨by decide, fun _ _ => by decide⟩
    · exact ⟨rfl, rfl, _, _, rfl, rfl⟩
  obtain ⟨s, hrun, hstarted, hpending, out, s', hread, heof⟩ := hrun
  obtain ⟨hsides, hsafe, hends, hsheet⟩ := side_buffers hrun
  obtain ⟨hbalanced, himage⟩ := hsides .front
  rw [hpending, List.append_nil] at himage
  exact ⟨s, hrun, hbalanced, himage, hsafe,
    ⟨out, s', hread, heof, ((hends _ _ _ _ hstarted hread).mp heof).1⟩,
    fun inp out s' => hsheet inp out s' hstarted⟩

/-- Four bytes of the first line are counted as four and stored as six. -/
theorem side_buffers_short_line : ¬ ∀ (c : Config) (es : List (Event c)) (s : Scanner c),
    Run Step (Scanner.opened c) es s → 2 * c.params.bytesPerLine ≤ c.bufferSize →
      (∀ side, (sent (pageOf es).transfers side).length ≤ c.bytesTot side) →
      ∀ side, Balanced (s.sides.get side) := by
  intro hall
  have hrun : ∃ s, Run Step (Scanner.opened planesConfig)
      ([] ++ [startEvent] ++ [readEvent 4 [1, 3, 5, 2, 4, 6] [1, 2, 3, 4]]) s ∧
        (s.sides.get .front).bytesRx = 4 ∧ (s.sides.get .front).bytesTx = 6 ∧
          (s.sides.get .front).buffer.rx = 6 ∧ (s.sides.get .front).buffer.tx = 6 :=
    ⟨_, .snoc (.snoc .nil rfl) rfl, rfl, rfl, rfl, rfl⟩
  obtain ⟨s, hrun, hbytesRx, hbytesTx, hrx, htx⟩ := hrun
  have hcounters := (hall _ _ _ hrun (by decide) (fun side => by cases side <;> decide)
    .front).counters
  rw [hbytesRx, hbytesTx, hrx, htx] at hcounters
  exact absurd hcounters (by decide)

end SaneBackends.FujitsuBuffer

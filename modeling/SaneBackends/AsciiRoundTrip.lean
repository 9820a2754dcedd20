import SaneBackends.AsciiReading
import SaneBackends.WireRoundTrip

/-!
# Round trips through the ASCII codec

What is written by the ASCII codec is read back as it was, in whatever pieces the text
arrives, exactly if no char comes behind another value, no word is the smallest one, and
the closing quote of every string finds room in the buffer.
-/

namespace SaneBackends

open FaultState

variable {ver : Int}

/-! ### What is read back -/

inductive WireItem.SameKind : WireItem → WireItem → Prop where
  | byte (b b' : SaneByte) : SameKind (.byte b) (.byte b')
  | char (c c' : SaneByte) : SameKind (.char c) (.char c')
  | word (w w' : SaneWord) : SameKind (.word w) (.word w')
  | string (s s' : SaneString) : SameKind (.string s) (.string s')

theorem WireItem.SameKind.refl (item : WireItem) : item.SameKind item := by
  cases item <;> constructor

/-- A value that is read back when `lead` is in front of its text. -/
def WireItem.ReadsBack (lead : List SaneByte) : WireItem → Prop
  | .char _ => lead = []
  | .word w => w ≠ 0x80000000
  | _ => True

/-- A newline is in front of all values but the first one. -/
def AllReadBack : List SaneByte → List WireItem → Prop
  | _, [] => True
  | lead, item :: items => item.ReadsBack lead ∧ AllReadBack [newline] items

theorem transfer_awaits {lead rest : List SaneByte} {prior item : WireItem}
    (hlead : ∀ b ∈ lead, isSpace b = true) (hkind : prior.SameKind item) (hvalid : item.Valid)
    (hback : item.ReadsBack lead) :
    Returns (Wire.Awaits ver (lead ++ (item.text ++ newline :: rest)) 0)
      (prior.transfer saneiCodecAscii)
      (fun item' w => item' = item ∧ Wire.Awaits ver (newline :: rest) 0 w) := by
  cases hkind with
  | byte prior b =>
    exact (asciiWByte_awaits hlead prior b).bind fun b' =>
      Returns.pure fun w hw => ⟨congrArg _ hw.1, hw.2⟩
  | char prior c =>
    cases (show lead = [] from hback)
    exact (asciiWChar_awaits prior c).bind fun c' =>
      Returns.pure fun w hw => ⟨congrArg _ hw.1, hw.2⟩
  | word prior v =>
    exact (asciiWWord_awaits hlead prior hback).bind fun v' =>
      Returns.pure fun w hw => ⟨congrArg _ hw.1, hw.2⟩
  | string prior s =>
    exact (asciiWString_awaits hlead prior hvalid).bind fun s' =>
      Returns.pure fun w hw => ⟨congrArg _ hw.1, hw.2⟩

theorem succ_ne_self (c : SaneByte) : c + 1 ≠ c := by
  revert c
  decide +kernel

/-- A value that is not read back comes out as another one. -/
theorem transfer_other {lead rest : List SaneByte} {item : WireItem}
    (hlead : lead = [] ∨ lead = [newline]) (hlost : ¬ item.ReadsBack lead) :
    ∃ prior : WireItem, prior.SameKind item ∧
      Returns (Wire.Awaits ver (lead ++ (item.text ++ newline :: rest)) 0)
        (prior.transfer saneiCodecAscii) (fun item' _ => item' ≠ item) := by
  have hspace : ∀ b ∈ lead, isSpace b = true := by
    rcases hlead with rfl | rfl
    · exact fun b hb => absurd hb List.not_mem_nil
    · exact fun b hb => List.mem_singleton.mp hb ▸ rfl
  cases item with
  | byte b => exact absurd trivial hlost
  | string s => exact absurd trivial hlost
  | word v =>
    have hv : v = 0x80000000 := not_not.mp hlost
    subst hv
    refine ⟨.word 0, .word _ _, (asciiWWord_smallest hspace 0).bind fun v' => ?_⟩
    refine Returns.pure fun w hw => ?_
    rw [hw]
    decide
  | char c =>
    rcases hlead with rfl | rfl
    · exact absurd rfl hlost
    · refine ⟨.char (c + 1), .char _ _, ?_⟩
      refine (asciiWChar_newline (c + 1) ?_).bind fun c' => Returns.pure fun w hw hc => ?_
      · change 3 ≤ ((WireItem.char c).text ++ newline :: rest).length
        rw [WireItem.text, List.length_append, List.length_append, List.length_cons,
          List.length_cons, List.length_cons, List.length_cons]
        omega
      · rw [hw] at hc
        exact succ_ne_self c (WireItem.char.inj hc)

theorem transferAll_awaits {lead rest : List SaneByte} {priors items : List WireItem}
    (hlead : ∀ b ∈ lead, isSpace b = true) (hkinds : List.Forall₂ WireItem.SameKind priors items)
    (hvalid : ∀ item ∈ items, item.Valid) (hback : AllReadBack lead items) :
    Returns (Wire.Awaits ver (lead ++ (itemsText items ++ rest)) 0)
      (transferAll saneiCodecAscii priors) (fun items' w => items' = items ∧ w.status = 0) := by
  induction hkinds generalizing lead with
  | nil => exact Returns.pure fun w hw => ⟨rfl, hw.good⟩
  | @cons prior item priors items hkind hkinds ih =>
    obtain ⟨hfirst, hrest⟩ := hback
    have hitem := hvalid item List.mem_cons_self
    rw [itemsText, List.flatMap_cons, List.append_assoc, List.append_assoc]
    refine (transfer_awaits hlead hkind hitem hfirst).bind fun item' => ?_
    refine Returns.bind (Q := fun items' w => items' = items ∧ w.status = 0 ∧ item' = item)
      ?_ fun items' => ?_
    · rintro w ⟨hitem', hw⟩
      have hnewline : ∀ b ∈ [newline], isSpace b = true := fun b hb =>
        List.mem_singleton.mp hb ▸ rfl
      obtain ⟨_, w', hrun, rfl, hs⟩ :=
        ih hnewline (fun i hi => hvalid i (List.mem_cons_of_mem _ hi)) hrest w hw
      exact ⟨_, w', hrun, rfl, hs, hitem'⟩
    · rintro w ⟨rfl, hs, rfl⟩
      exact ⟨_, w, rfl, rfl, hs⟩

/-- If a value is not read back, other values may come out. -/
theorem transferAll_other {lead rest : List SaneByte} {items : List WireItem}
    (hlead : lead = [] ∨ lead = [newline]) (hvalid : ∀ item ∈ items, item.Valid)
    (hlost : ¬ AllReadBack lead items) :
    ∃ priors, List.Forall₂ WireItem.SameKind priors items ∧
      Yields (Wire.Awaits ver (lead ++ (itemsText items ++ rest)) 0)
        (transferAll saneiCodecAscii priors) (fun items' _ => items' ≠ items) := by
  induction items generalizing lead with
  | nil => exact absurd trivial hlost
  | cons item items ih =>
    have hsame : List.Forall₂ WireItem.SameKind items items :=
      List.forall₂_same.mpr fun item _ => .refl item
    rw [itemsText, List.flatMap_cons, List.append_assoc, List.append_assoc]
    by_cases hfirst : item.ReadsBack lead
    · have hspace : ∀ b ∈ lead, isSpace b = true := by
        rcases hlead with rfl | rfl
        · exact fun b hb => absurd hb List.not_mem_nil
        · exact fun b hb => List.mem_singleton.mp hb ▸ rfl
      obtain ⟨priors, hkinds, hyields⟩ := ih (.inr rfl)
        (fun i hi => hvalid i (List.mem_cons_of_mem _ hi)) fun hrest => hlost ⟨hfirst, hrest⟩
      refine ⟨item :: priors, .cons (.refl item) hkinds, ?_⟩
      intro w out w' hw hrun
      obtain ⟨_, w₁, hrun₁, rfl, hw₁⟩ := transfer_awaits hspace (.refl item)
        (hvalid item List.mem_cons_self) hfirst w hw
      rw [transferAll, bind_of_ok hrun₁] at hrun
      obtain ⟨items', w₂, hrun₂, hlast⟩ := bind_ok.mp hrun
      have hne := hyields w₁ items' w₂ hw₁ hrun₂
      cases hlast
      exact fun heq => hne (List.cons.inj heq).2
    · obtain ⟨prior, hkind, hreturns⟩ := transfer_other hlead hfirst
      refine ⟨prior :: items, .cons hkind hsame, ?_⟩
      intro w out w' hw hrun
      obtain ⟨item', w₁, hrun₁, hne⟩ := hreturns w hw
      rw [transferAll, bind_of_ok hrun₁] at hrun
      obtain ⟨items', w₂, hrun₂, hlast⟩ := bind_ok.mp hrun
      cases hlast
      exact fun heq => hne (List.cons.inj heq).1

/-! ### The round trip -/

/-- Encoding keeps to the buffer, and what is in the stream then is decoded to the same
    values in a good status, whatever pieces it is read in and whatever was in their place. -/
def AsciiRoundTrips (items : List WireItem) (w : Wire) : Prop :=
  ∃ w' text, transferAll saneiCodecAscii items w = .ok (items, w') ∧ w'.status = 0 ∧
    w'.stream = w.stream ++ text ∧
    ∀ (ver' : Int) (r : Wire) (rest : List SaneByte) (priors : List WireItem),
      r.Ready ver' → r.pending = text ++ rest → List.Forall₂ WireItem.SameKind priors items →
      ∃ r', transferAll saneiCodecAscii priors r = .ok (items, r') ∧ r'.status = 0

/-- The condition under which a sequence comes back, when writing starts at `curr`. -/
structure AsciiOk (size curr : Nat) (items : List WireItem) : Prop where
  quotes : AllFit size curr items
  words : .word 0x80000000 ∉ items
  chars : ∀ c, .char c ∉ items.tail

theorem allReadBack_newline {items : List WireItem} :
    AllReadBack [newline] items ↔ .word 0x80000000 ∉ items ∧ ∀ c, .char c ∉ items := by
  induction items with
  | nil => simp [AllReadBack]
  | cons item items ih =>
    rw [AllReadBack, ih]
    constructor
    · rintro ⟨hitem, hwords, hchars⟩
      refine ⟨fun hmem => ?_, fun c hmem => ?_⟩
      · rcases List.mem_cons.mp hmem with rfl | hmem
        · exact hitem rfl
        · exact hwords hmem
      · rcases List.mem_cons.mp hmem with rfl | hmem
        · exact absurd hitem (List.cons_ne_nil _ _)
        · exact hchars c hmem
    · rintro ⟨hwords, hchars⟩
      refine ⟨?_, fun hmem => hwords (List.mem_cons_of_mem _ hmem),
        fun c hmem => hchars c (List.mem_cons_of_mem _ hmem)⟩
      cases item with
      | byte b => trivial
      | string s => trivial
      | word w => exact fun hw => hwords (hw ▸ List.mem_cons_self)
      | char c => exact absurd List.mem_cons_self (hchars c)

theorem allReadBack_iff {items : List WireItem} :
    AllReadBack [] items ↔ .word 0x80000000 ∉ items ∧ ∀ c, .char c ∉ items.tail := by
  cases items with
  | nil => simp [AllReadBack]
  | cons item items =>
    rw [AllReadBack, allReadBack_newline]
    cases item with
    | word w => simp [WireItem.ReadsBack, eq_comm, and_assoc]
    | byte b => simp [WireItem.ReadsBack]
    | char c => simp [WireItem.ReadsBack]
    | string s => simp [WireItem.ReadsBack]

theorem Wire.InEncode.fills {w : Wire} (hw : w.InEncode ver) (hs : w.status = 0)
    (hacc : WritesAccept w.io.writes) : w.Fills ver w.buffer.size w.stream w.buffer.curr :=
  ⟨hw, hs, hacc, rfl, rfl, rfl⟩

/-- When there is no room for a quote the encoder leaves the buffer. -/
theorem not_roundTrips_of_full {items : List WireItem} {w : Wire}
    (hvalid : ∀ item ∈ items, item.Valid) (hw : w.InEncode ver) (hs : w.status = 0)
    (hacc : WritesAccept w.io.writes) (hsize : 12 ≤ w.buffer.size)
    (hfull : ¬ AllFit w.buffer.size w.buffer.curr items) : ¬ AsciiRoundTrips items w := by
  rintro ⟨w', text, hrun, -⟩
  obtain ⟨e, hfault⟩ := transferAll_faults hsize hvalid hfull w (hw.fills hs hacc)
  rw [hfault] at hrun
  cases hrun

/-- When a value is lost there is a reader that finds another one. -/
theorem not_roundTrips_of_lost {items : List WireItem} {w : Wire}
    (hvalid : ∀ item ∈ items, item.Valid) (hw : w.InEncode ver) (hs : w.status = 0)
    (hacc : WritesAccept w.io.writes) (hsize : 12 ≤ w.buffer.size)
    (hfit : AllFit w.buffer.size w.buffer.curr items) (hlost : ¬ AllReadBack [] items) :
    ¬ AsciiRoundTrips items w := by
  rintro ⟨w', text, hrun, -, hstream, hread⟩
  obtain ⟨items', w₁, hrun₁, -, curr', hw₁⟩ :=
    transferAll_fills hsize hvalid hfit w (hw.fills hs hacc)
  rw [hrun] at hrun₁
  cases hrun₁
  have htext : text = itemsText items := List.append_cancel_left (hstream.symm.trans hw₁.written)
  subst htext
  obtain ⟨priors, hkinds, hyields⟩ := @transferAll_other _ [] [] _ (.inl rfl) hvalid hlost
  have hready := @decodingWire_ready (itemsText items) [] (by simp [ReadsDeliver])
  obtain ⟨r', hdecode, -⟩ := hread 0 _ [] priors hready (List.append_nil _).symm hkinds
  have hawaits : Wire.Awaits 0 ([] ++ (itemsText items ++ [])) 0 (decodingWire (itemsText items) []) :=
    ⟨hready, (List.append_nil _).symm, Nat.zero_le _⟩
  exact hyields _ items r' hawaits hdecode rfl

theorem ascii_round_trip (items : List WireItem) (hvalid : ∀ item ∈ items, item.Valid) (ver : Int)
    (w : Wire) (hw : w.InEncode ver) (hs : w.status = 0) (hacc : WritesAccept w.io.writes)
    (hsize : 12 ≤ w.buffer.size) :
    AsciiRoundTrips items w ↔ AsciiOk w.buffer.size w.buffer.curr items := by
  constructor
  · intro hround
    have hfit : AllFit w.buffer.size w.buffer.curr items := by
      by_contra hfull
      exact not_roundTrips_of_full hvalid hw hs hacc hsize hfull hround
    have hback : AllReadBack [] items := by
      by_contra hlost
      exact not_roundTrips_of_lost hvalid hw hs hacc hsize hfit hlost hround
    obtain ⟨hwords, hchars⟩ := allReadBack_iff.mp hback
    exact ⟨hfit, hwords, hchars⟩
  · intro hok
    obtain ⟨items', w', hrun, hitems, curr', hw'⟩ :=
      transferAll_fills hsize hvalid hok.quotes w (hw.fills hs hacc)
    rw [hitems] at hrun
    refine ⟨w', itemsText items, hrun, hw'.good, hw'.written, ?_⟩
    intro ver' r rest priors hready hpending hkinds
    have hback : AllReadBack [] items := allReadBack_iff.mpr ⟨hok.words, hok.chars⟩
    have hawaits : r.Awaits ver' ([] ++ (itemsText items ++ rest)) 0 :=
      ⟨hready, hpending, Nat.zero_le _⟩
    obtain ⟨items'', r', hdecode, hitems', hgood⟩ :=
      transferAll_awaits (fun b hb => absurd hb List.not_mem_nil) hkinds hvalid hback r hawaits
    rw [hitems'] at hdecode
    exact ⟨r', hdecode, hgood⟩

instance (size curr : Nat) : DecidablePred (WireItem.QuoteFits size curr)
  | .byte _ | .char _ | .word _ => isTrue trivial
  | .string .null | .string .wild => isTrue trivial
  | .string (.block bs) => inferInstanceAs (Decidable (closingPlace size curr bs < size))

instance decidableAllFit (size : Nat) : (curr : Nat) → DecidablePred (AllFit size curr)
  | _, [] => isTrue trivial
  | curr, item :: items =>
      have := decidableAllFit size (item.position size curr) items
      inferInstanceAs (Decidable (item.QuoteFits size curr ∧ AllFit size _ items))

/-- The wire of a new connection, with the write pointer at `curr`. -/
def encodingAt (curr : Nat) : Wire :=
  { saneiWInit ⟨[], [], [.accept 3], []⟩ [] 0 with
    buffer := ⟨8192, List.replicate 8192 0, curr, 8192⟩ }

theorem encodingAt_inEncode {curr : Nat} (hcurr : curr ≤ 8192) : (encodingAt curr).InEncode 0 :=
  ⟨rfl, rfl, ⟨hcurr, Nat.le_refl _, List.length_replicate, show 4 ≤ 8192 by decide⟩, rfl⟩

theorem encodingAt_accepts (curr : Nat) : WritesAccept (encodingAt curr).io.writes := by
  rintro r hr
  exact ⟨3, List.mem_singleton.mp hr⟩

/-- One value of each kind, in a buffer that has to be drained in between. -/
theorem ascii_round_trip_mixed :
    AsciiRoundTrips [.char 0x5c, .byte 0xfe, .word 0xfffffffb, .string .null,
      .string (.block [0x61, 0x22, 0])] (encodingAt 8180) := by
  refine (ascii_round_trip _ ?_ 0 (encodingAt 8180) (encodingAt_inEncode (by decide)) rfl
    (encodingAt_accepts 8180) (show 12 ≤ 8192 by decide)).mpr ⟨?_, by decide, ?_⟩
  · intro item hitem
    simp only [List.mem_cons, List.not_mem_nil, or_false] at hitem
    rcases hitem with rfl | rfl | rfl | rfl | rfl
    · trivial
    · trivial
    · trivial
    · exact .inl rfl
    · exact .inr ⟨[0x61, 0x22], by decide, rfl⟩
  · show AllFit 8192 8180 _
    decide +kernel
  · intro c
    simp

/-- A quote behind the buffer, a char behind a word, and the smallest word. -/
theorem ascii_round_trip_loses :
    ¬ AsciiRoundTrips [.string (.block [0])] (encodingAt 8191) ∧
      ¬ AsciiRoundTrips [.word 3, .char 0x41] (encodingAt 0) ∧
      ¬ AsciiRoundTrips [.word 0x80000000] (encodingAt 0) := by
  refine ⟨?_, ?_, ?_⟩
  · refine not_roundTrips_of_full ?_ (encodingAt_inEncode (by decide)) rfl
      (encodingAt_accepts 8191) (show 12 ≤ 8192 by decide) ?_
    · intro item hitem
      rw [List.mem_singleton.mp hitem]
      exact .inr ⟨[], List.not_mem_nil, rfl⟩
    · show ¬ AllFit 8192 8191 _
      decide +kernel
  · refine not_roundTrips_of_lost ?_ (encodingAt_inEncode (by decide)) rfl (encodingAt_accepts 0)
      (show 12 ≤ 8192 by decide) ⟨trivial, trivial, trivial⟩ fun h => ?_
    · intro item hitem
      simp only [List.mem_cons, List.not_mem_nil, or_false] at hitem
      rcases hitem with rfl | rfl <;> trivial
    · exact List.cons_ne_nil _ _ h.2.1
  · refine not_roundTrips_of_lost ?_ (encodingAt_inEncode (by decide)) rfl (encodingAt_accepts 0)
      (show 12 ≤ 8192 by decide) ⟨trivial, trivial⟩ fun h => h.1 rfl
    intro item hitem
    rw [List.mem_singleton.mp hitem]
    trivial

end SaneBackends

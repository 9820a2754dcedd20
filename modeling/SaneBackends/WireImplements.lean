import SaneBackends.WireTriples
import SaneBackends.WireFormat

/-!
# Wire functions that implement a format

`Implements ver codec F` connects the code with its format: in each of the three
directions the wire function `codec` does what `F` says, on a wire of protocol
version `ver`.  It holds of the scalars by what the buffer does, and of pairs,
choices, arrays and pointers when it holds of their parts.
-/

namespace SaneBackends

open FaultState WordBytes Overwrite

variable {α β μ ν : Type} {ver : Int}

structure Implements (ver : Int) (codec : WireCodecFunc α) (F : WireFormat α μ) : Prop where
  /-- A message that comes in is decoded to its value. -/
  reads : ∀ prior m, F.Valid m →
    DecodesAs ver (codec prior) (F.bytes m) (F.value prior m) (F.memory m)
  /-- Whatever is decoded with a good status was a message. -/
  accepts : ∀ prior, DecodesFrom ver (codec prior) fun bs δ v =>
    ∃ m, F.Valid m ∧ bs = F.bytes m ∧ v = F.value prior m ∧ δ = F.memory m
  /-- The limit is passed only by pointers that the stream announces. -/
  overruns : ∀ prior, OverrunsFrom ver (codec prior) F.Overruns
  /-- A value is encoded as it should be; a well-formed one unless a write fails. -/
  writes : ∀ v bs, F.encoding v = some bs →
    EncodesAs ver (codec v) bs v (F.content v).isSome
  frees : ∀ v, F.Consistent v → ∃ v', FreesAs ver (codec v) v' (F.held v)

/-! ### Transfers between the buffer and a scalar -/

theorem take_pending {w : Wire} {n : Nat} (hn : n ≤ w.buffer.unread.length) :
    (w.buffer.mem.drop w.buffer.curr).take n = w.pending.take n := by
  have hle : n ≤ w.buffer.endp - w.buffer.curr := by
    simp only [WireBuffer.unread, List.length_take] at hn
    omega
  rw [Wire.pending, List.take_append_of_le_length hn, WireBuffer.unread, List.take_take,
    Nat.min_eq_left hle]

/-- `getBytes` takes bytes off the stream; nothing else of the wire changes. -/
theorem getBytes_pending {w : Wire} {n : Nat} (hb : w.buffer.Ok)
    (hn : n ≤ w.buffer.unread.length) :
    ∃ b : WireBuffer, getBytes n w = .ok (w.pending.take n, { w with buffer := b }) ∧
      b.Ok ∧ ({ w with buffer := b } : Wire).pending = w.pending.drop n := by
  have hlen := hb.length_unread
  have hend := hb.endp_le
  have hfit : w.buffer.curr + n ≤ w.buffer.endp := by
    have := hb.curr_le
    omega
  refine ⟨{ w.buffer with curr := w.buffer.curr + n }, ?_, ⟨hfit, hend, hb.length, hb.room⟩, ?_⟩
  · rw [getBytes_run n w (by omega), take_pending hn]
  · have hunread : ({ w.buffer with curr := w.buffer.curr + n } : WireBuffer).unread =
        w.buffer.unread.drop n := by
      simp only [WireBuffer.unread, List.drop_take, List.drop_drop]
      congr 1
      omega
    change _ ++ _ = (w.buffer.unread ++ w.io.inbound).drop n
    rw [hunread, List.drop_append_of_le_length hn]

/-- `putBytes` appends to the stream that is produced. -/
theorem putBytes_stream {w : Wire} {bs : List SaneByte} (hb : w.buffer.Ok)
    (hfit : w.buffer.curr + bs.length ≤ w.buffer.endp) :
    ∃ b : WireBuffer, putBytes bs w = .ok ((), { w with buffer := b }) ∧
      b.Ok ∧ b.endp = w.buffer.endp ∧ b.size = w.buffer.size ∧
      ({ w with buffer := b } : Wire).stream = w.stream ++ bs := by
  have hend := hb.endp_le
  have hmem := hb.length
  refine ⟨_, putBytes_run bs w (by omega), ⟨hfit, hend, ?_, hb.room⟩, rfl, rfl, ?_⟩
  · rw [length_overwrite (by omega)]
    exact hmem
  · change w.io.sent ++ (overwrite w.buffer.mem w.buffer.curr bs).take _ = _
    rw [take_overwrite (by omega), ← List.append_assoc]
    rfl

section Transfer

variable {n : Nat} {store : α → List SaneByte} {load : List SaneByte → α}

theorem binTransfer_of_getBytes {w w' : Wire} {bs : List SaneByte} (prior : α)
    (hs : (w.space n).status = 0) (hdir : (w.space n).direction = .decode)
    (hget : getBytes n (w.space n) = .ok (bs, w')) :
    binTransfer n store load prior w = .ok (load bs, w') := by
  simp only [binTransfer, bind_run, saneiWSpace_run, wireStatus_run, hs, ne_eq,
    not_true_eq_false, ↓reduceIte, wireDirection_run, hdir, hget, pure_run]

theorem binTransfer_of_bad {w : Wire} (v : α) (hs : (w.space n).status ≠ 0) :
    binTransfer n store load v w = .ok (v, w.space n) := by
  simp only [binTransfer, bind_run, saneiWSpace_run, wireStatus_run, hs, ne_eq,
    not_false_eq_true, ↓reduceIte, pure_run]

/-- Reading moves nothing but the input side of the wire. -/
theorem DecodeStep.of_same {w w₁ : Wire} {b : WireBuffer} {l : List SaneByte}
    {Q : List SaneByte → Nat → Prop} (hdec : w₁.InDecode ver) (hb : b.Ok)
    (hsame : w.SameOutput w₁) (hbs : w.pending = l ++ ({ w₁ with buffer := b } : Wire).pending)
    (hQ : w₁.status = 0 → w.status = 0 ∧ Q l 0) :
    DecodeStep ver w { w₁ with buffer := b } Q := by
  refine ⟨⟨hdec.dir, hdec.version, hb⟩, hsame.sent, fun hf => ?_, l, 0, hbs, ?_,
    fun h0 hmax _ => ?_, hQ⟩
  · change w₁.heap.ptrOverrun = true
    rw [hsame.heap]
    exact hf
  · change w₁.heap.live = _
    rw [hsame.heap]
    simp
  · change w₁.allocatedMemory = _ ∧ w₁.allocatedMemory ≤ _
    rw [hsame.allocated]
    exact ⟨by simp, hmax⟩

theorem binTransfer_reads (hn : n ≤ 4) (hlen : ∀ v, (store v).length = n)
    (hload : ∀ v, load (store v) = v) (prior m : α) :
    DecodesAs ver (binTransfer n store load prior) (store m) m 0 := by
  intro w rest hw hp h0 hmax
  have hroom : n ≤ w.buffer.size := hn.trans hw.buf.room
  have hready := hw.space hroom (by rw [hp, List.length_append, hlen]; omega)
  obtain ⟨-, hpend, hsame, hmuch⟩ := hw.toInDecode.space n
  obtain ⟨b, hget, hb, hpend'⟩ := getBytes_pending hready.buf (hmuch hready.good).2
  have htake : (w.space n).pending.take n = store m := by
    rw [hpend, hp, ← hlen m, List.take_left]
  refine ⟨{ w.space n with buffer := b }, ?_, ⟨⟨hready.dir, hready.version, hb⟩, hready.good,
    hready.reads, hready.mallocs⟩, ?_, ?_⟩
  · rw [binTransfer_of_getBytes prior hready.good hready.dir hget, htake, hload]
  · rw [hpend', hpend, hp, ← hlen m, List.drop_left]
  · change (w.space n).allocatedMemory = _
    rw [hsame.allocated]
    simp

theorem binTransfer_accepts (hstore : ∀ bs, bs.length = n → store (load bs) = bs) (prior : α) :
    DecodesFrom ver (binTransfer n store load prior) fun bs δ v =>
      ∃ m, True ∧ bs = store m ∧ v = m ∧ δ = 0 := by
  intro w v w' hw hrun
  obtain ⟨hdec, hpend, hsame, hmuch⟩ := hw.space n
  by_cases hs : (w.space n).status = 0
  · obtain ⟨b, hget, hb, hpend'⟩ := getBytes_pending hdec.buf (hmuch hs).2
    have hle : n ≤ (w.space n).pending.length := by
      rw [Wire.pending, List.length_append]
      have := (hmuch hs).2
      omega
    rw [binTransfer_of_getBytes prior hs hdec.dir hget] at hrun
    cases hrun
    refine .of_same (l := (w.space n).pending.take n) hdec hb hsame ?_ fun hs => ⟨(hmuch hs).1, ?_⟩
    · rw [hpend', List.take_append_drop, hpend]
    · refine ⟨_, trivial, (hstore _ ?_).symm, rfl, rfl⟩
      rw [List.length_take]
      omega
  · rw [binTransfer_of_bad prior hs] at hrun
    cases hrun
    exact .of_same (l := []) hdec hdec.buf hsame hpend.symm fun h => absurd h hs

theorem binTransfer_overruns (prior : α) {O : Int → List SaneByte → Prop} :
    OverrunsFrom ver (binTransfer n store load prior) O := by
  refine .of_flag fun w v w' hw hrun => ?_
  obtain ⟨hdec, -, hsame, hmuch⟩ := hw.space n
  rw [← hsame.heap]
  by_cases hs : (w.space n).status = 0
  · obtain ⟨b, hget, -, -⟩ := getBytes_pending hdec.buf (hmuch hs).2
    rw [binTransfer_of_getBytes prior hs hdec.dir hget] at hrun
    cases hrun
    rfl
  · rw [binTransfer_of_bad prior hs] at hrun
    cases hrun
    rfl

theorem binTransfer_writes (hn : n ≤ 4) (hlen : ∀ v, (store v).length = n) (v : α) :
    EncodesAs ver (binTransfer n store load v) (store v) v True where
  bad w hdir hver hs := by
    have hsp : w.space n = w := Wire.space_of_bad hs n
    exact ⟨⟨w.status, hs⟩, by rw [binTransfer_of_bad v (by rwa [hsp]), hsp]⟩
  good w hw hs := by
    obtain ⟨hok, hsame, hout, haccepts⟩ := hw.space hs n (hn.trans hw.buf.room)
    rcases hout with ⟨hst, hfull, hfit, hstream⟩ | ⟨hst, hsent⟩
    · have hfit' : (w.space n).buffer.curr + (store v).length ≤ (w.space n).buffer.endp := by
        rw [hlen, hfull]
        exact hfit
      obtain ⟨b, hput, hb, hend, hsize, hstream'⟩ := putBytes_stream hok hfit'
      refine ⟨{ w.space n with buffer := b }, ?_, ?_⟩
      · simp only [binTransfer, bind_run, saneiWSpace_run, wireStatus_run, hst, ne_eq,
          not_true_eq_false, ↓reduceIte, wireDirection_run, hsame.dir, hw.dir, hput, pure_run]
      · refine ⟨hsame.dir.trans hw.dir, hsame.version.trans hw.version, hb, hsame.sent,
          .inl ⟨hst, ?_, ?_⟩, fun _ hws => haccepts hws⟩
        · change b.endp = b.size
          rw [hend, hsize, hfull, hsame.size]
        · rw [hstream', hstream]
    · refine ⟨w.space n, ?_, hsame.dir.trans hw.dir, hsame.version.trans hw.version, hok,
        hsame.sent, .inr ⟨hst, hsent.trans (List.prefix_append _ _)⟩, fun _ hws => haccepts hws⟩
      exact binTransfer_of_bad v hst

theorem binTransfer_frees (v : α) : FreesAs ver (binTransfer n store load v) v 0 := by
  intro w hdir _ _ _
  rw [Wire.released_zero]
  simp only [binTransfer, bind_run, saneiWSpace_run, Wire.space_of_free hdir, wireStatus_run,
    wireDirection_run, hdir, ite_run, pure_run, ite_self]

theorem binTransfer_implements (hn : n ≤ 4) (hlen : ∀ v, (store v).length = n)
    (hload : ∀ v, load (store v) = v) (hstore : ∀ bs, bs.length = n → store (load bs) = bs) :
    Implements ver (binTransfer n store load) (.fixed store) where
  reads prior m _ := binTransfer_reads hn hlen hload prior m
  accepts prior := binTransfer_accepts hstore prior
  overruns prior := binTransfer_overruns prior
  writes v bs h := by
    cases h
    exact (binTransfer_writes hn hlen v).cast rfl rfl fun _ => trivial
  frees v _ := ⟨v, binTransfer_frees v⟩

end Transfer

theorem binWByte_implements : Implements ver binWByte byteFormat := by
  refine binTransfer_implements (by decide) (fun _ => rfl) (fun _ => rfl) fun bs hbs => ?_
  match bs, hbs with
  | [b], _ => rfl

theorem binWWord_implements : Implements ver binWWord wordFormat :=
  binTransfer_implements (le_refl 4) length_bytesBE ofBytesBE_bytesBE
    fun _ h => bytesBE_ofBytesBE h

theorem binWWord_reads (prior v : SaneWord) :
    DecodesAs ver (binWWord prior) (bytesBE v) v 0 := binWWord_implements.reads prior v trivial

theorem binWWord_accepts (prior : SaneWord) :
    DecodesFrom ver (binWWord prior) fun bs δ v => bs = bytesBE v ∧ δ = 0 := by
  refine (binWWord_implements.accepts prior).conseq ?_
  rintro bs δ v ⟨m, -, rfl, rfl, rfl⟩
  exact ⟨rfl, rfl⟩

theorem binWWord_overruns (prior : SaneWord) {O : Int → List SaneByte → Prop} :
    OverrunsFrom ver (binWWord prior) O := binTransfer_overruns prior

theorem binWWord_writes (v : SaneWord) : EncodesAs ver (binWWord v) (bytesBE v) v True :=
  binTransfer_writes (le_refl 4) length_bytesBE v

theorem binWWord_frees (v : SaneWord) : FreesAs ver (binWWord v) v 0 := binTransfer_frees v

theorem saneiWVoid_implements : Implements ver saneiWVoid voidFormat where
  reads _ _ _ := .pure ()
  accepts _ := .pure ⟨(), trivial, rfl, rfl, rfl⟩
  overruns _ := .pure
  writes v bs h := by
    cases h
    exact (EncodesAs.pure v).cast rfl rfl fun _ => trivial
  frees v _ := ⟨v, .pure v⟩

/-! ### Pairs and choices -/

def pairCodec (c : WireCodecFunc α) (d : WireCodecFunc β) : WireCodecFunc (α × β) := fun v => do
  let a ← c v.1
  let b ← d v.2
  return (a, b)

def keyedCodec (d : SaneWord → WireCodecFunc β) : WireCodecFunc (SaneWord × β) := fun v => do
  let k ← binWWord v.1
  let b ← d k v.2
  return (k, b)

section Composition

variable {c : WireCodecFunc α} {d : WireCodecFunc β} {F : WireFormat α μ} {G : WireFormat β ν}

theorem Implements.pair (hc : Implements ver c F) (hd : Implements ver d G) :
    Implements ver (pairCodec c d) (F.pair G) where
  reads prior m hm :=
    .bind (hc.reads prior.1 m.1 hm.1) (.map (hd.reads prior.2 m.2 hm.2) (Prod.mk _))
  accepts prior := by
    refine (hc.accepts prior.1).bind (fun a => (hd.accepts prior.2).map (Prod.mk a)
      (Q := fun bs δ v => ∃ m, G.Valid m ∧ bs = G.bytes m ∧ v = (a, G.value prior.2 m) ∧
        δ = G.memory m) ?_) ?_
    · rintro bs δ b ⟨m, hm, rfl, rfl, rfl⟩
      exact ⟨m, hm, rfl, rfl, rfl⟩
    · rintro a bs₁ bs₂ δ₁ δ₂ v ⟨m, hm, rfl, rfl, rfl⟩ ⟨m', hm', rfl, rfl, rfl⟩
      exact ⟨(m, m'), ⟨hm, hm'⟩, rfl, rfl, rfl⟩
  overruns prior := by
    refine (hc.overruns prior.1).bind (hc.accepts prior.1)
      (fun a => (hd.overruns prior.2).map (Prod.mk a)) (fun _ _ => .inl) ?_
    rintro a bs δ n s ⟨m, hm, rfl, rfl, rfl⟩ - h
    exact .inr ⟨m, s, hm, rfl, h⟩
  writes v bs h := by
    obtain ⟨bs₁, h₁, h⟩ := Option.bind_eq_some_iff.mp h
    obtain ⟨bs₂, h₂, rfl⟩ := Option.map_eq_some_iff.mp h
    have ha := hc.writes v.1 bs₁ h₁
    have hb := hd.writes v.2 bs₂ h₂
    refine .cast (.bind ha (.map hb (Prod.mk v.1))) rfl rfl fun hok => ?_
    obtain ⟨m, hm⟩ := Option.isSome_iff_exists.mp hok
    obtain ⟨m₁, h₁, hm⟩ := Option.bind_eq_some_iff.mp hm
    obtain ⟨m₂, h₂, -⟩ := Option.map_eq_some_iff.mp hm
    rw [h₁, h₂]
    exact ⟨rfl, rfl⟩
  frees v h := by
    obtain ⟨a, ha⟩ := hc.frees v.1 h.1
    obtain ⟨b, hb⟩ := hd.frees v.2 h.2
    exact ⟨(a, b), .bind ha (.map hb (Prod.mk a))⟩

theorem Implements.keyed {d : SaneWord → WireCodecFunc β} {G : SaneWord → WireFormat β ν}
    (hd : ∀ k, Implements ver (d k) (G k)) :
    Implements ver (keyedCodec d) (.keyed G) where
  reads prior m hm :=
    .cast (.bind (binWWord_reads prior.1 m.1)
      (.map ((hd m.1).reads prior.2 m.2 hm) (Prod.mk _))) rfl rfl (Nat.zero_add _)
  accepts prior := by
    refine (binWWord_accepts prior.1).bind
      (fun k => ((hd k).accepts prior.2).map (Prod.mk k)
        (Q := fun bs δ v => ∃ m, (G k).Valid m ∧ bs = (G k).bytes m ∧
          v = (k, (G k).value prior.2 m) ∧ δ = (G k).memory m) ?_) ?_
    · rintro bs δ b ⟨m, hm, rfl, rfl, rfl⟩
      exact ⟨m, hm, rfl, rfl, rfl⟩
    · rintro k bs₁ bs₂ δ₁ δ₂ v ⟨rfl, rfl⟩ ⟨m', hm', rfl, rfl, rfl⟩
      exact ⟨(k, m'), hm', rfl, rfl, Nat.zero_add _⟩
  overruns prior := by
    refine (binWWord_overruns prior.1 (O := fun _ _ => False)).bind (binWWord_accepts prior.1)
      (fun k => ((hd k).overruns prior.2).map (Prod.mk k)) (fun _ _ => False.elim) ?_
    rintro k bs δ n s ⟨rfl, rfl⟩ - h
    rw [Nat.cast_zero, add_zero] at h
    exact ⟨k, s, rfl, h⟩
  writes v bs h := by
    obtain ⟨bs₂, h₂, rfl⟩ := Option.map_eq_some_iff.mp h
    have hb := (hd v.1).writes v.2 bs₂ h₂
    refine .cast (.bind (binWWord_writes v.1) (.map hb (Prod.mk v.1))) rfl rfl
      fun hok => ⟨trivial, ?_⟩
    simpa [WireFormat.keyed] using hok
  frees v h := by
    obtain ⟨b, hb⟩ := (hd v.1).frees v.2 h
    exact ⟨(v.1, b), .cast (.bind (binWWord_frees v.1) (.map hb (Prod.mk v.1))) rfl
      (Nat.zero_add _)⟩

theorem Implements.optional (hc : Implements ver c F) (transferred : Prop)
    [Decidable transferred] :
    Implements ver (fun v => if transferred then c v else return v)
      (F.optional transferred) where
  reads prior m hm := by
    cases m with
    | none =>
      have hnot : ¬ transferred := hm
      simp only [if_neg hnot]
      exact .pure prior
    | some m =>
      simp only [if_pos hm.1]
      exact hc.reads prior m hm.2
  accepts prior := by
    by_cases ht : transferred
    · simp only [if_pos ht]
      refine (hc.accepts prior).conseq ?_
      rintro bs δ v ⟨m, hm, rfl, rfl, rfl⟩
      exact ⟨some m, ⟨ht, hm⟩, rfl, rfl, rfl⟩
    · simp only [if_neg ht]
      exact .pure ⟨none, ht, rfl, rfl, rfl⟩
  overruns prior := by
    by_cases ht : transferred
    · simp only [if_pos ht]
      exact (hc.overruns prior).conseq fun _ _ h => ⟨ht, h⟩
    · simp only [if_neg ht]
      exact .pure
  writes v bs h := by
    by_cases ht : transferred
    · simp only [WireFormat.optional, if_pos ht] at h ⊢
      exact (hc.writes v bs h).cast rfl rfl fun hok => by simpa using hok
    · simp only [WireFormat.optional, if_neg ht, Option.some.injEq] at h ⊢
      subst h
      exact (EncodesAs.pure v).cast rfl rfl fun _ => trivial
  frees v h := by
    by_cases ht : transferred
    · simp only [WireFormat.optional, if_pos ht] at h ⊢
      exact hc.frees v h
    · simp only [WireFormat.optional, if_neg ht] at h ⊢
      exact ⟨v, (FreesAs.pure v).cast rfl h.symm⟩

/-- A wire function that works on another representation of the values. -/
theorem Implements.map (hc : Implements ver c F) (e : α ≃ β) (f : μ ≃ ν)
    (hcodec : ∀ v, d v = do let a ← c (e.symm v); return e a) :
    Implements ver d (F.map e f) where
  reads prior m hm := by
    rw [hcodec]
    exact (hc.reads (e.symm prior) (f.symm m) hm).map e
  accepts prior := by
    rw [hcodec]
    refine (hc.accepts (e.symm prior)).map e ?_
    rintro bs δ a ⟨m, hm, rfl, rfl, rfl⟩
    refine ⟨f m, ?_, ?_, ?_, ?_⟩ <;> simp [WireFormat.map, hm]
  overruns prior := by
    rw [hcodec]
    exact (hc.overruns (e.symm prior)).map e
  writes v bs h := by
    rw [hcodec]
    refine ((hc.writes (e.symm v) bs h).map e).cast rfl (e.apply_symm_apply v) fun hok => ?_
    simpa [WireFormat.map] using hok
  frees v h := by
    obtain ⟨a, ha⟩ := hc.frees (e.symm v) h
    rw [hcodec]
    exact ⟨e a, ha.map e⟩

end Composition

end SaneBackends

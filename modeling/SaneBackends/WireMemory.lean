import SaneBackends.MessageTypes
import SaneBackends.LabelledRun

/-!
# The memory a decoder allocates

`allocated_memory` is charged with the lengths that come over the wire, and a value
is freed with the lengths that are found in it.  The books are right as long as
these agree and no stream announces a pointer for which `sanei_w_ptr`, which does not
look at the total, goes past the limit.  Then they are right in every run of decoding
and freeing.
-/

namespace SaneBackends

open FaultState WordBytes LabelledRun

/-- A decoding wire and the decoded values that have not been freed. -/
structure DecoderState where
  wire : Wire
  values : List (Σ m : MessageType, m.Val)

inductive MemoryOp where
  /-- `w->status = 0`, as at the start of a call. -/
  | clear
  | decode (m : MessageType) (prior : m.Val)
  /-- `sanei_w_free` of one of the decoded values. -/
  | free (k : Nat)

/-- What a failed decoding leaves behind is not a value. -/
def MemoryOp.run : MemoryOp → DecoderState → Except Fault DecoderState
  | .clear, s => .ok { s with wire := { s.wire with status := 0 } }
  | .decode m prior, s =>
      match m.wMessage saneiCodecBin prior s.wire with
      | .error e => .error e
      | .ok (v, w) => .ok ⟨w, if w.status = 0 then s.values ++ [⟨m, v⟩] else s.values⟩
  | .free k, s =>
      match s.values[k]? with
      | none => .ok s
      | some ⟨m, v⟩ =>
          match saneiWFree (m.wMessage saneiCodecBin) v s.wire with
          | .error e => .error e
          | .ok (_, w) => .ok ⟨w, s.values.eraseIdx k⟩

variable {ver : Int}

/-- The structure decoded into owns nothing, and with what has been allocated before no
    pointer that the stream announces goes past the limit; a value to be freed holds the
    lengths of its blocks. -/
def MemoryOp.Regular (ver : Int) (s : DecoderState) : MemoryOp → Prop
  | .clear => True
  | .decode m prior => (m.format ver).held prior = 0 ∧
      ¬ (m.format ver).Overruns s.wire.allocatedMemory s.wire.pending
  | .free k => ∀ m v, s.values[k]? = some ⟨m, v⟩ → (m.format ver).Consistent v

def MemoryOp.Step (ver : Int) (s : DecoderState) (op : MemoryOp) (s' : DecoderState) : Prop :=
  op.run s = .ok s' ∧ op.Regular ver s

/-- The memory that the decoded values own. -/
def ownedMemory (ver : Int) (values : List (Σ m : MessageType, m.Val)) : Nat :=
  (values.map fun v => (v.1.format ver).held v.2).sum

/-- The books are right. -/
structure DecoderState.Balanced (ver : Int) (s : DecoderState) : Prop where
  wire : s.wire.InDecode ver
  flag : s.wire.heap.ptrOverrun = false
  counted : s.wire.allocatedMemory = s.wire.heap.live
  le_max : s.wire.allocatedMemory ≤ MAX_MEM
  owned : ownedMemory ver s.values ≤ s.wire.allocatedMemory

theorem ownedMemory_append (values : List (Σ m : MessageType, m.Val)) (m : MessageType)
    (v : m.Val) :
    ownedMemory ver (values ++ [⟨m, v⟩]) = ownedMemory ver values + (m.format ver).held v := by
  simp [ownedMemory]

theorem ownedMemory_eraseIdx {values : List (Σ m : MessageType, m.Val)} {k : Nat}
    {m : MessageType} {v : m.Val} (h : values[k]? = some ⟨m, v⟩) :
    ownedMemory ver (values.eraseIdx k) + (m.format ver).held v = ownedMemory ver values := by
  induction values generalizing k with
  | nil => cases h
  | cons x values ih =>
    cases k with
    | zero =>
      cases h
      simp [ownedMemory, Nat.add_comm]
    | succ k =>
      have hrest := ih (k := k) h
      simp only [ownedMemory, List.eraseIdx_cons_succ, List.map_cons, List.sum_cons] at hrest ⊢
      omega

/-! ### One operation -/

theorem MemoryOp.run_decode {s : DecoderState} {m : MessageType} {prior v : m.Val} {w : Wire}
    (hdec : m.wMessage saneiCodecBin prior s.wire = .ok (v, w)) (hgood : w.status = 0) :
    (MemoryOp.decode m prior).run s = .ok ⟨w, s.values ++ [⟨m, v⟩]⟩ := by
  simp only [MemoryOp.run, hdec, if_pos hgood]

/-- Decoding charges exactly what the value owns. -/
theorem decode_balanced {s s' : DecoderState} {m : MessageType} {prior : m.Val}
    (hs : s.Balanced ver) (h : MemoryOp.Step ver s (.decode m prior) s') :
    s'.Balanced ver ∧ (s'.wire.status = 0 → ∃ v, s'.values = s.values ++ [⟨m, v⟩] ∧
      s'.wire.allocatedMemory = s.wire.allocatedMemory + (m.format ver).held v) := by
  obtain ⟨hrun, hprior, hannounced⟩ := h
  cases hdec : m.wMessage saneiCodecBin prior s.wire with
  | error e => simp only [MemoryOp.run, hdec, reduceCtorEq] at hrun
  | ok r =>
    obtain ⟨v, w⟩ := r
    simp only [MemoryOp.run, hdec, Except.ok.injEq] at hrun
    subst hrun
    have hstep := (m.wMessage_implements ver).accepts prior s.wire v w hs.wire hdec
    obtain ⟨bs, δ, -, hlive, hledger, hgood⟩ := hstep.moved
    have hcounted := hs.counted
    have howned := hs.owned
    have hflag : w.heap.ptrOverrun = false := Bool.eq_false_iff.mpr fun hover =>
      hannounced ((m.wMessage_implements ver).overruns prior s.wire v w hs.wire (by omega)
        hs.le_max hs.flag hdec hover).2
    obtain ⟨hal, hmax⟩ := hledger (by omega) hs.le_max hflag
    by_cases hst : w.status = 0
    · obtain ⟨msg, -, -, rfl, rfl⟩ := (hgood hst).2
      have hheld := (m.format_lawful ver).held_value prior msg hprior
      refine ⟨⟨hstep.after, hflag, ?_, hmax, ?_⟩, fun _ => ⟨_, if_pos hst, ?_⟩⟩
      · simp only
        omega
      · simp only [if_pos hst, ownedMemory_append, hheld, hal]
        push_cast
        omega
      · simp only [hheld, hal]
    · refine ⟨⟨hstep.after, hflag, ?_, hmax, ?_⟩, fun h => absurd h hst⟩
      · simp only
        omega
      · simp only [if_neg hst, hal]
        omega

theorem saneiWFree_run {m : MessageType} {v : m.Val} {w : Wire}
    (hver : w.version = ver) (hv : (m.format ver).Consistent v)
    (hheld : (m.format ver).held v ≤ w.allocatedMemory) (hmax : w.allocatedMemory ≤ MAX_MEM) :
    ∃ v', saneiWFree (m.wMessage saneiCodecBin) v w =
      .ok (v', w.released ((m.format ver).held v)) := by
  obtain ⟨v', hfree⟩ := (m.wMessage_implements ver).frees v hv
  refine ⟨v', ?_⟩
  have hrun := hfree { w with direction := .free } rfl hver hheld hmax
  rw [saneiWFree, bind_of_ok (wireDirection_run w), bind_of_ok (modify_run _ w), bind_of_ok hrun,
    bind_of_ok (modify_run _ _)]
  rfl

/-- Freeing takes off exactly what the value owns. -/
theorem free_balanced {s s' : DecoderState} {k : Nat} {m : MessageType} {v : m.Val}
    (hs : s.Balanced ver) (hk : s.values[k]? = some ⟨m, v⟩)
    (h : MemoryOp.Step ver s (.free k) s') :
    s'.Balanced ver ∧ s'.values = s.values.eraseIdx k ∧
      s'.wire.allocatedMemory = s.wire.allocatedMemory - (m.format ver).held v := by
  obtain ⟨hrun, hregular⟩ := h
  have hcounted := hs.counted
  have howned := hs.owned
  have herase := @ownedMemory_eraseIdx ver _ _ _ _ hk
  obtain ⟨v', hfree⟩ := saneiWFree_run hs.wire.version (hregular m v hk) (by omega)
    hs.le_max
  simp only [MemoryOp.run, hk, hfree, Except.ok.injEq] at hrun
  subst hrun
  have hmax := hs.le_max
  refine ⟨⟨⟨hs.wire.dir, hs.wire.version, hs.wire.buf⟩, hs.flag, ?_, ?_, ?_⟩, rfl, rfl⟩ <;>
    simp only [Wire.released] <;> omega

theorem step_balanced {s s' : DecoderState} {op : MemoryOp} (hs : s.Balanced ver)
    (h : MemoryOp.Step ver s op s') : s'.Balanced ver := by
  cases op with
  | clear =>
    cases h.1
    exact ⟨⟨hs.wire.dir, hs.wire.version, hs.wire.buf⟩, hs.flag, hs.counted, hs.le_max, hs.owned⟩
  | decode m prior => exact (decode_balanced hs h).1
  | free k =>
    cases hk : s.values[k]? with
    | none =>
      have hrun := h.1
      simp only [MemoryOp.run, hk, Except.ok.injEq] at hrun
      rwa [← hrun]
    | some x =>
      obtain ⟨m, v⟩ := x
      exact (free_balanced hs hk h).1

/-! ### Whole runs -/

/-- In every state that regular operations reach, the counter is the memory allocated
    and within the limit, and freeing the value just decoded restores it. -/
theorem memory_balanced {s₀ s : DecoderState} {ops : List MemoryOp} (hs₀ : s₀.Balanced ver)
    (hrun : Run (MemoryOp.Step ver) s₀ ops s) :
    s.wire.allocatedMemory = s.wire.heap.live ∧ s.wire.heap.live ≤ MAX_MEM ∧
      ∀ m prior s₁ s₂, MemoryOp.Step ver s (.decode m prior) s₁ → s₁.wire.status = 0 →
        MemoryOp.Step ver s₁ (.free s.values.length) s₂ →
        s₂.wire.allocatedMemory = s.wire.allocatedMemory ∧ s₂.values = s.values := by
  have hs : s.Balanced ver := hrun.invariant hs₀ fun _ _ _ => step_balanced
  refine ⟨hs.counted, hs.counted ▸ hs.le_max, fun m prior s₁ s₂ hdec hst hfree => ?_⟩
  obtain ⟨hs₁, hvalue⟩ := decode_balanced hs hdec
  obtain ⟨v, hvalues, hcharged⟩ := hvalue hst
  have hk : s₁.values[s.values.length]? = some ⟨m, v⟩ := by
    rw [hvalues, List.getElem?_append_right (Nat.le_refl _), Nat.sub_self]
    rfl
  obtain ⟨-, herase, hreleased⟩ := free_balanced hs₁ hk hfree
  refine ⟨by omega, ?_⟩
  rw [herase, hvalues, List.eraseIdx_append_of_length_le (Nat.le_refl _), Nat.sub_self]
  simp

/-- A decoder that has not decoded anything yet. -/
def freshDecoder (inbound : List SaneByte) : DecoderState := ⟨decodingWire inbound [], []⟩

theorem freshDecoder_balanced (inbound : List SaneByte) :
    (freshDecoder inbound).Balanced 0 where
  wire := (decodingWire_ready inbound (by simp [ReadsDeliver])).toInDecode
  flag := rfl
  counted := rfl
  le_max := show (0 : Int) ≤ MAX_MEM by decide
  owned := le_refl _

/-- Strings hold no pointers. -/
theorem not_overruns_string (a : Int) (bs : List SaneByte) : ¬ stringFormat.Overruns a bs := by
  rintro ⟨n, rest, -, -, ms, rest', -, -, -, h⟩
  exact h

/-- A wire with a string of two bytes. -/
def stringDecoder : DecoderState := freshDecoder [0, 0, 0, 2, 65, 0]

theorem stringDecoder_decode :
    ∃ w, (MemoryOp.decode (.wire .string) .null).run stringDecoder =
        .ok ⟨w, [⟨.wire .string, .block [65, 0]⟩]⟩ ∧ w.status = 0 ∧ w.allocatedMemory = 2 := by
  have hready := @decodingWire_ready [0, 0, 0, 2, 65, 0] [] (by simp [ReadsDeliver])
  have hvalid : stringFormat.Valid [65, 0] := ⟨by decide, fun _ _ => trivial⟩
  obtain ⟨w, hdec, hw, -, hal⟩ := ((MessageType.wire .string).wMessage_implements 0).reads .null
    [65, 0] hvalid _ [] hready rfl (le_refl 0) (by decide)
  exact ⟨w, MemoryOp.run_decode hdec hw.good, hw.good, hal⟩

/-- The string is decoded and freed. -/
theorem memory_balanced_string :
    ∃ s₁ s₂, (MemoryOp.decode (.wire .string) .null).run stringDecoder = .ok s₁ ∧
      s₁.wire.allocatedMemory = 2 ∧ s₁.wire.heap.live = 2 ∧
      (MemoryOp.free 0).run s₁ = .ok s₂ ∧ s₂.wire.allocatedMemory = 0 ∧ s₂.values = [] := by
  obtain ⟨w, hrun, hgood, hal⟩ := stringDecoder_decode
  have hstart : stringDecoder.Balanced 0 := freshDecoder_balanced _
  have hdec : MemoryOp.Step 0 stringDecoder (.decode (.wire .string) .null)
      ⟨w, [⟨.wire .string, .block [65, 0]⟩]⟩ := ⟨hrun, rfl, not_overruns_string _ _⟩
  obtain ⟨hcounted, -, -⟩ := memory_balanced hstart (.snoc .nil hdec)
  have hconsistent : stringFormat.Consistent (.block [65, 0]) :=
    ⟨2, rfl, rfl, fun _ _ => trivial⟩
  have hs₁ := (decode_balanced hstart hdec).1
  obtain ⟨v, hfree⟩ := @saneiWFree_run 0 (.wire .string) (.block [65, 0]) w hs₁.wire.version
    hconsistent (by rw [hal]; decide) hs₁.le_max
  have hfreed : MemoryOp.Step 0 ⟨w, [⟨.wire .string, .block [65, 0]⟩]⟩ (.free 0)
      ⟨w.released 2, []⟩ := by
    refine ⟨?_, fun m v hv => ?_⟩
    · simp only [MemoryOp.run, List.getElem?_cons_zero]
      rw [hfree]
      rfl
    · cases hv
      exact hconsistent
  obtain ⟨-, -, hrestored⟩ := memory_balanced hstart .nil
  obtain ⟨hzero, hnone⟩ := hrestored _ _ _ _ hdec hgood hfreed
  exact ⟨_, _, hrun, hal, hcounted.symm.trans hal, hfreed.1, hzero, hnone⟩

/-- `allocated_memory` and the memory really allocated after each of the operations. -/
def booksAfter : List MemoryOp → DecoderState → List (Int × Int)
  | [], _ => []
  | op :: ops, s =>
      match op.run s with
      | .ok s' => (s'.wire.allocatedMemory, s'.wire.heap.live) :: booksAfter ops s'
      | .error _ => []

/-- An option descriptor with three null strings and the word list `[5]`, a list of one
    word that says five more follow. -/
def overlongWordList : List SaneByte :=
  List.replicate 28 0 ++ [0, 0, 0, 2] ++ [0, 0, 0, 1] ++ [0, 0, 0, 5]

/-- Six words are taken off the account for the one that was allocated. -/
theorem memory_unbalanced :
    booksAfter [.decode (.wire .optionDescriptor) CType.zero, .free 0]
      (freshDecoder overlongWordList) = [(4, 4), (-20, 0)] := by
  decide +kernel

end SaneBackends

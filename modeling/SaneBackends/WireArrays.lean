import SaneBackends.WireImplements
import SaneBackends.SaneFormats

/-!
# Arrays, pointers and strings

`sanei_w_array`, `sanei_w_ptr` and the string function of the binary codec
implement their formats for any element.  These are the functions that allocate:
the books of the wire are kept right by what they test before and charge after.
-/

namespace SaneBackends

open FaultState WordBytes SignedWords

variable {α μ : Type} {ver : Int}

/-! ### Allocation -/

theorem wrap32_of_le_max {x : Int} (h0 : 0 ≤ x) (hmax : x ≤ MAX_MEM) : wrap32 x = x := by
  have : (MAX_MEM : Int) = 1048576 := rfl
  unfold wrap32
  omega

theorem malloc_run (n : Nat) (w : Wire) :
    ∃ h : WireHeap, malloc n w = .ok (w.heap.mallocs.headD true, { w with heap := h }) ∧
      h.mallocs = w.heap.mallocs.tail ∧ h.ptrOverrun = w.heap.ptrOverrun ∧
      h.live = if w.heap.mallocs.headD true then w.heap.live + n else w.heap.live := by
  cases hm : w.heap.mallocs with
  | nil =>
    refine ⟨{ w.heap with live := w.heap.live + n }, ?_, hm, rfl, rfl⟩
    simp only [malloc, bind_run, get_run, hm, set_run, pure_run, List.headD_nil]
  | cons ok rest =>
    refine ⟨⟨rest, if ok then w.heap.live + n else w.heap.live, w.heap.ptrOverrun⟩, ?_, rfl, rfl,
      rfl⟩
    simp only [malloc, bind_run, get_run, hm, set_run, pure_run, List.headD_cons]

theorem Wire.Ready.malloc_head {w : Wire} (hw : w.Ready ver) :
    w.heap.mallocs.headD true = true := by
  cases hm : w.heap.mallocs with
  | nil => rfl
  | cons ok rest => exact hw.mallocs ok (by rw [hm]; exact List.mem_cons_self)

theorem Wire.Ready.mallocs_tail {w : Wire} (hw : w.Ready ver) :
    ∀ ok ∈ w.heap.mallocs.tail, ok = true :=
  fun ok hok => hw.mallocs ok (List.mem_of_mem_tail hok)

/-- What the test in `sanei_w_array` lets through. -/
theorem arrayOverLimit_eq_false {allocated : Int} {len : SaneWord} {es : Nat}
    (h0 : 0 ≤ allocated) (hmax : allocated ≤ MAX_MEM) :
    arrayOverLimit allocated len es = false ↔
      len.toNat ≤ MAX_MEM ∧ len.toNat * es ≤ MAX_MEM ∧ allocated + len.toNat * es ≤ MAX_MEM := by
  have hmem : (MAX_MEM : Int) = 1048576 := rfl
  have hmemN : MAX_MEM = 1048576 := rfl
  simp only [arrayOverLimit, Bool.or_eq_false_iff, decide_eq_false_iff_not, not_lt]
  constructor
  · rintro ⟨⟨hlen, hsize⟩, htotal⟩
    have hnum : len.toInt = len.toNat := BitVec.toInt_eq_toNat_of_lt (by omega)
    rw [hnum] at htotal
    refine ⟨hlen, hsize, ?_⟩
    have hcast : ((len.toNat * es : Nat) : Int) = (len.toNat : Int) * es := by push_cast; rfl
    rw [← hcast] at htotal ⊢
    omega
  · rintro ⟨hlen, hsize, htotal⟩
    have hnum : len.toInt = len.toNat := BitVec.toInt_eq_toNat_of_lt (by omega)
    rw [hnum]
    have hcast : ((len.toNat * es : Nat) : Int) = (len.toNat : Int) * es := by push_cast; rfl
    rw [← hcast] at htotal ⊢
    exact ⟨⟨hlen, hsize⟩, by omega⟩

theorem arrayAlloc_reads {len : SaneWord} {es : Nat} (hlen : len.toNat ≤ MAX_MEM) :
    DecodesAs ver (arrayAlloc len es) [] .done (len.toNat * es) := by
  intro w rest hw hp h0 hmax
  have hcast : ((len.toNat * es : Nat) : Int) = (len.toNat : Int) * es := by push_cast; rfl
  have hover : arrayOverLimit w.allocatedMemory len es = false :=
    (arrayOverLimit_eq_false h0 (by omega)).mpr ⟨hlen, by omega, by rw [← hcast]; exact hmax⟩
  obtain ⟨h, hmalloc, htail, -, -⟩ := malloc_run (len.toNat * es) w
  rw [hw.malloc_head] at hmalloc
  refine ⟨{ w with
    allocatedMemory := wrap32 (w.allocatedMemory + (len.toNat * es : Nat)), heap := h }, ?_,
    ⟨⟨hw.dir, hw.version, hw.buf⟩, hw.good, hw.reads, by rw [htail]; exact hw.mallocs_tail⟩, hp,
    wrap32_of_le_max (by omega) hmax⟩
  simp only [arrayAlloc, bind_run, get_run, hover, Bool.false_eq_true, ↓reduceIte, hmalloc,
    Bool.not_true, charge, modify_run, pure_run]

/-- A failed allocation leaves a bad status. -/
theorem arrayAlloc_accepts (len : SaneWord) (es : Nat) :
    DecodesFrom ver (arrayAlloc len es) fun bs δ r =>
      bs = [] ∧ δ = len.toNat * es ∧ r = .done ∧ len.toNat ≤ MAX_MEM := by
  intro w r w' hw hrun
  obtain ⟨h, hmalloc, -, hflag, hlive⟩ := malloc_run (len.toNat * es) w
  have hcast : ((len.toNat * es : Nat) : Int) = (len.toNat : Int) * es := by push_cast; rfl
  cases hover : arrayOverLimit w.allocatedMemory len es with
  | true =>
    simp only [arrayAlloc, bind_run, get_run, hover, ↓reduceIte, setStatus_run, pure_run,
      Except.ok.injEq, Prod.mk.injEq] at hrun
    obtain ⟨-, rfl⟩ := hrun
    exact ⟨⟨hw.dir, hw.version, hw.buf⟩, rfl, id, [], 0, rfl, by simp,
      fun _ hmax _ => ⟨by simp, hmax⟩, fun hs => absurd hs ENOMEM.2⟩
  | false =>
    cases hok : w.heap.mallocs.headD true with
    | false =>
      rw [hok] at hmalloc hlive
      simp only [arrayAlloc, bind_run, get_run, hover, Bool.false_eq_true, ↓reduceIte, hmalloc,
        Bool.not_false, setStatus_run, pure_run, Except.ok.injEq, Prod.mk.injEq] at hrun
      obtain ⟨-, rfl⟩ := hrun
      refine ⟨⟨hw.dir, hw.version, hw.buf⟩, rfl, fun hf => hflag.trans hf, [], 0, rfl, ?_,
        fun _ hmax _ => ⟨by simp, hmax⟩, fun hs => absurd hs ENOMEM.2⟩
      simpa using hlive
    | true =>
      rw [hok] at hmalloc hlive
      simp only [arrayAlloc, bind_run, get_run, hover, Bool.false_eq_true, ↓reduceIte, hmalloc,
        Bool.not_true, charge, modify_run, pure_run, Except.ok.injEq, Prod.mk.injEq] at hrun
      obtain ⟨rfl, rfl⟩ := hrun
      have hlen : len.toNat ≤ MAX_MEM := by
        simp only [arrayOverLimit, Bool.or_eq_false_iff, decide_eq_false_iff_not, not_lt] at hover
        exact hover.1.1
      refine ⟨⟨hw.dir, hw.version, hw.buf⟩, rfl, fun hf => hflag.trans hf, [], len.toNat * es,
        rfl, hlive, fun h0 hmax _ => ?_, fun hs => ⟨hs, rfl, rfl, rfl, hlen⟩⟩
      obtain ⟨-, hsize, htotal⟩ := (arrayOverLimit_eq_false h0 hmax).mp hover
      rw [← hcast] at htotal
      have hwrap := wrap32_of_le_max (x := w.allocatedMemory + (len.toNat * es : Nat))
        (by omega) htotal
      exact ⟨hwrap, hwrap.le.trans htotal⟩

theorem arrayAlloc_overruns (len : SaneWord) (es : Nat) {O : Int → List SaneByte → Prop} :
    OverrunsFrom ver (arrayAlloc len es) O := by
  refine .of_flag fun w r w' _ hrun => ?_
  obtain ⟨h, hmalloc, -, hflag, -⟩ := malloc_run (len.toNat * es) w
  simp only [arrayAlloc, bind_run, get_run] at hrun
  cases hover : arrayOverLimit w.allocatedMemory len es with
  | true =>
    simp only [hover, ↓reduceIte, bind_run, setStatus_run, pure_run, Except.ok.injEq,
      Prod.mk.injEq] at hrun
    rw [← hrun.2]
  | false =>
    cases hok : w.heap.mallocs.headD true with
    | false =>
      simp only [hover, hok, Bool.false_eq_true, ↓reduceIte, bind_run, hmalloc, Bool.not_false,
        setStatus_run, pure_run, Except.ok.injEq, Prod.mk.injEq] at hrun
      rw [← hrun.2, ← hflag]
    | true =>
      simp only [hover, hok, Bool.false_eq_true, ↓reduceIte, bind_run, hmalloc, Bool.not_true,
        charge, modify_run, pure_run, Except.ok.injEq, Prod.mk.injEq] at hrun
      rw [← hrun.2, ← hflag]

theorem ptrAlloc_reads {size : Nat} (hsize : size ≤ MAX_MEM) :
    DecodesAs ver (ptrAlloc size) [] .done size := by
  intro w rest hw hp h0 hmax
  obtain ⟨h, hmalloc, htail, -, -⟩ := malloc_run size w
  rw [hw.malloc_head] at hmalloc
  refine ⟨{ w with
    allocatedMemory := wrap32 (w.allocatedMemory + size)
    heap := { h with
      ptrOverrun := h.ptrOverrun || decide (w.allocatedMemory + size > MAX_MEM) } }, ?_,
    ⟨⟨hw.dir, hw.version, hw.buf⟩, hw.good, hw.reads, ?_⟩, hp, wrap32_of_le_max (by omega) hmax⟩
  · simp only [ptrAlloc, bind_run, ite_run, if_neg (Nat.not_lt.mpr hsize), hmalloc, Bool.not_true,
      Bool.false_eq_true, ↓reduceIte, chargePtr, modify_run, pure_run]
  · change ∀ ok ∈ h.mallocs, ok = true
    rw [htail]
    exact hw.mallocs_tail

/-- Only the recorded overrun can take the total past the limit. -/
theorem ptrAlloc_accepts (size : Nat) :
    DecodesFrom ver (ptrAlloc size) fun bs δ r => bs = [] ∧ δ = size ∧ r = .done := by
  intro w r w' hw hrun
  obtain ⟨h, hmalloc, -, hflag, hlive⟩ := malloc_run size w
  by_cases hsize : size > MAX_MEM
  · simp only [ptrAlloc, bind_run, ite_run, if_pos hsize, setStatus_run, pure_run,
      Except.ok.injEq, Prod.mk.injEq] at hrun
    obtain ⟨-, rfl⟩ := hrun
    exact ⟨⟨hw.dir, hw.version, hw.buf⟩, rfl, id, [], 0, rfl, by simp,
      fun _ hmax _ => ⟨by simp, hmax⟩, fun hs => absurd hs ENOMEM.2⟩
  · cases hok : w.heap.mallocs.headD true with
    | false =>
      rw [hok] at hmalloc hlive
      simp only [ptrAlloc, bind_run, ite_run, if_neg hsize, hmalloc, Bool.not_false, ↓reduceIte,
        setStatus_run, pure_run, Except.ok.injEq, Prod.mk.injEq] at hrun
      obtain ⟨-, rfl⟩ := hrun
      refine ⟨⟨hw.dir, hw.version, hw.buf⟩, rfl, fun hf => hflag.trans hf, [], 0, rfl, ?_,
        fun _ hmax _ => ⟨by simp, hmax⟩, fun hs => absurd hs ENOMEM.2⟩
      simpa using hlive
    | true =>
      rw [hok] at hmalloc hlive
      simp only [ptrAlloc, bind_run, ite_run, if_neg hsize, hmalloc, Bool.not_true,
        Bool.false_eq_true, ↓reduceIte, chargePtr, modify_run, pure_run, Except.ok.injEq,
        Prod.mk.injEq] at hrun
      obtain ⟨rfl, rfl⟩ := hrun
      refine ⟨⟨hw.dir, hw.version, hw.buf⟩, rfl, fun hf => ?_, [], size, rfl, hlive,
        fun h0 _ hnot => ?_, fun hs => ⟨hs, rfl, rfl, rfl⟩⟩
      · simp only [hflag, hf, Bool.true_or]
      · simp only [Bool.or_eq_false_iff, decide_eq_false_iff_not, not_lt] at hnot
        have hwrap := wrap32_of_le_max (x := w.allocatedMemory + size) (by omega) hnot.2
        exact ⟨hwrap, hwrap.le.trans hnot.2⟩

/-- Past the limit by the size of the value. -/
theorem ptrAlloc_passes {size : Nat} {w w' : Wire} {r : AllocResult}
    (hflag : w.heap.ptrOverrun = false) (hrun : ptrAlloc size w = .ok (r, w'))
    (hover : w'.heap.ptrOverrun = true) : MAX_MEM < w.allocatedMemory + size := by
  obtain ⟨h, hmalloc, -, hsame, -⟩ := malloc_run size w
  by_cases hsize : size > MAX_MEM
  · simp only [ptrAlloc, bind_run, ite_run, if_pos hsize, setStatus_run, pure_run,
      Except.ok.injEq, Prod.mk.injEq] at hrun
    rw [← hrun.2, hflag] at hover
    cases hover
  · cases hok : w.heap.mallocs.headD true with
    | false =>
      rw [hok] at hmalloc
      simp only [ptrAlloc, bind_run, ite_run, if_neg hsize, hmalloc, Bool.not_false, ↓reduceIte,
        setStatus_run, pure_run, Except.ok.injEq, Prod.mk.injEq] at hrun
      rw [← hrun.2, hsame, hflag] at hover
      cases hover
    | true =>
      rw [hok] at hmalloc
      simp only [ptrAlloc, bind_run, ite_run, if_neg hsize, hmalloc, Bool.not_true,
        Bool.false_eq_true, ↓reduceIte, chargePtr, modify_run, pure_run, Except.ok.injEq,
        Prod.mk.injEq] at hrun
      rw [← hrun.2] at hover
      simpa only [hsame, hflag, Bool.false_or, decide_eq_true_eq] using hover

/-- A value behind a pointer overruns by its own size, or by what is decoded into it. -/
theorem ptrAlloc_overruns {β : Type} {size : Nat} {f : AllocResult → WireM β} {b' : β}
    {O : Int → List SaneByte → Prop} (hf : ∀ r, OverrunsFrom ver (f r) O) :
    OverrunsFrom ver (do if (← wireStatus) ≠ 0 then return b' else ptrAlloc size >>= f)
      fun a s => MAX_MEM < a + size ∨ O (a + size) s := by
  intro w b w'' hw h0 hmax hflag hrun hover
  rw [bind_of_ok (wireStatus_run w)] at hrun
  by_cases hs : w.status ≠ 0
  · rw [if_pos hs] at hrun
    cases hrun
    rw [hflag] at hover
    cases hover
  rw [if_neg hs] at hrun
  refine ⟨not_not.mp hs, ?_⟩
  obtain ⟨r, w', hrun₁, hrun₂⟩ := bind_ok.mp hrun
  cases hflag' : w'.heap.ptrOverrun with
  | true => exact .inl (ptrAlloc_passes hflag hrun₁ hflag')
  | false =>
    have hstep := ptrAlloc_accepts size w r w' hw hrun₁
    obtain ⟨bs, δ, hpend, -, hledger, hgood⟩ := hstep.moved
    obtain ⟨hal, hmax'⟩ := hledger h0 hmax hflag'
    obtain ⟨hs', h⟩ := hf r w' b w'' hstep.after (by omega) hmax' hflag' hrun₂ hover
    obtain ⟨-, rfl, rfl, -⟩ := hgood hs'
    rw [hal] at h
    rw [hpend]
    exact .inr h

theorem release_frees (held : Nat) : FreesAs ver (release held held) () held := by
  intro w _ _ hheld hmax
  have hwrap := wrap32_of_le_max (x := w.allocatedMemory - held) (by omega) (by omega)
  simp only [release, modify_run, hwrap, Wire.released]

theorem deref_bind {β : Type} (a : α) (f : α → WireM β) : (deref (.block a) >>= f) = f a := rfl

/-! ### Arrays -/

section Arrays

variable [CType α] {c : WireCodecFunc α} {F : WireFormat α μ}

theorem arrayLoop_reads (hc : Implements ver c F) (ms : List μ) (hms : ∀ m ∈ ms, F.Valid m) :
    DecodesAs ver (arrayLoop c ms.length (List.replicate ms.length CType.zero))
      (ms.map F.bytes).flatten (ms.map (F.value CType.zero)) (ms.map F.memory).sum := by
  induction ms with
  | nil => exact .pure []
  | cons m ms ih =>
    have hrest := ih fun m' hm' => hms m' (by simp [hm'])
    have hfirst := hc.reads CType.zero m (hms m (by simp))
    exact .bind hfirst (.status (.map hrest (F.value CType.zero m :: ·)))

theorem arrayLoop_accepts (hc : Implements ver c F) (n : Nat) :
    DecodesFrom ver (arrayLoop c n (List.replicate n CType.zero)) fun bs δ xs =>
      ∃ ms : List μ, ms.length = n ∧ (∀ m ∈ ms, F.Valid m) ∧ bs = (ms.map F.bytes).flatten ∧
        xs = ms.map (F.value CType.zero) ∧ δ = (ms.map F.memory).sum := by
  induction n with
  | zero => exact .pure ⟨[], rfl, by simp, rfl, rfl, rfl⟩
  | succ n ih =>
    refine (hc.accepts CType.zero).bind (fun x => .status (ih.map (x :: ·) (Q := fun bs δ xs =>
      ∃ ms : List μ, ms.length = n ∧ (∀ m ∈ ms, F.Valid m) ∧ bs = (ms.map F.bytes).flatten ∧
        xs = x :: ms.map (F.value CType.zero) ∧ δ = (ms.map F.memory).sum) ?_)) ?_
    · rintro bs δ xs ⟨ms, hlen, hms, rfl, rfl, rfl⟩
      exact ⟨ms, hlen, hms, rfl, rfl, rfl⟩
    · rintro x bs₁ bs₂ δ₁ δ₂ xs ⟨m, hm, rfl, rfl, rfl⟩ ⟨ms, hlen, hms, rfl, rfl, rfl⟩
      refine ⟨m :: ms, by simp [hlen], ?_, rfl, rfl, rfl⟩
      intro m' hm'
      rcases List.mem_cons.mp hm' with rfl | hm'
      · exact hm
      · exact hms m' hm'

theorem arrayLoop_overruns (hc : Implements ver c F) (n : Nat) :
    OverrunsFrom ver (arrayLoop c n (List.replicate n CType.zero)) (elementOverruns F n) := by
  induction n with
  | zero => exact .pure
  | succ n ih =>
    refine (hc.overruns CType.zero).bind (hc.accepts CType.zero)
      (fun x => .status (ih.map (x :: ·))) ?_ ?_
    · exact fun a s h => ⟨[], s, Nat.zero_lt_succ n, by simp, rfl, by simpa using h⟩
    · rintro x bs δ a s ⟨m, hm, rfl, rfl, rfl⟩ - ⟨ms, rest, hlen, hms, rfl, h⟩
      refine ⟨m :: ms, rest, Nat.succ_lt_succ hlen, ?_, ?_, ?_⟩
      · intro m' hm'
        rcases List.mem_cons.mp hm' with rfl | hm'
        · exact hm
        · exact hms m' hm'
      · rw [List.map_cons, List.flatten_cons, List.append_assoc]
      · rw [List.map_cons, List.sum_cons, Nat.cast_add, ← add_assoc]
        exact h

omit [CType α] in
theorem arrayLoop_writes (hc : Implements ver c F) {n : Nat} {xs : List α}
    {bss : List (List SaneByte)} (h : takeM F.encoding n xs = some bss) :
    EncodesAs ver (arrayLoop c n xs) bss.flatten xs (takeM F.content n xs).isSome := by
  induction n generalizing xs bss with
  | zero =>
    cases h
    exact (EncodesAs.pure xs).cast rfl rfl fun _ => trivial
  | succ n ih =>
    cases xs with
    | nil => cases h
    | cons x xs =>
      obtain ⟨bs, bss', hbs, hbss, rfl⟩ := takeM_cons_eq_some.mp h
      refine .cast (.bind (hc.writes x bs hbs) (.status (.map (ih hbss) (x :: ·)))) rfl rfl
        fun hok => ?_
      obtain ⟨ms, hms⟩ := Option.isSome_iff_exists.mp hok
      obtain ⟨m, ms', hm, hms', -⟩ := takeM_cons_eq_some.mp hms
      rw [hm, hms']
      exact ⟨rfl, rfl⟩

theorem freeLoop_frees (hc : Implements ver c F) (xs : List α) (h : ∀ x ∈ xs, F.Consistent x) :
    FreesAs ver (freeLoop c xs.length xs) () (xs.map F.held).sum := by
  induction xs with
  | nil => exact .pure ()
  | cons x xs ih =>
    obtain ⟨x', hx'⟩ := hc.frees x (h x (by simp))
    exact .bind hx' (ih fun y hy => h y (by simp [hy]))

theorem saneiWArray_reads (hc : Implements ver c F) (a : SaneArray α) (ms : List μ)
    (hms : F.array.Valid ms) :
    DecodesAs ver (saneiWArray binPrims c a) (F.array.bytes ms) (F.array.value a ms)
      (F.array.memory ms) := by
  obtain ⟨hnat, hint⟩ := ofNat_of_le_max hms.1
  refine .direction (.uninit fun junk => ?_)
  refine .cast (.bind (binWWord_reads junk (BitVec.ofNat 32 ms.length))
    (.status (l := (ms.map F.bytes).flatten) ?_)) rfl rfl (Nat.zero_add _)
  cases ms with
  | nil => exact .cast (.pure (SaneArray.mk 0 .null)) rfl rfl (by simp [WireFormat.array])
  | cons m ms =>
    have h0 : BitVec.ofNat 32 (m :: ms).length ≠ 0 := by
      intro h0
      rw [h0] at hnat
      cases hnat
    have hloop := arrayLoop_reads hc (m :: ms) hms.2
    rw [if_neg h0]
    refine .cast (.bind (arrayAlloc_reads (by rw [hnat]; exact hms.1)) (.map
      (a := (m :: ms).map (F.value CType.zero))
      (l := ((m :: ms).map F.bytes).flatten) (c := ((m :: ms).map F.memory).sum) ?_ _))
      (List.nil_append _) ?_ ?_
    · rw [hint, hnat, Int.toNat_natCast]
      exact hloop
    · simp only [WireFormat.array, SaneArray.of, List.map_cons, List.length_map, List.length_cons]
    · rw [hnat]
      rfl

theorem saneiWArray_accepts (hc : Implements ver c F) (a : SaneArray α) :
    DecodesFrom ver (saneiWArray binPrims c a) fun bs δ v =>
      ∃ ms, F.array.Valid ms ∧ bs = F.array.bytes ms ∧ v = F.array.value a ms ∧
        δ = F.array.memory ms := by
  refine .direction (.uninit fun junk => ?_)
  refine (binWWord_accepts junk).bind (Q := fun len bs δ v =>
    ∃ ms, F.array.Valid ms ∧ BitVec.ofNat 32 ms.length = len ∧
      bs = (ms.map F.bytes).flatten ∧ v = F.array.value a ms ∧ δ = F.array.memory ms)
    (fun len => .status ?_) ?_
  · by_cases h0 : len = 0
    · rw [if_pos h0, h0]
      exact .pure ⟨[], ⟨Nat.zero_le _, by simp⟩, rfl, rfl, rfl, by simp [WireFormat.array]⟩
    · rw [if_neg h0]
      refine (arrayAlloc_accepts len (CType.sizeof α)).bind (Q := fun r bs δ v =>
        r = .done → len.toNat ≤ MAX_MEM → ∃ ms : List μ, (∀ m ∈ ms, F.Valid m) ∧
          ms.length = len.toNat ∧ bs = (ms.map F.bytes).flatten ∧
          v = ⟨len, .block (ms.map (F.value CType.zero))⟩ ∧ δ = (ms.map F.memory).sum) ?_ ?_
      · intro r
        cases r with
        | overLimit => exact .pure fun h => by cases h
        | noMemory => exact .pure fun h => by cases h
        | done =>
          by_cases hneg : len.toInt < 0
          · -- not reached: the loop of a negative length does nothing
            rw [Int.toNat_of_nonpos (by omega)]
            refine .pure fun _ hmax => ?_
            have hmax31 : MAX_MEM < 2 ^ 31 := by decide
            rw [BitVec.toInt_eq_toNat_of_lt (by omega)] at hneg
            omega
          · rw [(toNat_of_nonneg hneg).1]
            refine (arrayLoop_accepts hc len.toNat).map _ ?_
            rintro bs δ xs ⟨ms, hlen, hms, rfl, rfl, rfl⟩ - -
            exact ⟨ms, hms, hlen, rfl, rfl, rfl⟩
      · rintro r bs₁ bs₂ δ₁ δ₂ v ⟨rfl, rfl, rfl, hmax⟩ h
        obtain ⟨ms, hms, hlen, rfl, rfl, rfl⟩ := h rfl hmax
        have hof : BitVec.ofNat 32 ms.length = len := by
          rw [hlen, BitVec.ofNat_toNat, BitVec.setWidth_eq]
        refine ⟨ms, ⟨hlen.le.trans hmax, hms⟩, hof, rfl, ?_, ?_⟩
        · cases ms with
          | nil => exact absurd hof.symm h0
          | cons m ms =>
            rw [← hof]
            simp only [WireFormat.array, SaneArray.of, List.map_cons, List.length_map,
              List.length_cons]
        · rw [← hlen]
          rfl
  · rintro len bs₁ bs₂ δ₁ δ₂ v ⟨rfl, rfl⟩ ⟨ms, hms, rfl, rfl, rfl, rfl⟩
    exact ⟨ms, hms, rfl, rfl, Nat.zero_add _⟩

theorem saneiWArray_overruns (hc : Implements ver c F) (a : SaneArray α) :
    OverrunsFrom ver (saneiWArray binPrims c a) F.array.Overruns := by
  refine .direction (.uninit fun junk => ?_)
  refine (binWWord_overruns junk (O := fun _ _ => False)).bind (binWWord_accepts junk)
    (R := fun len a s => a + (len.toNat * CType.sizeof α : Nat) ≤ MAX_MEM ∧
      elementOverruns F len.toNat (a + (len.toNat * CType.sizeof α : Nat)) s)
    (fun len => .status ?_) (fun _ _ => False.elim) ?_
  · by_cases h0 : len = 0
    · rw [if_pos h0]
      exact .pure
    · rw [if_neg h0]
      refine (arrayAlloc_overruns len (CType.sizeof α) (O := fun _ _ => False)).bind
        (arrayAlloc_accepts len (CType.sizeof α))
        (R := fun r a s => r = .done → len.toNat ≤ MAX_MEM → elementOverruns F len.toNat a s)
        ?_ (fun _ _ => False.elim) ?_
      · intro r
        cases r with
        | overLimit => exact .pure
        | noMemory => exact .pure
        | done =>
          by_cases hneg : len.toInt < 0
          · rw [Int.toNat_of_nonpos (by omega)]
            exact .pure
          · rw [(toNat_of_nonneg hneg).1]
            exact ((arrayLoop_overruns hc len.toNat).map _).conseq fun _ _ h _ _ => h
      · rintro r bs δ a s ⟨rfl, rfl, rfl, hlen⟩ hmax h
        exact ⟨hmax, h rfl hlen⟩
  · rintro len bs δ a s ⟨rfl, rfl⟩ - ⟨hmax, h⟩
    rw [Nat.cast_zero, add_zero] at hmax h
    exact ⟨len, s, rfl, hmax, h⟩

/-- Only the elements can make the encoding fail. -/
theorem saneiWArray_writes (hc : Implements ver c F) (a : SaneArray α) (bs : List SaneByte)
    (h : F.array.encoding a = some bs) :
    EncodesAs ver (saneiWArray binPrims c a) bs a
      (∀ xs, a.v = .block xs → 0 < a.len.toInt →
        (takeM F.content a.len.toInt.toNat xs).isSome) := by
  refine .direction ?_
  have h' : arrayEncoding F.encoding a = some bs := h
  by_cases hpos : a.len.toInt ≤ 0
  · rw [arrayEncoding, if_pos hpos] at h'
    cases h'
    refine .cast (.bind (binWWord_writes a.len) (.status ?_)) (List.append_nil _) rfl
      fun _ => ⟨trivial, trivial⟩
    rw [if_pos hpos]
    exact .pure a
  · rw [arrayEncoding, if_neg hpos] at h'
    obtain ⟨len, v⟩ := a
    cases v with
    | null => cases h'
    | wild => cases h'
    | block xs =>
      obtain ⟨bss, hbss, rfl⟩ := Option.map_eq_some_iff.mp h'
      have hloop := arrayLoop_writes hc hbss
      refine .cast (.bind (binWWord_writes len) (.status (l := bss.flatten)
        (P := (takeM F.content len.toInt.toNat xs).isSome) ?_)) rfl rfl
        fun hok => ⟨trivial, hok xs rfl (not_le.mp hpos)⟩
      rw [if_neg hpos]
      exact .map hloop (SaneArray.mk len ∘ .block)

theorem saneiWArray_frees (hc : Implements ver c F) (a : SaneArray α)
    (h : F.array.Consistent a) :
    ∃ v', FreesAs ver (saneiWArray binPrims c a) v' (F.array.held a) := by
  obtain ⟨len, v⟩ := a
  by_cases h0 : len = 0
  · have hheld : F.array.held ⟨len, v⟩ = 0 := by
      cases v with
      | null => rfl
      | wild => rfl
      | block xs =>
        have hlen : len.toInt = xs.length := h.1
        rw [h0] at hlen
        have hnil : xs = [] := List.length_eq_zero_iff.mp (Int.natCast_eq_zero.mp hlen.symm)
        simp [WireFormat.array, blockHeld, hnil]
    refine ⟨⟨len, v⟩, .direction ?_⟩
    rw [if_pos h0, hheld]
    exact .pure _
  · cases v with
    | null =>
      refine ⟨⟨len, .null⟩, .direction ?_⟩
      rw [if_neg h0]
      exact .pure _
    | wild => exact absurd h h0
    | block xs =>
      obtain ⟨hlen, hxs⟩ := h
      refine ⟨⟨len, .wild⟩, .direction ?_⟩
      rw [if_neg h0]
      simp only [deref_bind]
      have hlen' : len.toInt = xs.length := hlen
      have hcast : (xs.length : Int) * CType.sizeof α = (xs.length * CType.sizeof α : Nat) := by
        push_cast
        rfl
      rw [hlen', Int.toNat_natCast, hcast]
      refine .cast (.bind (freeLoop_frees hc xs hxs)
        (.map (release_frees (xs.length * CType.sizeof α)) fun _ => _)) rfl ?_
      simp only [WireFormat.array, blockHeld]
      omega

theorem Implements.array (hc : Implements ver c F) :
    Implements ver (saneiWArray binPrims c) F.array where
  reads := saneiWArray_reads hc
  accepts := saneiWArray_accepts hc
  overruns := saneiWArray_overruns hc
  writes a bs h := by
    refine (saneiWArray_writes hc a bs h).cast rfl rfl fun hok xs hxs hpos => ?_
    obtain ⟨ms, hms⟩ := Option.isSome_iff_exists.mp hok
    rcases arrayContent_eq_some.mp hms with ⟨h0, -⟩ | ⟨-, ys, hys, htake⟩
    · rw [h0] at hpos
      exact absurd hpos (by decide)
    · rw [hxs] at hys
      cases hys
      exact Option.isSome_iff_exists.mpr ⟨ms, htake⟩
  frees := saneiWArray_frees hc

end Arrays

/-! ### Pointers -/

section Pointers

variable [CType α] {c : WireCodecFunc α} {F : WireFormat α μ}

theorem saneiWPtr_reads (hc : Implements ver c F) (hsize : CType.sizeof α ≤ MAX_MEM) (v : Ptr α)
    (m : PtrMsg μ) (hm : F.ptr.Valid m) :
    DecodesAs ver (saneiWPtr binPrims c v) (F.ptr.bytes m) (F.ptr.value v m)
      (F.ptr.memory m) := by
  refine .direction (.uninit fun junk => ?_)
  cases m with
  | null w =>
    refine .cast (.bind (binWWord_reads junk w) (.status (l := []) (c := 0) ?_))
      (List.append_nil _) rfl rfl
    rw [if_pos w.2]
    exact .pure Ptr.null
  | value m =>
    refine .cast (.bind (binWWord_reads junk 0) (.status (l := F.bytes m)
      (c := CType.sizeof α + F.memory m) ?_)) rfl rfl (Nat.zero_add _)
    rw [if_neg (not_not.mpr rfl)]
    exact .bind (ptrAlloc_reads hsize) (.map (hc.reads CType.zero m hm) Ptr.block)

theorem saneiWPtr_accepts (hc : Implements ver c F) (v : Ptr α) :
    DecodesFrom ver (saneiWPtr binPrims c v) fun bs δ v' =>
      ∃ m, F.ptr.Valid m ∧ bs = F.ptr.bytes m ∧ v' = F.ptr.value v m ∧ δ = F.ptr.memory m := by
  refine .direction (.uninit fun junk => ?_)
  refine (binWWord_accepts junk).bind (Q := fun k bs δ v' =>
    ∃ m, F.ptr.Valid m ∧ bytesBE k ++ bs = F.ptr.bytes m ∧ v' = F.ptr.value v m ∧
      δ = F.ptr.memory m) (fun k => .status ?_) ?_
  · by_cases h0 : k ≠ 0
    · rw [if_pos h0]
      exact .pure ⟨.null ⟨k, h0⟩, trivial, List.append_nil _, rfl, rfl⟩
    · rw [if_neg h0, not_not.mp h0]
      refine (ptrAlloc_accepts (CType.sizeof α)).bind (Q := fun r bs δ v' =>
        r = .done → ∃ m, F.Valid m ∧ bs = F.bytes m ∧ v' = .block (F.value CType.zero m) ∧
          δ = F.memory m) ?_ ?_
      · intro r
        cases r with
        | overLimit => exact .pure fun h => by cases h
        | noMemory => exact .pure fun h => by cases h
        | done =>
          refine (hc.accepts CType.zero).map Ptr.block ?_
          rintro bs δ a ⟨m, hm, rfl, rfl, rfl⟩ -
          exact ⟨m, hm, rfl, rfl, rfl⟩
      · rintro r bs₁ bs₂ δ₁ δ₂ v' ⟨rfl, rfl, rfl⟩ h
        obtain ⟨m, hm, rfl, rfl, rfl⟩ := h rfl
        exact ⟨.value m, hm, rfl, rfl, rfl⟩
  · rintro k bs₁ bs₂ δ₁ δ₂ v' ⟨rfl, rfl⟩ ⟨m, hm, hbs, rfl, rfl⟩
    exact ⟨m, hm, hbs, rfl, Nat.zero_add _⟩

theorem saneiWPtr_overruns (hc : Implements ver c F) (v : Ptr α) :
    OverrunsFrom ver (saneiWPtr binPrims c v) F.ptr.Overruns := by
  refine .direction (.uninit fun junk => ?_)
  refine (binWWord_overruns junk (O := fun _ _ => False)).bind (binWWord_accepts junk)
    (R := fun k a s => k = 0 ∧
      (MAX_MEM < a + CType.sizeof α ∨ F.Overruns (a + CType.sizeof α) s))
    ?_ (fun _ _ => False.elim) ?_
  · intro k
    by_cases h0 : k ≠ 0
    · simp only [if_pos h0]
      exact .status .pure
    · simp only [if_neg h0]
      refine (ptrAlloc_overruns (O := F.Overruns) ?_).conseq fun _ _ h => ⟨not_not.mp h0, h⟩
      intro r
      cases r with
      | overLimit => exact .pure
      | noMemory => exact .pure
      | done => exact (hc.overruns CType.zero).map Ptr.block
  · rintro k bs δ a s ⟨rfl, rfl⟩ - ⟨rfl, h⟩
    rw [Nat.cast_zero, add_zero] at h
    exact ⟨s, rfl, h⟩

theorem saneiWPtr_writes (hc : Implements ver c F) (v : Ptr α) (bs : List SaneByte)
    (h : F.ptr.encoding v = some bs) :
    EncodesAs ver (saneiWPtr binPrims c v) bs v (F.ptr.content v).isSome := by
  refine .direction ?_
  cases v with
  | null =>
    cases h
    exact .cast (.bind (binWWord_writes 1) (.status (.pure Ptr.null))) (List.append_nil _) rfl
      fun _ => ⟨trivial, trivial⟩
  | wild => cases h
  | block a =>
    obtain ⟨cs, hcs, rfl⟩ := Option.map_eq_some_iff.mp h
    refine .cast (.bind (binWWord_writes 0) (.status (l := cs)
      (P := (F.content a).isSome) ?_)) rfl rfl fun hok => ⟨trivial, ?_⟩
    · rw [if_neg (not_not.mpr rfl), deref_bind]
      exact .map (hc.writes a cs hcs) Ptr.block
    · simpa [WireFormat.ptr] using hok

theorem saneiWPtr_frees (hc : Implements ver c F) (v : Ptr α) (h : F.ptr.Consistent v) :
    ∃ v', FreesAs ver (saneiWPtr binPrims c v) v' (F.ptr.held v) := by
  cases v with
  | null => exact ⟨.null, .direction (.pure _)⟩
  | wild => exact h.elim
  | block a =>
    obtain ⟨a', ha'⟩ := hc.frees a h
    refine ⟨.wild, .direction ?_⟩
    simp only [deref_bind]
    exact .cast (.bind ha' (.map (release_frees (CType.sizeof α)) fun _ => Ptr.wild)) rfl
      (Nat.add_comm _ _)

theorem Implements.ptr (hc : Implements ver c F) (hsize : CType.sizeof α ≤ MAX_MEM) :
    Implements ver (saneiWPtr binPrims c) F.ptr where
  reads := saneiWPtr_reads hc hsize
  accepts := saneiWPtr_accepts hc
  overruns := saneiWPtr_overruns hc
  writes := saneiWPtr_writes hc
  frees := saneiWPtr_frees hc

end Pointers

/-! ### Lists whose length is found in them -/

/-- `find` is uninitialised when decoding, and else the length that `lenOf` says is in
    the list. -/
structure FindsLength (find : Ptr (List α) → WireM SaneWord)
    (lenOf : Ptr (List α) → Option Nat) : Prop where
  decode : ∀ p w, w.direction = .decode → find p w = .ok (w.junk, w)
  found : ∀ p n w, lenOf p = some n → w.direction ≠ .decode →
    find p w = .ok (BitVec.ofNat 32 n, w)

def countedCodec [CType α] (find : Ptr (List α) → WireM SaneWord) (c : WireCodecFunc α) :
    WireCodecFunc (Ptr (List α)) := fun p => do
  let len ← find p
  let a ← saneiWArray binPrims c ⟨len, p⟩
  return a.v

section Counted

variable {find : Ptr (List α) → WireM SaneWord} {lenOf : Ptr (List α) → Option Nat}

theorem FindsLength.reads {β : Type} (hf : FindsLength find lenOf) {p : Ptr (List α)}
    {f : SaneWord → WireM β} {bs : List SaneByte} {b : β} {k : Nat}
    (h : ∀ junk, DecodesAs ver (f junk) bs b k) : DecodesAs ver (find p >>= f) bs b k := by
  intro w rest hw
  rw [bind_of_ok (hf.decode p w hw.dir)]
  exact h w.junk w rest hw

theorem FindsLength.accepts {β : Type} (hf : FindsLength find lenOf) {p : Ptr (List α)}
    {f : SaneWord → WireM β} {P : List SaneByte → Nat → β → Prop}
    (h : ∀ junk, DecodesFrom ver (f junk) P) : DecodesFrom ver (find p >>= f) P := by
  intro w b w' hw hrun
  rw [bind_of_ok (hf.decode p w hw.dir)] at hrun
  exact h w.junk w b w' hw hrun

theorem FindsLength.overruns {β : Type} (hf : FindsLength find lenOf) {p : Ptr (List α)}
    {f : SaneWord → WireM β} {O : Int → List SaneByte → Prop}
    (h : ∀ junk, OverrunsFrom ver (f junk) O) : OverrunsFrom ver (find p >>= f) O := by
  intro w b w' hw h0 hmax hflag hrun hover
  rw [bind_of_ok (hf.decode p w hw.dir)] at hrun
  exact h w.junk w b w' hw h0 hmax hflag hrun hover

theorem FindsLength.writes {β : Type} (hf : FindsLength find lenOf) {p : Ptr (List α)} {n : Nat}
    (hn : lenOf p = some n) {f : SaneWord → WireM β} {bs : List SaneByte} {b : β} {ok : Prop}
    (h : EncodesAs ver (f (BitVec.ofNat 32 n)) bs b ok) :
    EncodesAs ver (find p >>= f) bs b ok where
  bad w hdir hver hs := by
    rw [bind_of_ok (hf.found p n w hn (by rw [hdir]; decide))]
    exact h.bad w hdir hver hs
  good w hw hs := by
    rw [bind_of_ok (hf.found p n w hn (by rw [hw.dir]; decide))]
    exact h.good w hw hs

theorem FindsLength.frees {β : Type} (hf : FindsLength find lenOf) {p : Ptr (List α)} {n : Nat}
    (hn : lenOf p = some n) {f : SaneWord → WireM β} {b : β} {held : Nat}
    (h : FreesAs ver (f (BitVec.ofNat 32 n)) b held) : FreesAs ver (find p >>= f) b held := by
  intro w hdir
  rw [bind_of_ok (hf.found p n w hn (by rw [hdir]; decide))]
  exact h w hdir

/-- A length found is at most sent as a smaller one. -/
theorem toNat_toInt_ofNat_le (n : Nat) : (BitVec.ofNat 32 n).toInt.toNat ≤ n := by
  rw [BitVec.toInt_eq_toNat_cond, BitVec.toNat_ofNat]
  split <;> omega

variable [CType α] {c : WireCodecFunc α} {F : WireFormat α μ}

theorem countedArray_writes (hc : Implements ver c F) {p : Ptr (List α)} {n : Nat}
    {bs : List SaneByte} (hn : lenOf p = some n)
    (h : F.array.encoding ⟨BitVec.ofNat 32 n, p⟩ = some bs) :
    EncodesAs ver (saneiWArray binPrims c ⟨BitVec.ofNat 32 n, p⟩) bs
      ⟨BitVec.ofNat 32 n, p⟩ ((F.counted lenOf).content p).isSome := by
  refine (saneiWArray_writes hc _ bs h).cast rfl rfl fun hok xs hxs hpos => ?_
  obtain ⟨ms, hms⟩ := Option.isSome_iff_exists.mp hok
  rcases WireFormat.counted_content_eq_some.mp hms with ⟨rfl, -⟩ | ⟨ys, k, rfl, -, hk, htake⟩
  · cases hxs
  · cases hxs
    rw [hn] at hk
    cases hk
    rw [takeM_of_le htake (toNat_toInt_ofNat_le n)]
    rfl

theorem Implements.counted (hc : Implements ver c F) (hf : FindsLength find lenOf) :
    Implements ver (countedCodec find c) (F.counted lenOf) where
  reads prior ms hms := hf.reads fun junk =>
    .map (saneiWArray_reads hc ⟨junk, prior⟩ ms hms) SaneArray.v
  accepts prior := by
    refine hf.accepts fun junk => (saneiWArray_accepts hc ⟨junk, prior⟩).map SaneArray.v ?_
    rintro bs δ a ⟨ms, hms, rfl, rfl, rfl⟩
    exact ⟨ms, hms, rfl, rfl, rfl⟩
  overruns prior :=
    hf.overruns fun junk => (saneiWArray_overruns hc ⟨junk, prior⟩).map SaneArray.v
  writes p bs h := by
    obtain ⟨n, hn, h⟩ := Option.bind_eq_some_iff.mp h
    exact hf.writes hn (.map (countedArray_writes hc hn h) SaneArray.v)
  frees p h := by
    obtain ⟨n, hn, h⟩ := h
    obtain ⟨a, ha⟩ := saneiWArray_frees hc _ h
    exact ⟨a.v, hf.frees hn (.map ha SaneArray.v)⟩

end Counted

/-! ### Strings -/

theorem array_value_fixed [CType α] (store : α → List SaneByte) (a : SaneArray α) (ms : List α) :
    (WireFormat.fixed store).array.value a ms = SaneArray.of ms := by
  change SaneArray.of (ms.map id) = _
  rw [List.map_id]

theorem stringLen_findsLength : FindsLength stringLen stringLenOf where
  decode p w h := by
    simp only [stringLen, bind_run, wireDirection_run, h, uninitWord_run]
  found p n w h hdir := by
    cases p with
    | null =>
      cases h
      cases hw : w.direction with
      | decode => exact absurd hw hdir
      | encode => simp only [stringLen, bind_run, wireDirection_run, hw]; rfl
      | free => simp only [stringLen, bind_run, wireDirection_run, hw]; rfl
    | wild => cases h
    | block bs =>
      obtain ⟨k, hk, rfl⟩ := stringLenOf_block_eq_some.mp h
      cases hw : w.direction with
      | decode => exact absurd hw hdir
      | encode => 
        simp only [stringLen, bind_run, wireDirection_run, hw, deref, hk, ofExcept, pure_run]
      | free => 
        simp only [stringLen, bind_run, wireDirection_run, hw, deref, hk, ofExcept, pure_run]

/-- The end of `bin_w_string` when a string has been decoded. -/
theorem binWString_end (bs : List SaneByte) (hlen : bs.length ≤ MAX_MEM) :
    DecodesAs ver
      (do
        if (← wireDirection) = .decode then
          if (SaneArray.of bs).len = 0 then return .null
          if (← wireStatus) ≠ 0 then return (SaneArray.of bs).v
          let cs ← deref (SaneArray.of bs).v
          return .block (cs.set ((SaneArray.of bs).len.toNat - 1) 0)
        else return (SaneArray.of bs).v) [] (terminate bs) 0 := by
  refine .direction ?_
  rw [if_pos rfl]
  cases bs with
  | nil => exact .pure Ptr.null
  | cons b bs =>
    have hnat := (ofNat_of_le_max hlen).1
    have h0 : (SaneArray.of (b :: bs)).len ≠ 0 := by
      intro h0
      rw [SaneArray.len_of] at h0
      rw [h0] at hnat
      cases hnat
    rw [if_neg h0]
    refine .status ?_
    rw [SaneArray.len_of, hnat]
    exact .pure (terminate (b :: bs))

/-- The same for any stream; without a block the bytes of the string cannot be reached. -/
theorem binWString_end_accepts (a : SaneArray SaneByte) :
    DecodesFrom ver
      (do
        if (← wireDirection) = .decode then
          if a.len = 0 then return .null
          if (← wireStatus) ≠ 0 then return a.v
          let cs ← deref a.v
          return .block (cs.set (a.len.toNat - 1) 0)
        else return a.v)
      fun bs δ s => bs = [] ∧ δ = 0 ∧
        ∀ cs, cs.length ≤ MAX_MEM → a = SaneArray.of cs → s = terminate cs := by
  refine .direction ?_
  rw [if_pos rfl]
  by_cases h0 : a.len = 0
  · rw [if_pos h0]
    refine .pure ⟨rfl, rfl, fun cs hcs ha => ?_⟩
    have hnat := (ofNat_of_le_max hcs).1
    rw [ha, SaneArray.len_of] at h0
    rw [h0] at hnat
    rw [List.length_eq_zero_iff.mp hnat.symm]
    rfl
  · rw [if_neg h0]
    refine .status ?_
    obtain ⟨len, v⟩ := a
    cases v with
    | null => exact .throw .nullPointer
    | wild => exact .throw .wildPointer
    | block bs =>
      refine .pure ⟨rfl, rfl, fun cs hcs ha => ?_⟩
      cases cs with
      | nil => cases ha
      | cons b cs =>
        have hnat := (ofNat_of_le_max hcs).1
        cases ha
        rw [List.length_cons] at hnat
        rw [hnat]
        rfl

theorem binWString_end_overruns (a : SaneArray SaneByte) {O : Int → List SaneByte → Prop} :
    OverrunsFrom ver
      (do
        if (← wireDirection) = .decode then
          if a.len = 0 then return .null
          if (← wireStatus) ≠ 0 then return a.v
          let cs ← deref a.v
          return .block (cs.set (a.len.toNat - 1) 0)
        else return a.v) O := by
  refine .direction ?_
  rw [if_pos rfl]
  by_cases h0 : a.len = 0
  · rw [if_pos h0]
    exact .pure
  · rw [if_neg h0]
    refine .status ?_
    obtain ⟨len, v⟩ := a
    cases v with
    | null => exact .throw .nullPointer
    | wild => exact .throw .wildPointer
    | block bs => exact .pure

theorem binWString_implements : Implements ver binWString stringFormat where
  reads prior bs hbs := by
    have harray : ∀ junk, DecodesAs ver (saneiWArray binPrims binWByte ⟨junk, prior⟩)
        (stringFormat.bytes bs) (SaneArray.of bs) (stringFormat.memory bs) := fun junk =>
      (saneiWArray_reads binWByte_implements ⟨junk, prior⟩ bs hbs).cast rfl
        (array_value_fixed _ _ bs) rfl
    exact stringLen_findsLength.reads fun junk =>
      .cast (.bind (harray junk) (binWString_end bs hbs.1)) (List.append_nil _) rfl rfl
  accepts prior := by
    refine stringLen_findsLength.accepts fun junk =>
      (saneiWArray_accepts binWByte_implements ⟨junk, prior⟩).bind binWString_end_accepts ?_
    rintro a bs₁ bs₂ δ₁ δ₂ s ⟨bs, hbs, rfl, rfl, rfl⟩ ⟨rfl, rfl, hend⟩
    exact ⟨bs, hbs, List.append_nil _, hend bs hbs.1 (array_value_fixed _ _ bs), rfl⟩
  overruns prior := stringLen_findsLength.overruns fun junk =>
    (saneiWArray_overruns binWByte_implements ⟨junk, prior⟩).bind
      (saneiWArray_accepts binWByte_implements ⟨junk, prior⟩)
      (fun a => binWString_end_overruns a (O := fun _ _ => False)) (fun _ _ h => h)
      fun _ _ _ _ _ _ _ h => h.elim
  writes s bs h := by
    obtain ⟨n, hn, h⟩ := Option.bind_eq_some_iff.mp h
    exact stringLen_findsLength.writes hn
      (.cast (.bind (countedArray_writes binWByte_implements hn h) (.direction (.pure s)))
        (List.append_nil _) rfl fun hok => ⟨hok, trivial⟩)
  frees s h := by
    obtain ⟨n, hn, h⟩ := h
    obtain ⟨a, ha⟩ := saneiWArray_frees binWByte_implements _ h
    exact ⟨a.v, stringLen_findsLength.frees hn
      (.cast (.bind ha (.direction (.pure a.v))) rfl (Nat.add_zero _))⟩

end SaneBackends

import SaneBackends.WireCodec
import SaneBackends.SignedWords
import Mathlib.Logic.Equiv.Defs
import Mathlib.Algebra.Order.BigOperators.Group.List

/-!
# Formats: what a value is on the wire

A wire function is one piece of code for three purposes.  A `WireFormat` says what
the code is for, without the wire: how a message is laid out in bytes, which value
it is decoded to and how much memory that takes, what a value in memory is encoded
to, which values can be freed with the lengths found in them, and which streams announce
pointers that nobody refuses.  A *message* is
what a peer can put on the wire, whether or not an encoder would ever produce it.

The formats of the structures are put together from those of their fields, in the
same way as the code is.
-/

namespace SaneBackends

open WordBytes SignedWords

structure WireFormat (α μ : Type) where
  /-- The bytes of a message. -/
  bytes : μ → List SaneByte
  /-- The memory its decoding allocates. -/
  memory : μ → Nat
  /-- The parts of the message fit together. -/
  Valid : μ → Prop
  /-- What a prior value becomes when the message is decoded into it. -/
  value : α → μ → α
  /-- The memory a value owns. -/
  held : α → Nat
  /-- What a value is encoded to; nothing when encoding it is undefined in C. -/
  encoding : α → Option (List SaneByte)
  /-- The data in a well-formed value: the message that stands for it. -/
  content : α → Option μ
  /-- The lengths found in the value are those of its blocks. -/
  Consistent : α → Prop
  /-- With so much memory allocated before, a pointer that the stream announces takes the
      total past the limit. -/
  Overruns : Int → List SaneByte → Prop

variable {α β μ ν : Type}

/-- What holds of a format regardless of any wire.  Only a value that owns nothing
    may be decoded into, otherwise its memory would be lost. -/
structure WireFormat.Lawful (F : WireFormat α μ) : Prop where
  held_value : ∀ prior m, F.held prior = 0 → F.held (F.value prior m) = F.memory m
  encodes : ∀ v m, F.content v = some m → F.memory m ≤ MAX_MEM →
    F.encoding v = some (F.bytes m)
  valid : ∀ v m, F.content v = some m → F.memory m ≤ MAX_MEM → F.Valid m
  again : ∀ prior v m, F.content v = some m → F.held prior = 0 →
    F.content (F.value prior m) = some m

/-! ### Scalars, pairs and choices -/

/-- A value without pointers, whose message is the value itself. -/
def WireFormat.fixed (store : α → List SaneByte) : WireFormat α α where
  bytes := store
  memory _ := 0
  Valid _ := True
  value _ m := m
  held _ := 0
  encoding v := some (store v)
  content v := some v
  Consistent _ := True
  Overruns _ _ := False

def byteFormat : WireFormat SaneByte SaneByte := .fixed fun b => [b]

def wordFormat : WireFormat SaneWord SaneWord := .fixed bytesBE

def voidFormat : WireFormat Unit Unit := .fixed fun _ => []

def WireFormat.pair (F : WireFormat α μ) (G : WireFormat β ν) :
    WireFormat (α × β) (μ × ν) where
  bytes m := F.bytes m.1 ++ G.bytes m.2
  memory m := F.memory m.1 + G.memory m.2
  Valid m := F.Valid m.1 ∧ G.Valid m.2
  value prior m := (F.value prior.1 m.1, G.value prior.2 m.2)
  held v := F.held v.1 + G.held v.2
  encoding v := (F.encoding v.1).bind fun bs => (G.encoding v.2).map (bs ++ ·)
  content v := (F.content v.1).bind fun m => (G.content v.2).map (Prod.mk m)
  Consistent v := F.Consistent v.1 ∧ G.Consistent v.2
  Overruns a s := F.Overruns a s ∨
    ∃ m rest, F.Valid m ∧ s = F.bytes m ++ rest ∧ G.Overruns (a + F.memory m) rest

/-- A word and then a value whose format depends on the word. -/
def WireFormat.keyed (G : SaneWord → WireFormat β ν) :
    WireFormat (SaneWord × β) (SaneWord × ν) where
  bytes m := bytesBE m.1 ++ (G m.1).bytes m.2
  memory m := (G m.1).memory m.2
  Valid m := (G m.1).Valid m.2
  value prior m := (m.1, (G m.1).value prior.2 m.2)
  held v := (G v.1).held v.2
  encoding v := ((G v.1).encoding v.2).map (bytesBE v.1 ++ ·)
  content v := ((G v.1).content v.2).map (Prod.mk v.1)
  Consistent v := (G v.1).Consistent v.2
  Overruns a s := ∃ k rest, s = bytesBE k ++ rest ∧ (G k).Overruns a rest

/-- A value that is transferred or left alone. -/
def WireFormat.optional (transferred : Prop) [Decidable transferred] (F : WireFormat α μ) :
    WireFormat α (Option μ) where
  bytes m := m.elim [] F.bytes
  memory m := m.elim 0 F.memory
  Valid m := m.elim (¬ transferred) fun m => transferred ∧ F.Valid m
  value prior m := m.elim prior (F.value prior)
  held := F.held
  encoding v := if transferred then F.encoding v else some []
  content v := if transferred then (F.content v).map some else some none
  Consistent v := if transferred then F.Consistent v else F.held v = 0
  Overruns a s := transferred ∧ F.Overruns a s

/-- The same format for other representations of the values and the messages. -/
def WireFormat.map (e : α ≃ β) (f : μ ≃ ν) (F : WireFormat α μ) : WireFormat β ν where
  bytes m := F.bytes (f.symm m)
  memory m := F.memory (f.symm m)
  Valid m := F.Valid (f.symm m)
  value prior m := e (F.value (e.symm prior) (f.symm m))
  held v := F.held (e.symm v)
  encoding v := F.encoding (e.symm v)
  content v := (F.content (e.symm v)).map f
  Consistent v := F.Consistent (e.symm v)
  Overruns := F.Overruns

theorem WireFormat.fixed_lawful (store : α → List SaneByte) :
    (WireFormat.fixed store).Lawful where
  held_value _ _ _ := rfl
  encodes v m h _ := by
    cases h
    rfl
  valid _ _ _ _ := trivial
  again _ _ _ _ _ := rfl

theorem WireFormat.Lawful.pair {F : WireFormat α μ} {G : WireFormat β ν} (hF : F.Lawful)
    (hG : G.Lawful) : (F.pair G).Lawful where
  held_value prior m h := by
    have hprior : F.held prior.1 + G.held prior.2 = 0 := h
    have h₁ := hF.held_value prior.1 m.1 (by omega)
    have h₂ := hG.held_value prior.2 m.2 (by omega)
    exact congrArg₂ (· + ·) h₁ h₂
  encodes v m h hmax := by
    simp only [WireFormat.pair, Option.bind_eq_some_iff, Option.map_eq_some_iff] at h hmax ⊢
    obtain ⟨m₁, h₁, m₂, h₂, rfl⟩ := h
    have hsum : F.memory m₁ + G.memory m₂ ≤ MAX_MEM := hmax
    exact ⟨_, hF.encodes _ _ h₁ (by omega), _, hG.encodes _ _ h₂ (by omega), rfl⟩
  valid v m h hmax := by
    simp only [WireFormat.pair, Option.bind_eq_some_iff, Option.map_eq_some_iff] at h hmax
    obtain ⟨m₁, h₁, m₂, h₂, rfl⟩ := h
    have hsum : F.memory m₁ + G.memory m₂ ≤ MAX_MEM := hmax
    exact ⟨hF.valid _ _ h₁ (by omega), hG.valid _ _ h₂ (by omega)⟩
  again prior v m h hprior := by
    have hheld : F.held prior.1 + G.held prior.2 = 0 := hprior
    simp only [WireFormat.pair, Option.bind_eq_some_iff, Option.map_eq_some_iff] at h ⊢
    obtain ⟨m₁, h₁, m₂, h₂, rfl⟩ := h
    exact ⟨m₁, hF.again _ _ _ h₁ (by omega), m₂, hG.again _ _ _ h₂ (by omega), rfl⟩

/-- What a value owns must not depend on the word that goes before it. -/
theorem WireFormat.keyed_lawful {G : SaneWord → WireFormat β ν} (hG : ∀ k, (G k).Lawful)
    (hheld : ∀ k k', (G k).held = (G k').held) : (WireFormat.keyed G).Lawful where
  held_value prior m h := by
    apply (hG m.1).held_value
    rw [hheld m.1 prior.1]
    exact h
  encodes v m h hmax := by
    simp only [WireFormat.keyed, Option.map_eq_some_iff] at h hmax ⊢
    obtain ⟨m₂, h₂, rfl⟩ := h
    exact ⟨_, (hG v.1).encodes _ _ h₂ hmax, rfl⟩
  valid v m h hmax := by
    simp only [WireFormat.keyed, Option.map_eq_some_iff] at h
    obtain ⟨m₂, h₂, rfl⟩ := h
    exact (hG v.1).valid _ _ h₂ hmax
  again prior v m h hprior := by
    simp only [WireFormat.keyed, Option.map_eq_some_iff] at h ⊢
    obtain ⟨m₂, h₂, rfl⟩ := h
    refine ⟨m₂, (hG v.1).again _ _ _ h₂ ?_, rfl⟩
    rw [hheld v.1 prior.1]
    exact hprior

theorem WireFormat.Lawful.optional {F : WireFormat α μ} (hF : F.Lawful) (transferred : Prop)
    [Decidable transferred] : (F.optional transferred).Lawful where
  held_value prior m h := by
    cases m with
    | none => exact h
    | some m => exact hF.held_value prior m h
  encodes v m h hmax := by
    by_cases ht : transferred
    · simp only [WireFormat.optional, if_pos ht, Option.map_eq_some_iff] at h ⊢
      obtain ⟨m, hm, rfl⟩ := h
      exact hF.encodes _ _ hm hmax
    · simp only [WireFormat.optional, if_neg ht, Option.some.injEq] at h ⊢
      subst h
      rfl
  valid v m h hmax := by
    by_cases ht : transferred
    · simp only [WireFormat.optional, if_pos ht, Option.map_eq_some_iff] at h
      obtain ⟨m, hm, rfl⟩ := h
      exact ⟨ht, hF.valid _ _ hm hmax⟩
    · simp only [WireFormat.optional, if_neg ht, Option.some.injEq] at h
      subst h
      exact ht
  again prior v m h hprior := by
    by_cases ht : transferred
    · simp only [WireFormat.optional, if_pos ht, Option.map_eq_some_iff] at h ⊢
      obtain ⟨m, hm, rfl⟩ := h
      exact ⟨m, hF.again _ _ _ hm hprior, rfl⟩
    · simp only [WireFormat.optional, if_neg ht] at h ⊢
      exact h

theorem WireFormat.Lawful.map {F : WireFormat α μ} (hF : F.Lawful) (e : α ≃ β) (f : μ ≃ ν) :
    (F.map e f).Lawful where
  held_value prior m h := by
    simp only [WireFormat.map, Equiv.symm_apply_apply]
    exact hF.held_value _ _ h
  encodes v m h hmax := by
    simp only [WireFormat.map, Option.map_eq_some_iff] at h hmax ⊢
    obtain ⟨m, hm, rfl⟩ := h
    rw [Equiv.symm_apply_apply] at hmax ⊢
    exact hF.encodes _ _ hm hmax
  valid v m h hmax := by
    simp only [WireFormat.map, Option.map_eq_some_iff] at h hmax ⊢
    obtain ⟨m, hm, rfl⟩ := h
    rw [Equiv.symm_apply_apply] at hmax ⊢
    exact hF.valid _ _ hm hmax
  again prior v m h hprior := by
    simp only [WireFormat.map, Option.map_eq_some_iff] at h ⊢
    obtain ⟨m, hm, rfl⟩ := h
    simp only [Equiv.symm_apply_apply]
    exact ⟨m, hF.again _ _ _ hm hprior, rfl⟩

/-! ### Arrays -/

/-- The images of the first `n` elements. -/
def takeM (f : α → Option β) : Nat → List α → Option (List β)
  | 0, _ => some []
  | _ + 1, [] => none
  | n + 1, x :: xs => (f x).bind fun y => (takeM f n xs).map (y :: ·)

theorem takeM_cons_eq_some {f : α → Option β} {n : Nat} {x : α} {xs : List α} {ys : List β} :
    takeM f (n + 1) (x :: xs) = some ys ↔
      ∃ y ys', f x = some y ∧ takeM f n xs = some ys' ∧ ys = y :: ys' := by
  simp only [takeM, Option.bind_eq_some_iff, Option.map_eq_some_iff]
  constructor
  · rintro ⟨y, hy, ys', hys, rfl⟩
    exact ⟨y, ys', hy, hys, rfl⟩
  · rintro ⟨y, ys', hy, hys, rfl⟩
    exact ⟨y, hy, ys', hys, rfl⟩

theorem length_of_takeM {f : α → Option β} {n : Nat} {xs : List α} {ys : List β}
    (h : takeM f n xs = some ys) : ys.length = n := by
  induction n generalizing xs ys with
  | zero =>
    cases h
    rfl
  | succ n ih =>
    cases xs with
    | nil => cases h
    | cons x xs =>
      obtain ⟨y, ys', -, hys, rfl⟩ := (takeM_cons_eq_some).mp h
      rw [List.length_cons, ih hys]

/-- Every image is that of some element. -/
theorem exists_of_takeM {f : α → Option β} {n : Nat} {xs : List α} {ys : List β}
    (h : takeM f n xs = some ys) : ∀ y ∈ ys, ∃ x, f x = some y := by
  induction n generalizing xs ys with
  | zero =>
    cases h
    simp
  | succ n ih =>
    cases xs with
    | nil => cases h
    | cons x xs =>
      obtain ⟨y, ys', hy, hys, rfl⟩ := (takeM_cons_eq_some).mp h
      intro z hz
      rcases List.mem_cons.mp hz with rfl | hz
      · exact ⟨x, hy⟩
      · exact ih hys z hz

/-- Elements with given images have these images. -/
theorem takeM_map {f : β → Option α} {g : α → β} {ys : List α}
    (h : ∀ y ∈ ys, f (g y) = some y) : takeM f ys.length (ys.map g) = some ys := by
  induction ys with
  | nil => rfl
  | cons y ys ih =>
    apply (takeM_cons_eq_some).mpr
    exact ⟨y, ys, h y (by simp), ih fun z hz => h z (by simp [hz]), rfl⟩

/-- When `g` gives what `f` gives after `k`, so it does for a list. -/
theorem takeM_of_takeM {γ : Type} {f : α → Option β} {g : α → Option γ} {k : β → γ} {n : Nat}
    {xs : List α} {ys : List β} (h : takeM f n xs = some ys)
    (hfg : ∀ x y, y ∈ ys → f x = some y → g x = some (k y)) :
    takeM g n xs = some (ys.map k) := by
  induction n generalizing xs ys with
  | zero =>
    cases h
    rfl
  | succ n ih =>
    cases xs with
    | nil => cases h
    | cons x xs =>
      obtain ⟨y, ys', hy, hys, rfl⟩ := (takeM_cons_eq_some).mp h
      apply (takeM_cons_eq_some).mpr
      refine ⟨k y, ys'.map k, hfg x y (by simp) hy, ih hys fun x' y' hy' => ?_, rfl⟩
      exact hfg x' y' (by simp [hy'])

theorem takeM_of_le {f : α → Option β} {n k : Nat} {xs : List α} {ys : List β}
    (h : takeM f n xs = some ys) (hk : k ≤ n) : takeM f k xs = some (ys.take k) := by
  induction k generalizing n xs ys with
  | zero => rfl
  | succ k ih =>
    cases n with
    | zero => omega
    | succ n =>
      cases xs with
      | nil => cases h
      | cons x xs =>
        obtain ⟨y, ys', hy, hys, rfl⟩ := (takeM_cons_eq_some).mp h
        exact (takeM_cons_eq_some).mpr ⟨y, ys'.take k, hy, ih hys (by omega), List.take_succ_cons⟩

/-- The array decoding builds: no block when there are no elements. -/
def SaneArray.of : List α → SaneArray α
  | [] => ⟨0, .null⟩
  | x :: xs => ⟨BitVec.ofNat 32 (xs.length + 1), .block (x :: xs)⟩

theorem SaneArray.len_of (xs : List α) :
    (SaneArray.of xs).len = BitVec.ofNat 32 xs.length := by cases xs <;> rfl

/-- The memory of a pointer to an array. -/
def blockHeld [CType α] (held : α → Nat) : Ptr (List α) → Nat
  | .block xs => xs.length * CType.sizeof α + (xs.map held).sum
  | _ => 0

/-- What the elements that `len` announces are encoded to. -/
def arrayEncoding (encoding : α → Option (List SaneByte)) (a : SaneArray α) :
    Option (List SaneByte) :=
  if a.len.toInt ≤ 0 then some (bytesBE a.len)
  else
    match a.v with
    | .block xs =>
        (takeM encoding a.len.toInt.toNat xs).map fun bss => bytesBE a.len ++ bss.flatten
    | _ => none

def arrayContent (content : α → Option μ) (a : SaneArray α) : Option (List μ) :=
  if a.len = 0 then some []
  else if a.len.toInt < 0 then none
  else
    match a.v with
    | .block xs => takeM content a.len.toInt.toNat xs
    | _ => none

/-- The length is that of the block. -/
def arrayConsistent (consistent : α → Prop) (a : SaneArray α) : Prop :=
  match a.v with
  | .null => True
  | .wild => a.len = 0
  | .block xs => a.len.toInt = xs.length ∧ ∀ x ∈ xs, consistent x

/-- The elements before the one that overruns have been decoded. -/
def elementOverruns (F : WireFormat α μ) (n : Nat) (a : Int) (s : List SaneByte) : Prop :=
  ∃ (ms : List μ) (rest : List SaneByte), ms.length < n ∧ (∀ m ∈ ms, F.Valid m) ∧
    s = (ms.map F.bytes).flatten ++ rest ∧ F.Overruns (a + (ms.map F.memory).sum) rest

def WireFormat.array [CType α] (F : WireFormat α μ) : WireFormat (SaneArray α) (List μ) where
  bytes ms := bytesBE (BitVec.ofNat 32 ms.length) ++ (ms.map F.bytes).flatten
  memory ms := ms.length * CType.sizeof α + (ms.map F.memory).sum
  Valid ms := ms.length ≤ MAX_MEM ∧ ∀ m ∈ ms, F.Valid m
  value _ ms := .of (ms.map (F.value CType.zero))
  held a := blockHeld F.held a.v
  encoding := arrayEncoding F.encoding
  content := arrayContent F.content
  Consistent := arrayConsistent F.Consistent
  Overruns a s := ∃ (n : SaneWord) (rest : List SaneByte), s = bytesBE n ++ rest ∧
    a + (n.toNat * CType.sizeof α : Nat) ≤ MAX_MEM ∧
    elementOverruns F n.toNat (a + (n.toNat * CType.sizeof α : Nat)) rest

theorem blockHeld_of [CType α] (held : α → Nat) (xs : List α) :
    blockHeld held (SaneArray.of xs).v = xs.length * CType.sizeof α + (xs.map held).sum := by
  cases xs <;> simp [SaneArray.of, blockHeld]

theorem takeM_isSome {f : α → Option β} {n : Nat} {xs : List α} (hf : ∀ x ∈ xs, (f x).isSome)
    (hn : n ≤ xs.length) : (takeM f n xs).isSome := by
  induction n generalizing xs with
  | zero => rfl
  | succ n ih =>
    cases xs with
    | nil => simp at hn
    | cons x xs =>
      obtain ⟨y, hy⟩ := Option.isSome_iff_exists.mp (hf x (by simp))
      rw [List.length_cons] at hn
      have hrest := @ih xs (fun x' hx' => hf x' (by simp [hx'])) (by omega)
      obtain ⟨ys, hys⟩ := Option.isSome_iff_exists.mp hrest
      exact Option.isSome_iff_exists.mpr ⟨y :: ys, (takeM_cons_eq_some).mpr ⟨y, ys, hy, hys, rfl⟩⟩

/-- Encoding does not leave a block that has the elements announced. -/
theorem arrayEncoding_isSome {encoding : α → Option (List SaneByte)} {len : SaneWord}
    {xs : List α} (henc : ∀ x ∈ xs, (encoding x).isSome) (hlen : len.toInt ≤ xs.length) :
    (arrayEncoding encoding ⟨len, .block xs⟩).isSome := by
  unfold arrayEncoding
  split_ifs with hpos
  · rfl
  · rw [Option.isSome_map]
    exact takeM_isSome henc (Int.toNat_le.mpr hlen)

/-- A length within the memory limit is the same number in every reading. -/
theorem ofNat_of_le_max {n : Nat} (h : n ≤ MAX_MEM) :
    (BitVec.ofNat 32 n).toNat = n ∧ (BitVec.ofNat 32 n).toInt = n :=
  ofNat_of_lt (lt_of_le_of_lt h (by decide))

theorem length_le_memory {n es total : Nat} (hes : 1 ≤ es) : n ≤ n * es + total :=
  (Nat.le_mul_of_pos_right n hes).trans (Nat.le_add_right _ _)

/-- The two well-formed kinds of array. -/
theorem arrayContent_eq_some {content : α → Option μ} {a : SaneArray α} {ms : List μ} :
    arrayContent content a = some ms ↔
      (a.len = 0 ∧ ms = []) ∨
      (0 < a.len.toInt ∧ ∃ xs, a.v = .block xs ∧ takeM content a.len.toInt.toNat xs = some ms) := by
  have hzero : a.len.toInt = 0 → a.len = 0 := fun h => BitVec.eq_of_toInt_eq h
  constructor
  · intro h
    unfold arrayContent at h
    split_ifs at h with h0 hneg
    · cases h
      exact .inl ⟨h0, rfl⟩
    · have hpos : 0 < a.len.toInt := by
        have := mt hzero h0
        omega
      cases hv : a.v with
      | null => rw [hv] at h; cases h
      | wild => rw [hv] at h; cases h
      | block xs =>
        rw [hv] at h
        exact .inr ⟨hpos, xs, rfl, h⟩
  · rintro (⟨h0, rfl⟩ | ⟨hpos, xs, hv, htake⟩)
    · exact if_pos h0
    · have h0 : a.len ≠ 0 := by
        intro h0
        rw [h0] at hpos
        exact absurd hpos (by decide)
      rw [arrayContent, if_neg h0, if_neg (by omega), hv]
      exact htake

/-- The length of a well-formed array is that of its message. -/
theorem len_of_arrayContent {content : α → Option μ} {a : SaneArray α} {ms : List μ}
    (h : arrayContent content a = some ms) :
    BitVec.ofNat 32 ms.length = a.len ∧ a.len.toInt = ms.length := by
  rcases (arrayContent_eq_some).mp h with ⟨h0, rfl⟩ | ⟨hpos, xs, -, htake⟩
  · rw [h0]
    exact ⟨rfl, rfl⟩
  · rw [length_of_takeM htake]
    exact ⟨(toNat_of_nonneg (by omega)).2, by omega⟩

theorem arrayContent_of {content : α → Option μ} {value : μ → α} {ms : List μ}
    (hlen : (BitVec.ofNat 32 ms.length).toInt = ms.length)
    (h : ∀ m ∈ ms, content (value m) = some m) :
    arrayContent content (.of (ms.map value)) = some ms := by
  cases ms with
  | nil => rfl
  | cons m ms =>
    have hnum : (SaneArray.of ((m :: ms).map value)).len.toInt = (m :: ms).length := by
      rw [SaneArray.len_of, List.length_map, hlen]
    refine (arrayContent_eq_some).mpr (.inr ⟨?_, (m :: ms).map value, rfl, ?_⟩)
    · rw [hnum, List.length_cons]
      omega
    · rw [hnum, Int.toNat_natCast]
      exact takeM_map h

theorem arrayEncoding_of_content {content : α → Option μ}
    {encoding : α → Option (List SaneByte)} {bytes : μ → List SaneByte} {a : SaneArray α}
    {ms : List μ} (h : arrayContent content a = some ms)
    (henc : ∀ x m, m ∈ ms → content x = some m → encoding x = some (bytes m)) :
    arrayEncoding encoding a = some (bytesBE a.len ++ (ms.map bytes).flatten) := by
  rcases (arrayContent_eq_some).mp h with ⟨h0, rfl⟩ | ⟨hpos, xs, hv, htake⟩
  · rw [arrayEncoding, if_pos (by rw [h0]; decide)]
    simp
  · rw [arrayEncoding, if_neg (by omega), hv]
    simp only [takeM_of_takeM htake henc, Option.map_some]

/-- An element of a message takes no more memory than the whole. -/
theorem memory_le_of_mem {memory : μ → Nat} {m : μ} {ms : List μ} (h : m ∈ ms) :
    memory m ≤ (ms.map memory).sum :=
  List.le_sum_of_mem (List.mem_map_of_mem h)

theorem sum_map_held {F : WireFormat α μ} (hF : F.Lawful) {prior : α} (hprior : F.held prior = 0)
    (ms : List μ) :
    ((ms.map (F.value prior)).map F.held).sum = (ms.map F.memory).sum := by
  rw [List.map_map]
  congr 1
  exact List.map_congr_left fun m _ => hF.held_value prior m hprior

theorem WireFormat.Lawful.array [CType α] {F : WireFormat α μ} (hF : F.Lawful)
    (hzero : F.held CType.zero = 0) (hsize : 1 ≤ CType.sizeof α) : F.array.Lawful where
  held_value prior ms _ := by
    simp only [WireFormat.array, blockHeld_of, List.length_map, sum_map_held hF hzero]
  encodes a ms h hmax := by
    have hmem : ms.length * CType.sizeof α + (ms.map F.memory).sum ≤ MAX_MEM := hmax
    simp only [WireFormat.array, (len_of_arrayContent h).1]
    apply arrayEncoding_of_content h
    intro x m hm hx
    have := @memory_le_of_mem _ F.memory _ _ hm
    exact hF.encodes x m hx (by omega)
  valid a ms h hmax := by
    have hmem : ms.length * CType.sizeof α + (ms.map F.memory).sum ≤ MAX_MEM := hmax
    refine ⟨(length_le_memory hsize).trans hmem, fun m hm => ?_⟩
    have := @memory_le_of_mem _ F.memory _ _ hm
    rcases (arrayContent_eq_some).mp h with ⟨-, rfl⟩ | ⟨-, xs, -, htake⟩
    · cases hm
    · obtain ⟨x, hx⟩ := exists_of_takeM htake m hm
      exact hF.valid x m hx (by omega)
  again prior a ms h _ := by
    obtain ⟨hlen, hnum⟩ := len_of_arrayContent h
    apply arrayContent_of (by rw [hlen, hnum])
    intro m hm
    rcases (arrayContent_eq_some).mp h with ⟨-, rfl⟩ | ⟨-, xs, -, htake⟩
    · cases hm
    · obtain ⟨x, hx⟩ := exists_of_takeM htake m hm
      exact hF.again _ x m hx hzero

/-! ### Pointers -/

/-- A pointer on the wire: any word but zero says that it is null. -/
inductive PtrMsg (μ : Type) where
  | null (w : { w : SaneWord // w ≠ 0 })
  | value (m : μ)
deriving DecidableEq, Repr

def WireFormat.ptr [CType α] (F : WireFormat α μ) : WireFormat (Ptr α) (PtrMsg μ) where
  bytes
    | .null w => bytesBE w
    | .value m => bytesBE 0 ++ F.bytes m
  memory
    | .null _ => 0
    | .value m => CType.sizeof α + F.memory m
  Valid
    | .null _ => True
    | .value m => F.Valid m
  value _
    | .null _ => .null
    | .value m => .block (F.value CType.zero m)
  held
    | .block a => CType.sizeof α + F.held a
    | _ => 0
  encoding
    | .null => some (bytesBE 1)
    | .wild => none
    | .block a => (F.encoding a).map (bytesBE 0 ++ ·)
  content
    | .null => some (.null ⟨1, by decide⟩)
    | .wild => none
    | .block a => (F.content a).map .value
  Consistent
    | .null => True
    | .wild => False
    | .block a => F.Consistent a
  Overruns a s := ∃ rest, s = bytesBE 0 ++ rest ∧
    (MAX_MEM < a + CType.sizeof α ∨ F.Overruns (a + CType.sizeof α) rest)

theorem WireFormat.Lawful.ptr [CType α] {F : WireFormat α μ} (hF : F.Lawful)
    (hzero : F.held CType.zero = 0) : F.ptr.Lawful where
  held_value prior m _ := by
    cases m with
    | null w => rfl
    | value m => simp only [WireFormat.ptr, hF.held_value _ m hzero]
  encodes v m h hmax := by
    cases v with
    | null =>
      cases h
      rfl
    | wild => cases h
    | block a =>
      obtain ⟨m, hm, rfl⟩ := Option.map_eq_some_iff.mp h
      simp only [WireFormat.ptr] at hmax ⊢
      rw [hF.encodes a m hm (by omega)]
      rfl
  valid v m h hmax := by
    cases v with
    | null =>
      cases h
      trivial
    | wild => cases h
    | block a =>
      obtain ⟨m, hm, rfl⟩ := Option.map_eq_some_iff.mp h
      have hsum : CType.sizeof α + F.memory m ≤ MAX_MEM := hmax
      exact hF.valid a m hm (by omega)
  again prior v m h _ := by
    cases v with
    | null =>
      cases h
      rfl
    | wild => cases h
    | block a =>
      obtain ⟨m, hm, rfl⟩ := Option.map_eq_some_iff.mp h
      simp only [WireFormat.ptr, hF.again _ a m hm hzero, Option.map_some]

/-! ### Lists whose length is found in them -/

/-- A pointer to a list without a length of its own.  `lenOf` is the length that the
    code finds in the list. -/
def WireFormat.counted [CType α] (lenOf : Ptr (List α) → Option Nat) (F : WireFormat α μ) :
    WireFormat (Ptr (List α)) (List μ) where
  bytes := F.array.bytes
  memory := F.array.memory
  Valid := F.array.Valid
  value _ ms := (SaneArray.of (ms.map (F.value CType.zero))).v
  held := blockHeld F.held
  encoding p := (lenOf p).bind fun n => F.array.encoding ⟨BitVec.ofNat 32 n, p⟩
  content
    | .null => (lenOf .null).bind fun n => if n = 0 then some [] else none
    | .wild => none
    | .block xs =>
        (lenOf (.block xs)).bind fun n => if n = 0 then none else takeM F.content n xs
  Consistent p := ∃ n, lenOf p = some n ∧ F.array.Consistent ⟨BitVec.ofNat 32 n, p⟩
  Overruns := F.array.Overruns

/-- The well-formed kinds of list. -/
theorem WireFormat.counted_content_eq_some [CType α] {lenOf : Ptr (List α) → Option Nat}
    {F : WireFormat α μ} {p : Ptr (List α)} {ms : List μ} :
    (F.counted lenOf).content p = some ms ↔
      (p = .null ∧ lenOf .null = some 0 ∧ ms = []) ∨
      ∃ xs n, p = .block xs ∧ n ≠ 0 ∧ lenOf (.block xs) = some n ∧
        takeM F.content n xs = some ms := by
  cases p with
  | null =>
    simp only [WireFormat.counted, Option.bind_eq_some_iff]
    constructor
    · rintro ⟨n, hn, h⟩
      split_ifs at h with h0
      cases h
      exact .inl ⟨trivial, by rw [hn, h0], rfl⟩
    · rintro (⟨-, hn, rfl⟩ | ⟨xs, n, hp, -⟩)
      · exact ⟨0, hn, if_pos rfl⟩
      · cases hp
  | wild => simp [WireFormat.counted]
  | block xs =>
    simp only [WireFormat.counted, Option.bind_eq_some_iff]
    constructor
    · rintro ⟨n, hn, h⟩
      split_ifs at h with h0
      exact .inr ⟨xs, n, rfl, h0, hn, h⟩
    · rintro (⟨hp, -⟩ | ⟨ys, n, hp, h0, hn, h⟩)
      · cases hp
      · cases hp
        exact ⟨n, hn, by rw [if_neg h0, h]⟩

/-- Encoding stays inside a list whose length is found to be that of its block. -/
theorem WireFormat.counted_encoding_isSome [CType α] {lenOf : Ptr (List α) → Option Nat}
    {F : WireFormat α μ} {xs : List α} (hfound : lenOf (.block xs) = some xs.length)
    (hmax : xs.length ≤ MAX_MEM) (henc : ∀ x ∈ xs, (F.encoding x).isSome) :
    ((F.counted lenOf).encoding (.block xs)).isSome := by
  simp only [WireFormat.counted, hfound, Option.bind_some]
  exact arrayEncoding_isSome henc (ofNat_of_le_max hmax).2.le

/-- The length found in a list must be found again in what its message is decoded to. -/
theorem WireFormat.Lawful.counted [CType α] {lenOf : Ptr (List α) → Option Nat}
    {F : WireFormat α μ} (hF : F.Lawful) (hzero : F.held CType.zero = 0)
    (hsize : 1 ≤ CType.sizeof α)
    (hlen : ∀ xs n ms, n ≠ 0 → lenOf (.block xs) = some n → takeM F.content n xs = some ms →
      lenOf (.block (ms.map (F.value CType.zero))) = some n) :
    (F.counted lenOf).Lawful where
  held_value prior ms _ := by
    simp only [WireFormat.counted, WireFormat.array, blockHeld_of, List.length_map,
      sum_map_held hF hzero]
  encodes p ms h hmax := by
    rcases counted_content_eq_some.mp h with ⟨rfl, hnull, rfl⟩ | ⟨xs, n, rfl, h0, hn, htake⟩
    · simp only [WireFormat.counted, hnull, Option.bind_some]
      rfl
    · have hmem : ms.length * CType.sizeof α + (ms.map F.memory).sum ≤ MAX_MEM := hmax
      have hms := length_of_takeM htake
      have hle : n ≤ MAX_MEM := by
        have := @length_le_memory ms.length _ (ms.map F.memory).sum hsize
        omega
      simp only [WireFormat.counted, hn, Option.bind_some]
      apply (hF.array hzero hsize).encodes _ ms _ hmax
      refine (arrayContent_eq_some).mpr (.inr ⟨?_, xs, rfl, ?_⟩)
      · rw [(ofNat_of_le_max hle).2]
        omega
      · rw [(ofNat_of_le_max hle).2, Int.toNat_natCast]
        exact htake
  valid p ms h hmax := by
    have hmem : ms.length * CType.sizeof α + (ms.map F.memory).sum ≤ MAX_MEM := hmax
    refine ⟨(length_le_memory hsize).trans hmem, fun m hm => ?_⟩
    have := @memory_le_of_mem _ F.memory _ _ hm
    rcases counted_content_eq_some.mp h with ⟨-, -, rfl⟩ | ⟨xs, n, -, -, -, htake⟩
    · cases hm
    · obtain ⟨x, hx⟩ := exists_of_takeM htake m hm
      exact hF.valid x m hx (by omega)
  again prior p ms h _ := by
    rcases counted_content_eq_some.mp h with ⟨rfl, hnull, rfl⟩ | ⟨xs, n, rfl, h0, hn, htake⟩
    · exact counted_content_eq_some.mpr (.inl ⟨rfl, hnull, rfl⟩)
    · have hms := length_of_takeM htake
      refine counted_content_eq_some.mpr
        (.inr ⟨ms.map (F.value CType.zero), n, ?_, h0, hlen xs n ms h0 hn htake, ?_⟩)
      · cases ms with
        | nil => exact absurd hms.symm h0
        | cons m ms => rfl
      · rw [← hms]
        apply takeM_map
        intro m hm
        obtain ⟨x, hx⟩ := exists_of_takeM htake m hm
        exact hF.again _ x m hx hzero

end SaneBackends

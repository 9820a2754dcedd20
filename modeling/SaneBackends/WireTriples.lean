import SaneBackends.WireStream

/-!
# What a wire operation does to the streams

Five statements about an operation `m` on the wire, one for each use of it:

* `DecodesAs ver m bs b c`: when the stream starts with `bs`, nothing goes wrong
  outside and `c` more bytes of memory are allowed, `m` returns `b`, has consumed
  exactly `bs` and has allocated `c` bytes;
* `DecodesFrom ver m P`: whatever the stream, `m` consumes some bytes of it and
  allocates some memory, and if it ends in a good status then `P` relates the bytes,
  the memory and the result;
* `OverrunsFrom ver m O`: the total of the memory is taken past the limit only if `O` holds of
  what is allocated before and the stream;
* `EncodesAs ver m bs b`: `m` returns `b` and appends `bs` to the stream, or a write
  has failed and a prefix of that stream has been accepted;
* `FreesAs ver m b held`: `m` returns `b` and gives back `held` bytes.

Each holds of a sequence when it holds of the parts, so that the statement for a
structure is put together from those for its fields.
-/

namespace SaneBackends

open FaultState WordBytes Overwrite

variable {α β : Type} {ver : Int}

/-! ### Running the small operations -/

@[simp] theorem wireStatus_run (w : Wire) : wireStatus w = .ok (w.status, w) := rfl

@[simp] theorem wireDirection_run (w : Wire) : wireDirection w = .ok (w.direction, w) := rfl

@[simp] theorem wireVersion_run (w : Wire) : wireVersion w = .ok (w.version, w) := rfl

@[simp] theorem uninitWord_run (w : Wire) : uninitWord w = .ok (w.junk, w) := rfl

@[simp] theorem saneiWSpace_run (n : Nat) (w : Wire) :
    saneiWSpace n w = .ok ((), w.space n) := rfl

@[simp] theorem setStatus_run (e : Errno) (w : Wire) :
    setStatus e w = .ok ((), { w with status := e }) := rfl

theorem ite_run (c : Prop) [Decidable c] (m n : WireM α) (w : Wire) :
    (if c then m else n) w = if c then m w else n w := by split <;> rfl

theorem putBytes_run (bs : List SaneByte) (w : Wire)
    (h : w.buffer.curr + bs.length ≤ w.buffer.size) :
    putBytes bs w = .ok ((), { w with
      buffer :=
        { w.buffer with
          mem := overwrite w.buffer.mem w.buffer.curr bs
          curr := w.buffer.curr + bs.length } }) := by
  have hfit : ¬ w.buffer.curr + bs.length > w.buffer.size := Nat.not_lt.mpr h
  simp only [putBytes, bind_run, get_run, ite_run, if_neg hfit, set_run]

theorem getBytes_run (n : Nat) (w : Wire) (h : w.buffer.curr + n ≤ w.buffer.size) :
    getBytes n w = .ok ((w.buffer.mem.drop w.buffer.curr).take n,
      { w with buffer := { w.buffer with curr := w.buffer.curr + n } }) := by
  have hfit : ¬ w.buffer.curr + n > w.buffer.size := Nat.not_lt.mpr h
  simp only [getBytes, bind_run, get_run, ite_run, if_neg hfit, pure_run, set_run]

/-! ### Decoding a known stream -/

def DecodesAs (ver : Int) (m : WireM β) (bs : List SaneByte) (b : β) (c : Nat) : Prop :=
  ∀ (w : Wire) (rest : List SaneByte), w.Ready ver → w.pending = bs ++ rest →
    0 ≤ w.allocatedMemory → w.allocatedMemory + c ≤ MAX_MEM →
    ∃ w', m w = .ok (b, w') ∧ w'.Ready ver ∧ w'.pending = rest ∧
      w'.allocatedMemory = w.allocatedMemory + c

theorem DecodesAs.pure (b : β) : DecodesAs ver (Pure.pure b) [] b 0 :=
  fun w _ hw hp _ _ => ⟨w, rfl, hw, hp, by simp⟩

theorem DecodesAs.bind {m : WireM α} {f : α → WireM β} {bs cs : List SaneByte} {a : α} {b : β}
    {c d : Nat} (hm : DecodesAs ver m bs a c) (hf : DecodesAs ver (f a) cs b d) :
    DecodesAs ver (m >>= f) (bs ++ cs) b (c + d) := by
  intro w rest hw hp h0 hmax
  obtain ⟨w₁, hrun₁, hw₁, hp₁, hal₁⟩ :=
    hm w (cs ++ rest) hw (by rw [hp, List.append_assoc]) h0 (by omega)
  obtain ⟨w₂, hrun₂, hw₂, hp₂, hal₂⟩ := hf w₁ rest hw₁ hp₁ (by omega) (by omega)
  exact ⟨w₂, by rw [bind_of_ok hrun₁, hrun₂], hw₂, hp₂, by omega⟩

theorem DecodesAs.cast {m : WireM β} {bs bs' : List SaneByte} {b b' : β} {c c' : Nat}
    (h : DecodesAs ver m bs b c) (hbs : bs = bs') (hb : b = b') (hc : c = c') :
    DecodesAs ver m bs' b' c' := by
  subst hbs hb hc
  exact h

/-- The last step of a structure: the parts are put together. -/
theorem DecodesAs.map {m : WireM α} {l : List SaneByte} {a : α} {c : Nat}
    (h : DecodesAs ver m l a c) (g : α → β) :
    DecodesAs ver (do let a ← m; return g a) l (g a) c :=
  (h.bind (.pure (g a))).cast (List.append_nil _) rfl rfl

/-- A test of the status that gives up; decoding a known stream never does. -/
theorem DecodesAs.status {m : WireM β} {l : List SaneByte} {b b' : β} {c : Nat}
    (h : DecodesAs ver m l b c) :
    DecodesAs ver (do if (← wireStatus) ≠ 0 then return b' else m) l b c := by
  intro w rest hw
  rw [bind_of_ok (wireStatus_run w), if_neg (not_not.mpr hw.good)]
  exact h w rest hw

theorem DecodesAs.direction {f : WireDirection → WireM β} {bs : List SaneByte} {b : β} {c : Nat}
    (h : DecodesAs ver (f .decode) bs b c) : DecodesAs ver (wireDirection >>= f) bs b c := by
  intro w rest hw
  rw [bind_of_ok (wireDirection_run w), hw.dir]
  exact h w rest hw

theorem DecodesAs.version {f : Int → WireM β} {bs : List SaneByte} {b : β} {c : Nat}
    (h : DecodesAs ver (f ver) bs b c) : DecodesAs ver (wireVersion >>= f) bs b c := by
  intro w rest hw
  rw [bind_of_ok (wireVersion_run w), hw.version]
  exact h w rest hw

theorem DecodesAs.uninit {f : SaneWord → WireM β} {bs : List SaneByte} {b : β} {c : Nat}
    (h : ∀ junk, DecodesAs ver (f junk) bs b c) :
    DecodesAs ver (uninitWord >>= f) bs b c := by
  intro w rest hw
  rw [bind_of_ok (uninitWord_run w)]
  exact h w.junk w rest hw

/-! ### Decoding an arbitrary stream -/

/-- From `w` to `w'` some bytes have been consumed and some memory allocated; in a
    good status `Q` holds of both.  The books are kept as long as `sanei_w_ptr` does
    not allocate past the limit. -/
structure DecodeStep (ver : Int) (w w' : Wire) (Q : List SaneByte → Nat → Prop) : Prop where
  after : w'.InDecode ver
  sent : w'.io.sent = w.io.sent
  flag : w.heap.ptrOverrun = true → w'.heap.ptrOverrun = true
  moved : ∃ (bs : List SaneByte) (δ : Nat), w.pending = bs ++ w'.pending ∧
    w'.heap.live = w.heap.live + δ ∧
    (0 ≤ w.allocatedMemory → w.allocatedMemory ≤ MAX_MEM → w'.heap.ptrOverrun = false →
      w'.allocatedMemory = w.allocatedMemory + δ ∧ w'.allocatedMemory ≤ MAX_MEM) ∧
    (w'.status = 0 → w.status = 0 ∧ Q bs δ)

def DecodesFrom (ver : Int) (m : WireM β) (P : List SaneByte → Nat → β → Prop) : Prop :=
  ∀ (w : Wire) (b : β) (w' : Wire), w.InDecode ver → m w = .ok (b, w') →
    DecodeStep ver w w' (P · · b)

theorem DecodeStep.refl {w : Wire} {Q : List SaneByte → Nat → Prop} (hw : w.InDecode ver)
    (hQ : w.status = 0 → Q [] 0) : DecodeStep ver w w Q :=
  ⟨hw, rfl, id, [], 0, rfl, by simp, fun _ hmax _ => ⟨by simp, hmax⟩, fun hs => ⟨hs, hQ hs⟩⟩

theorem DecodeStep.trans {w₁ w₂ w₃ : Wire} {Q₁ Q₂ Q : List SaneByte → Nat → Prop}
    (h₁ : DecodeStep ver w₁ w₂ Q₁) (h₂ : DecodeStep ver w₂ w₃ Q₂)
    (hQ : ∀ bs₁ bs₂ δ₁ δ₂, Q₁ bs₁ δ₁ → Q₂ bs₂ δ₂ → Q (bs₁ ++ bs₂) (δ₁ + δ₂)) :
    DecodeStep ver w₁ w₃ Q := by
  obtain ⟨bs₁, δ₁, hp₁, hl₁, hal₁, hq₁⟩ := h₁.moved
  obtain ⟨bs₂, δ₂, hp₂, hl₂, hal₂, hq₂⟩ := h₂.moved
  refine ⟨h₂.after, h₂.sent.trans h₁.sent, fun hf => h₂.flag (h₁.flag hf),
    bs₁ ++ bs₂, δ₁ + δ₂, ?_, ?_, ?_, ?_⟩
  · rw [hp₁, hp₂, List.append_assoc]
  · push_cast
    omega
  · intro h0 hmax hflag
    have hflag₂ : w₂.heap.ptrOverrun = false := by
      cases hw₂ : w₂.heap.ptrOverrun with
      | false => rfl
      | true => rw [h₂.flag hw₂] at hflag; cases hflag
    obtain ⟨he₁, hm₁⟩ := hal₁ h0 hmax hflag₂
    obtain ⟨he₂, hm₂⟩ := hal₂ (by omega) hm₁ hflag
    push_cast
    exact ⟨by omega, hm₂⟩
  · intro hs
    obtain ⟨hs₂, hq₂⟩ := hq₂ hs
    obtain ⟨hs₁, hq₁⟩ := hq₁ hs₂
    exact ⟨hs₁, hQ _ _ _ _ hq₁ hq₂⟩

theorem DecodesFrom.pure {P : List SaneByte → Nat → β → Prop} {b : β} (h : P [] 0 b) :
    DecodesFrom ver (Pure.pure b) P := by
  intro w b' w' hw hrun
  cases hrun
  exact .refl hw fun _ => h

theorem DecodesFrom.throw {P : List SaneByte → Nat → β → Prop} (e : Fault) :
    DecodesFrom ver (MonadExcept.throw e) P := by
  intro w b w' _ hrun
  cases hrun

theorem DecodesFrom.bind {m : WireM α} {f : α → WireM β}
    {P : List SaneByte → Nat → α → Prop} {Q : α → List SaneByte → Nat → β → Prop}
    {R : List SaneByte → Nat → β → Prop}
    (hm : DecodesFrom ver m P) (hf : ∀ a, DecodesFrom ver (f a) (Q a))
    (hR : ∀ a bs₁ bs₂ δ₁ δ₂ b, P bs₁ δ₁ a → Q a bs₂ δ₂ b → R (bs₁ ++ bs₂) (δ₁ + δ₂) b) :
    DecodesFrom ver (m >>= f) R := by
  intro w b w'' hw hrun
  obtain ⟨a, w', hrun₁, hrun₂⟩ := bind_ok.mp hrun
  have h₁ := hm w a w' hw hrun₁
  have h₂ := hf a w' b w'' h₁.after hrun₂
  exact h₁.trans h₂ fun bs₁ bs₂ δ₁ δ₂ => hR a bs₁ bs₂ δ₁ δ₂ b

theorem DecodesFrom.conseq {m : WireM β} {P Q : List SaneByte → Nat → β → Prop}
    (hm : DecodesFrom ver m P) (hPQ : ∀ bs δ b, P bs δ b → Q bs δ b) :
    DecodesFrom ver m Q := by
  intro w b w' hw hrun
  obtain ⟨hafter, hsent, hflag, bs, δ, hp, hl, hal, hq⟩ := hm w b w' hw hrun
  exact ⟨hafter, hsent, hflag, bs, δ, hp, hl, hal, fun hs => ⟨(hq hs).1, hPQ _ _ _ (hq hs).2⟩⟩

theorem DecodesFrom.map {m : WireM α} {P : List SaneByte → Nat → α → Prop}
    {Q : List SaneByte → Nat → β → Prop} (h : DecodesFrom ver m P) (g : α → β)
    (hQ : ∀ bs δ a, P bs δ a → Q bs δ (g a)) :
    DecodesFrom ver (do let a ← m; return g a) Q := by
  refine h.bind (fun a => .pure (P := fun bs δ b => bs = [] ∧ δ = 0 ∧ b = g a) ⟨rfl, rfl, rfl⟩) ?_
  rintro a bs₁ bs₂ δ₁ δ₂ b hP ⟨rfl, rfl, rfl⟩
  rw [List.append_nil, Nat.add_zero]
  exact hQ _ _ _ hP

/-- When a test of the status gives up, nothing is claimed of the result. -/
theorem DecodesFrom.status {m : WireM β} {b' : β} {P : List SaneByte → Nat → β → Prop}
    (h : DecodesFrom ver m P) :
    DecodesFrom ver (do if (← wireStatus) ≠ 0 then return b' else m) P := by
  intro w b w' hw hrun
  rw [bind_of_ok (wireStatus_run w)] at hrun
  by_cases hs : w.status ≠ 0
  · rw [if_pos hs] at hrun
    cases hrun
    exact .refl hw fun h0 => absurd h0 hs
  · rw [if_neg hs] at hrun
    exact h w b w' hw hrun

theorem DecodesFrom.direction {f : WireDirection → WireM β}
    {P : List SaneByte → Nat → β → Prop} (h : DecodesFrom ver (f .decode) P) :
    DecodesFrom ver (wireDirection >>= f) P := by
  intro w b w' hw hrun
  rw [bind_of_ok (wireDirection_run w), hw.dir] at hrun
  exact h w b w' hw hrun

theorem DecodesFrom.version {f : Int → WireM β} {P : List SaneByte → Nat → β → Prop}
    (h : DecodesFrom ver (f ver) P) : DecodesFrom ver (wireVersion >>= f) P := by
  intro w b w' hw hrun
  rw [bind_of_ok (wireVersion_run w), hw.version] at hrun
  exact h w b w' hw hrun

theorem DecodesFrom.uninit {f : SaneWord → WireM β}
    {P : List SaneByte → Nat → β → Prop} (h : ∀ junk, DecodesFrom ver (f junk) P) :
    DecodesFrom ver (uninitWord >>= f) P := by
  intro w b w' hw hrun
  rw [bind_of_ok (uninitWord_run w)] at hrun
  exact h w.junk w b w' hw hrun

theorem DecodesFrom.set_status (e : Errno) {P : List SaneByte → Nat → Unit → Prop} :
    DecodesFrom ver (setStatus e) P := by
  intro w b w' hw hrun
  cases hrun
  exact ⟨⟨hw.dir, hw.version, hw.buf⟩, rfl, id, [], 0, rfl, by simp,
    fun _ hmax _ => ⟨by simp, hmax⟩, fun hs => absurd hs e.2⟩

/-! ### Allocations that nobody refuses -/

/-- The total is taken past the limit only in a good status, and when `O` holds of the
    memory allocated before and the stream. -/
def OverrunsFrom (ver : Int) (m : WireM β) (O : Int → List SaneByte → Prop) : Prop :=
  ∀ (w : Wire) (b : β) (w' : Wire), w.InDecode ver → 0 ≤ w.allocatedMemory →
    w.allocatedMemory ≤ MAX_MEM → w.heap.ptrOverrun = false → m w = .ok (b, w') →
    w'.heap.ptrOverrun = true → w.status = 0 ∧ O w.allocatedMemory w.pending

/-- Nothing is recorded. -/
theorem OverrunsFrom.of_flag {m : WireM β} {O : Int → List SaneByte → Prop}
    (h : ∀ (w : Wire) (b : β) (w' : Wire), w.InDecode ver → m w = .ok (b, w') →
      w'.heap.ptrOverrun = w.heap.ptrOverrun) : OverrunsFrom ver m O := by
  intro w b w' hw _ _ hflag hrun hover
  rw [h w b w' hw hrun, hflag] at hover
  cases hover

theorem OverrunsFrom.pure {b : β} {O : Int → List SaneByte → Prop} :
    OverrunsFrom ver (Pure.pure b) O := by
  refine .of_flag fun w b' w' _ hrun => ?_
  cases hrun
  rfl

theorem OverrunsFrom.throw (e : Fault) {O : Int → List SaneByte → Prop} :
    OverrunsFrom ver (MonadExcept.throw e : WireM β) O := by
  intro w b w' _ _ _ _ hrun
  cases hrun

theorem OverrunsFrom.set_status (e : Errno) {O : Int → List SaneByte → Prop} :
    OverrunsFrom ver (setStatus e) O := by
  refine .of_flag fun w b w' _ hrun => ?_
  cases hrun
  rfl

theorem OverrunsFrom.conseq {m : WireM β} {O O' : Int → List SaneByte → Prop}
    (hm : OverrunsFrom ver m O) (hO : ∀ a s, O a s → O' a s) : OverrunsFrom ver m O' := by
  intro w b w' hw h0 hmax hflag hrun hover
  obtain ⟨hs, h⟩ := hm w b w' hw h0 hmax hflag hrun hover
  exact ⟨hs, hO _ _ h⟩

/-- The first part overruns, or the second one after what the first one has consumed and
    allocated. -/
theorem OverrunsFrom.bind {m : WireM α} {f : α → WireM β} {P : List SaneByte → Nat → α → Prop}
    {O₁ O : Int → List SaneByte → Prop} {R : α → Int → List SaneByte → Prop}
    (hm : OverrunsFrom ver m O₁) (hacc : DecodesFrom ver m P)
    (hf : ∀ v, OverrunsFrom ver (f v) (R v)) (h₁ : ∀ a s, O₁ a s → O a s)
    (h₂ : ∀ v bs (δ : Nat) (a : Int) s, P bs δ v → a + δ ≤ MAX_MEM → R v (a + δ) s →
      O a (bs ++ s)) : OverrunsFrom ver (m >>= f) O := by
  intro w b w'' hw h0 hmax hflag hrun hover
  obtain ⟨v, w', hrun₁, hrun₂⟩ := bind_ok.mp hrun
  cases hflag' : w'.heap.ptrOverrun with
  | true =>
    obtain ⟨hs, h⟩ := hm w v w' hw h0 hmax hflag hrun₁ hflag'
    exact ⟨hs, h₁ _ _ h⟩
  | false =>
    have hstep := hacc w v w' hw hrun₁
    obtain ⟨bs, δ, hpend, -, hledger, hgood⟩ := hstep.moved
    obtain ⟨hal, hmax'⟩ := hledger h0 hmax hflag'
    obtain ⟨hs', h⟩ := hf v w' b w'' hstep.after (by omega) hmax' hflag' hrun₂ hover
    obtain ⟨hs, hP⟩ := hgood hs'
    rw [hal] at h hmax'
    rw [hpend]
    exact ⟨hs, h₂ v bs δ _ _ hP hmax' h⟩

theorem OverrunsFrom.map {m : WireM α} {O : Int → List SaneByte → Prop}
    (h : OverrunsFrom ver m O) (g : α → β) : OverrunsFrom ver (do let a ← m; return g a) O := by
  intro w b w'' hw h0 hmax hflag hrun hover
  obtain ⟨v, w', hrun₁, hrun₂⟩ := bind_ok.mp hrun
  cases hrun₂
  exact h w v w'' hw h0 hmax hflag hrun₁ hover

theorem OverrunsFrom.status {m : WireM β} {b' : β} {O : Int → List SaneByte → Prop}
    (h : OverrunsFrom ver m O) :
    OverrunsFrom ver (do if (← wireStatus) ≠ 0 then return b' else m) O := by
  intro w b w' hw h0 hmax hflag hrun hover
  rw [bind_of_ok (wireStatus_run w)] at hrun
  by_cases hs : w.status ≠ 0
  · rw [if_pos hs] at hrun
    exact OverrunsFrom.pure w b w' hw h0 hmax hflag hrun hover
  · rw [if_neg hs] at hrun
    exact h w b w' hw h0 hmax hflag hrun hover

theorem OverrunsFrom.direction {f : WireDirection → WireM β} {O : Int → List SaneByte → Prop}
    (h : OverrunsFrom ver (f .decode) O) : OverrunsFrom ver (wireDirection >>= f) O := by
  intro w b w' hw h0 hmax hflag hrun hover
  rw [bind_of_ok (wireDirection_run w), hw.dir] at hrun
  exact h w b w' hw h0 hmax hflag hrun hover

theorem OverrunsFrom.version {f : Int → WireM β} {O : Int → List SaneByte → Prop}
    (h : OverrunsFrom ver (f ver) O) : OverrunsFrom ver (wireVersion >>= f) O := by
  intro w b w' hw h0 hmax hflag hrun hover
  rw [bind_of_ok (wireVersion_run w), hw.version] at hrun
  exact h w b w' hw h0 hmax hflag hrun hover

theorem OverrunsFrom.uninit {f : SaneWord → WireM β} {O : Int → List SaneByte → Prop}
    (h : ∀ junk, OverrunsFrom ver (f junk) O) : OverrunsFrom ver (uninitWord >>= f) O := by
  intro w b w' hw h0 hmax hflag hrun hover
  rw [bind_of_ok (uninitWord_run w)] at hrun
  exact h w.junk w b w' hw h0 hmax hflag hrun hover

/-! ### Encoding -/

/-- From `w` to `w'` the bytes `bs` have been appended to the stream, or something
    has failed and only a prefix of the stream has been accepted.  With `ok`, nothing
    but a write can fail. -/
structure EncodeStep (ver : Int) (w w' : Wire) (bs : List SaneByte) (ok : Prop) : Prop where
  dir : w'.direction = .encode
  version : w'.version = ver
  buf : w'.buffer.Ok
  sent : w.io.sent <+: w'.io.sent
  out : (w'.status = 0 ∧ w'.buffer.endp = w'.buffer.size ∧ w'.stream = w.stream ++ bs) ∨
    (w'.status ≠ 0 ∧ w'.io.sent <+: w.stream ++ bs)
  accepts : ok → WritesAccept w.io.writes → w'.status = 0 ∧ WritesAccept w'.io.writes

structure EncodesAs (ver : Int) (m : WireM β) (bs : List SaneByte) (b : β) (ok : Prop) :
    Prop where
  bad : ∀ w : Wire, w.direction = .encode → w.version = ver → w.status ≠ 0 →
    ∃ e : Errno, m w = .ok (b, { w with status := e })
  good : ∀ w : Wire, w.InEncode ver → w.status = 0 →
    ∃ w', m w = .ok (b, w') ∧ EncodeStep ver w w' bs ok

theorem EncodeStep.refl {w : Wire} (hw : w.InEncode ver) (hs : w.status = 0) :
    EncodeStep ver w w [] True :=
  ⟨hw.dir, hw.version, hw.buf, List.prefix_refl _, .inl ⟨hs, hw.full, by simp⟩,
    fun _ hws => ⟨hs, hws⟩⟩

theorem EncodesAs.pure (b : β) : EncodesAs ver (Pure.pure b) [] b True where
  bad w _ _ hs := ⟨⟨w.status, hs⟩, rfl⟩
  good w hw hs := ⟨w, rfl, .refl hw hs⟩

theorem EncodesAs.bind {m : WireM α} {f : α → WireM β} {bs cs : List SaneByte} {a : α} {b : β}
    {ok₁ ok₂ : Prop} (hm : EncodesAs ver m bs a ok₁) (hf : EncodesAs ver (f a) cs b ok₂) :
    EncodesAs ver (m >>= f) (bs ++ cs) b (ok₁ ∧ ok₂) where
  bad w hdir hver hs := by
    obtain ⟨e, he⟩ := hm.bad w hdir hver hs
    obtain ⟨e', he'⟩ := hf.bad { w with status := e } hdir hver e.2
    exact ⟨e', by rw [bind_of_ok he, he']⟩
  good w hw hs := by
    obtain ⟨w₁, hrun₁, h₁⟩ := hm.good w hw hs
    rcases h₁.out with ⟨hs₁, hfull₁, hstream₁⟩ | ⟨hs₁, hsent₁⟩
    · obtain ⟨w₂, hrun₂, h₂⟩ := hf.good w₁ ⟨h₁.dir, h₁.version, h₁.buf, hfull₁⟩ hs₁
      refine ⟨w₂, by rw [bind_of_ok hrun₁, hrun₂], h₂.dir, h₂.version, h₂.buf,
        h₁.sent.trans h₂.sent, ?_, fun hok hws => h₂.accepts hok.2 (h₁.accepts hok.1 hws).2⟩
      rw [← List.append_assoc, ← hstream₁]
      exact h₂.out
    · -- the first part has failed: the second one does nothing
      obtain ⟨e, he⟩ := hf.bad w₁ h₁.dir h₁.version hs₁
      refine ⟨{ w₁ with status := e }, by rw [bind_of_ok hrun₁, he], h₁.dir, h₁.version,
        h₁.buf, h₁.sent, .inr ⟨e.2, ?_⟩, fun hok hws => absurd (h₁.accepts hok.1 hws).1 hs₁⟩
      rw [← List.append_assoc]
      exact hsent₁.trans (List.prefix_append _ _)

theorem EncodesAs.cast {m : WireM β} {bs bs' : List SaneByte} {b b' : β} {ok ok' : Prop}
    (h : EncodesAs ver m bs b ok) (hbs : bs = bs') (hb : b = b') (hok : ok' → ok) :
    EncodesAs ver m bs' b' ok' := by
  subst hbs hb
  refine ⟨h.bad, fun w hw hs => ?_⟩
  obtain ⟨w', hrun, hstep⟩ := h.good w hw hs
  exact ⟨w', hrun, hstep.dir, hstep.version, hstep.buf, hstep.sent, hstep.out,
    fun hok' => hstep.accepts (hok hok')⟩

theorem EncodesAs.map {m : WireM α} {bs : List SaneByte} {a : α} {ok : Prop}
    (h : EncodesAs ver m bs a ok) (g : α → β) :
    EncodesAs ver (do let a ← m; return g a) bs (g a) ok :=
  (h.bind (.pure (g a))).cast (List.append_nil _) rfl fun hok => ⟨hok, trivial⟩

/-- A test of the status that gives up with the value unchanged. -/
theorem EncodesAs.status {m : WireM β} {l : List SaneByte} {b : β} {P : Prop}
    (h : EncodesAs ver m l b P) :
    EncodesAs ver (do if (← wireStatus) ≠ 0 then return b else m) l b P where
  bad w _ _ hs := by
    rw [bind_of_ok (wireStatus_run w), if_pos hs]
    exact ⟨⟨w.status, hs⟩, rfl⟩
  good w hw hs := by
    rw [bind_of_ok (wireStatus_run w), if_neg (not_not.mpr hs)]
    exact h.good w hw hs

theorem EncodesAs.direction {f : WireDirection → WireM β} {bs : List SaneByte} {b : β}
    {ok : Prop} (h : EncodesAs ver (f .encode) bs b ok) :
    EncodesAs ver (wireDirection >>= f) bs b ok where
  bad w hdir hver hs := by
    have hrun := wireDirection_run w
    rw [hdir] at hrun
    rw [bind_of_ok hrun]
    exact h.bad w hdir hver hs
  good w hw hs := by
    rw [bind_of_ok (wireDirection_run w), hw.dir]
    exact h.good w hw hs

theorem EncodesAs.version {f : Int → WireM β} {bs : List SaneByte} {b : β} {ok : Prop}
    (h : EncodesAs ver (f ver) bs b ok) : EncodesAs ver (wireVersion >>= f) bs b ok where
  bad w hdir hver hs := by
    have hrun := wireVersion_run w
    rw [hver] at hrun
    rw [bind_of_ok hrun]
    exact h.bad w hdir hver hs
  good w hw hs := by
    rw [bind_of_ok (wireVersion_run w), hw.version]
    exact h.good w hw hs

theorem EncodesAs.set_status (e : Errno) : EncodesAs ver (setStatus e) [] () False where
  bad w _ _ _ := ⟨e, rfl⟩
  good w hw _ := by
    refine ⟨{ w with status := e }, rfl, hw.dir, hw.version, hw.buf, List.prefix_refl _,
      .inr ⟨e.2, ?_⟩, False.elim⟩
    rw [List.append_nil]
    exact List.prefix_append _ _

/-! ### Freeing -/

/-- `held` bytes given back, and taken off the account. -/
def Wire.released (w : Wire) (held : Nat) : Wire :=
  { w with
    allocatedMemory := w.allocatedMemory - held
    heap := { w.heap with live := w.heap.live - held } }

def FreesAs (ver : Int) (m : WireM β) (b : β) (held : Nat) : Prop :=
  ∀ w : Wire, w.direction = .free → w.version = ver → held ≤ w.allocatedMemory →
    w.allocatedMemory ≤ MAX_MEM → m w = .ok (b, w.released held)

theorem Wire.released_zero (w : Wire) : w.released 0 = w := by
  simp [Wire.released]

theorem Wire.released_released (w : Wire) (m n : Nat) :
    (w.released m).released n = w.released (m + n) := by
  simp only [Wire.released, Nat.cast_add, sub_sub]

theorem FreesAs.pure (b : β) : FreesAs ver (Pure.pure b) b 0 := by
  intro w _ _ _ _
  rw [Wire.released_zero]
  rfl

theorem FreesAs.bind {m : WireM α} {f : α → WireM β} {a : α} {b : β} {c d : Nat}
    (hm : FreesAs ver m a c) (hf : FreesAs ver (f a) b d) :
    FreesAs ver (m >>= f) b (c + d) := by
  intro w hdir hver hheld hmax
  push_cast at hheld
  rw [bind_of_ok (hm w hdir hver (by omega) hmax), ← Wire.released_released]
  exact hf (w.released c) hdir hver (by simp only [Wire.released]; omega)
    (by simp only [Wire.released]; omega)

theorem FreesAs.cast {m : WireM β} {b b' : β} {c c' : Nat}
    (h : FreesAs ver m b c) (hb : b = b') (hc : c = c') : FreesAs ver m b' c' := by
  subst hb hc
  exact h

theorem FreesAs.map {m : WireM α} {a : α} {c : Nat} (h : FreesAs ver m a c) (g : α → β) :
    FreesAs ver (do let a ← m; return g a) (g a) c :=
  (h.bind (.pure (g a))).cast rfl (Nat.add_zero c)

theorem FreesAs.direction {f : WireDirection → WireM β} {b : β} {c : Nat}
    (h : FreesAs ver (f .free) b c) : FreesAs ver (wireDirection >>= f) b c := by
  intro w hdir
  rw [bind_of_ok (wireDirection_run w), hdir]
  exact h w hdir

theorem FreesAs.version {f : Int → WireM β} {b : β} {c : Nat}
    (h : FreesAs ver (f ver) b c) : FreesAs ver (wireVersion >>= f) b c := by
  intro w hdir hver
  rw [bind_of_ok (wireVersion_run w), hver]
  exact h w hdir hver

end SaneBackends

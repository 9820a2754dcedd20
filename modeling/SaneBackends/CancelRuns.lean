import SaneBackends.CanonCancel
import SaneBackends.FujitsuCancel

/-!
# Runs with cancels

Whether a cancel can be lost in a run of the `fujitsu` and `canon_dr` backends.
-/

namespace SaneBackends.CancelRuns

open CancelFlags DuplexSides LabelledRun

/-- The state after `sane_open`. -/
def opened {δ : Type} (data : δ) : Scan δ :=
  { started := false, cancelled := false, reading := false, data, cancels := never,
    commands := [], sent := 0, hit := false, closing := false }

/-- Every step of every run of a backend loses no cancel, whatever the scanner does. -/
def NeverLost {δ σ ρ : Type} (b : Backend δ σ ρ) : Prop :=
  ∀ (data : δ) (ops : List (Op σ ρ × SaneStatus)) (s s' : Scan δ) (op : Op σ ρ)
    (ret : SaneStatus), Run (fun s l s' => b.step s l.1 = (l.2, s')) (opened data) ops s →
      b.step s op = (ret, s') → Obeyed s op ret s'

/-- The same for the runs every step of which meets `Fine`. -/
def NeverLostWhen {δ σ ρ : Type} (b : Backend δ σ ρ) (Fine : Scan δ → Op σ ρ → Prop) : Prop :=
  ∀ (data : δ) (ops : List (Op σ ρ × SaneStatus)) (s s' : Scan δ) (op : Op σ ρ)
    (ret : SaneStatus),
      Run (fun s l s' => b.step s l.1 = (l.2, s') ∧ Fine s l.1) (opened data) ops s →
      b.step s op = (ret, s') → Fine s op → Obeyed s op ret s'

/-- In every run of the two backends whose calls are kept from the unprotected exits, no
    call loses a cancel. -/
theorem cancel_never_lost (c : FujitsuCancel.Config) (d : CanonCancel.Config) :
    NeverLostWhen (FujitsuCancel.backend c) (FujitsuCancel.Fine c) ∧
      NeverLostWhen (CanonCancel.backend d) CanonCancel.Fine := by
  constructor
  · intro data ops s s' op ret hrun hlast hfine
    exact run_obeyed FujitsuCancel.step_obeyed rfl hrun hlast hfine
  · intro data ops s s' op ret hrun hlast hfine
    exact run_obeyed CanonCancel.step_obeyed rfl hrun hlast hfine

/-! ### Early returns that leave `reading` set -/

def plain : FujitsuCancel.Config :=
  { source := .flatbed, lowMem := false, mustFullyBuffer := false, hardwareSteps := true,
    duplexInterlace := .none, jpeg := false, jpegAlt := false, hasCmdScannerCtl := true,
    bufferSize := 4096 }

def blank : FujitsuCancel.Data :=
  { side := .front, eofRx := ⟨false, false⟩, eofTx := ⟨false, false⟩, bytesRx := ⟨0, 0⟩,
    bytesTx := ⟨0, 0⟩ }

def plainCanon : CanonCancel.Config :=
  { source := .flatbed, jpeg := false, interlaced := false, buffermode := false,
    alwaysOp := false, buffered := false }

def blankCanon : CanonCancel.Data :=
  { side := .front, userEof := ⟨false, false⟩, scannerEof := ⟨false, false⟩,
    bytesSent := ⟨0, 0⟩, bytesTot := ⟨64, 0⟩, prevPage := 0, panelCounter := 0 }

/-- The device reports a status when the first block is read. -/
def firstBlock (status : SaneStatus) : FujitsuCancel.ReadInput :=
  { front := ⟨status, 16, false⟩, back := ⟨.good, 0, false⟩, copied := 16 }

/-- A cancel that arrives while a block is read, when `reading` is set, is acted on by the
    last look at the flag. -/
theorem cancel_during_read :
    let b := FujitsuCancel.backend plain
    let s := (b.step (opened blank) (.start {} never [])).2
    let op := .read (firstBlock .good) (Function.update never .watched [true]) []
    (b.step s op).2.hit = true ∧ (b.step s op).2.reading = false ∧
      (b.step s op).2.started = false ∧ (b.step s op).1 ≠ .good ∧ (b.step s op).1 ≠ .eof := by
  intro b s op
  have hgood : FujitsuCancel.StartInput.Good {} := by constructor <;> rfl
  have hfirst : FujitsuCancel.Fine plain (opened blank) (.start {} never []) :=
    ⟨by simp [Watched, never], hgood, by decide⟩
  have hstart : b.step (opened blank) (.start {} never []) = (.good, s) :=
    Prod.ext (by decide) rfl
  have hfine : FujitsuCancel.Fine plain s op :=
    ⟨by simp [Watched, never], ⟨rfl, rfl⟩, by simp⟩
  have hhit : (b.step s op).2.hit = true := by decide
  obtain ⟨hreading, hacted⟩ := (cancel_never_lost plain plainCanon).1 blank
    [(.start {} never [], .good)] s _ op _ (.snoc .nil ⟨hstart, hfirst⟩) (Prod.eta _).symm hfine
  exact ⟨hhit, hreading, hacted hhit⟩

/-- The calls of a frontend, one after the other. -/
def calls {δ σ ρ : Type} (b : Backend δ σ ρ) (ops : List (Op σ ρ)) (s : Scan δ) : Scan δ :=
  ops.foldl (fun s op => (b.step s op).2) s

theorem calls_run {δ σ ρ : Type} (b : Backend δ σ ρ) (ops : List (Op σ ρ)) (s : Scan δ) :
    ∃ ls : List (Op σ ρ × SaneStatus),
      Run (fun s l s' => b.step s l.1 = (l.2, s')) s ls (calls b ops s) := by
  induction ops using List.reverseRecOn with
  | nil => exact ⟨[], .nil⟩
  | append_singleton ops op ih =>
    obtain ⟨ls, hrun⟩ := ih
    rw [calls, List.foldl_append]
    exact ⟨ls ++ [(op, (b.step (calls b ops s) op).1)], hrun.snoc rfl⟩

/-- A cancel between calls is lost after a read that fails in the one backend, and after a
    `sane_start` that comes too early in the other. -/
theorem early_return_loses_cancel :
    ¬ NeverLost (FujitsuCancel.backend plain) ∧ ¬ NeverLost (CanonCancel.backend plainCanon) := by
  constructor
  · intro h
    obtain ⟨ls, hrun⟩ := calls_run (FujitsuCancel.backend plain)
      [.start {} never [], .read (firstBlock .jammed) never []] (opened blank)
    obtain ⟨-, -, hstopped⟩ := h _ ls _ _ (.cancel []) _ hrun rfl
    exact absurd hstopped (by decide)
  · intro h
    obtain ⟨ls, hrun⟩ := calls_run (CanonCancel.backend plainCanon)
      [.start {} never [], .start {} never []] (opened blankCanon)
    obtain ⟨-, -, hstopped⟩ := h _ ls _ _ (.cancel []) _ hrun rfl
    exact absurd hstopped (by decide)

end SaneBackends.CancelRuns

import SaneBackends.EarlyExit
import SaneBackends.LabelledRun
import SaneBackends.SaneTypes

/-!
# Calls that can be cancelled

The protocol by which the `fujitsu` and `canon_dr` backends find out that a scan is
cancelled.  `sane_cancel` may come at any point of a running call: it sets `cancelled`,
and unless `reading` says that another function will look at the flag, it cancels the scan
by itself.  The points of a call at which a cancel arrives are a script of the
environment.
-/

namespace SaneBackends.CancelFlags

open EarlyExit LabelledRun

variable {δ : Type}

/-- Where in a call a cancel may arrive: at the entry of `sane_read`, before it asks whether
    a scan is started; while `reading` is set and a look at the flag is still to come; while
    nobody is going to look at the flag; and behind the label `errors:`. -/
inductive Place | entry | watched | unwatched | errors
  deriving DecidableEq

/-- The three flags and the other `data` of a scanner.  `cancels` says for each place, and
    each time the code comes to it, whether a cancel arrives there, `commands` what the
    scanner answers to cancel commands, and `sent` counts these.  The last two fields are
    read by no code: a cancel has come during the call, and the last look at the flag is
    over. -/
structure Scan (δ : Type) where
  started : Bool
  cancelled : Bool
  reading : Bool
  data : δ
  cancels : Place → List Bool
  commands : List SaneStatus
  sent : Nat
  hit : Bool
  closing : Bool

/-- A function of the backend; the exit value is what it returns early. -/
abbrev Call (δ α : Type) := Prog (Scan δ) SaneStatus α

/-- `check_for_cancel` of a backend. -/
abbrev Check (δ : Type) := Scan δ → SaneStatus × Scan δ

/-- A cancel command is sent. -/
def Scan.sendCancel (s : Scan δ) : SaneStatus × Scan δ :=
  (s.commands.headD .good, { s with commands := s.commands.tail, sent := s.sent + 1 })

def saneCancel (check : Check δ) (s : Scan δ) : Scan δ :=
  let s := { s with cancelled := true }
  if !s.reading then (check s).2 else s

/-- What a cancel does that arrives during a call. -/
def Scan.arrive (check : Check δ) (s : Scan δ) : Scan δ :=
  { saneCancel check s with hit := true }

/-- The code comes to a place at which a cancel may arrive. -/
def Scan.pass (check : Check δ) (p : Place) (s : Scan δ) : Scan δ :=
  match s.cancels p with
  | [] => s
  | cancel :: later =>
    let s := { s with cancels := Function.update s.cancels p later }
    if cancel then s.arrive check else s

/-- The place of a point between two statements. -/
def Scan.place (s : Scan δ) : Place :=
  if s.reading && !s.closing then .watched else .unwatched

/-- A point between two statements. -/
def Scan.point (check : Check δ) (s : Scan δ) : Scan δ := s.pass check s.place

def point (check : Check δ) : Call δ Unit := modify (Scan.point check)

/-- An assignment. -/
def assign (check : Check δ) (f : Scan δ → Scan δ) : Call δ Unit := do
  point check
  modify f

/-- `ret = …; if (ret != SANE_STATUS_GOOD) return ret;` -/
def command (check : Check δ) (ret : SaneStatus) : Call δ Unit := do
  point check
  if ret ≠ .good then throw ret else pure ()

/-- A command whose failure is ignored. -/
def ignored (check : Check δ) (_ret : SaneStatus) : Call δ Unit := point check

/-- `if (c) { … }` -/
def runIf (c : Prop) [Decidable c] (m : Call δ Unit) : Call δ Unit :=
  if c then m else pure ()

/-- The status a function returns, early or at its end, and the state it leaves. -/
def Call.run (m : Call δ SaneStatus) (s : Scan δ) : SaneStatus × Scan δ :=
  match m.exec s with
  | (.ok ret, s') => (ret, s')
  | (.error ret, s') => (ret, s')

/-- The head of `sane_start`: prior cancels are undone, the block is protected, and an
    unfinished side is an error. -/
def protectStart (check : Check δ) (unfinished : δ → Bool) : Call δ Unit := do
  assign check fun s => { s with cancelled := false }
  assign check fun s => { s with reading := true }
  point check
  let s ← get
  if s.started && unfinished s.data then throw .inval else pure ()

/-- The head of `sane_read`. -/
def requireStarted (check : Check δ) : Call δ Unit := do
  modify (Scan.pass check .entry)
  let s ← get
  if !s.started then throw .cancelled else pure ()

/-- A function called by another one. -/
def Call.status (m : Call δ SaneStatus) : Call δ SaneStatus :=
  fun s => (.ok (m.run s).1, (m.run s).2)

inductive Flag | started | cancelled | reading
  deriving DecidableEq

def Scan.clear (s : Scan δ) : Flag → Scan δ
  | .started => { s with started := false }
  | .cancelled => { s with cancelled := false }
  | .reading => { s with reading := false }

/-- The flags are cleared one after the other. -/
def clearFlags (check : Check δ) : List Flag → Call δ Unit
  | [] => modify (Scan.pass check .errors)
  | flag :: flags => do
    modify (Scan.pass check .errors)
    modify (Scan.clear · flag)
    clearFlags check flags

/-- `errors:` clears the flags in the order of the function and returns `ret`. -/
def errors {α : Type} (check : Check δ) (flags : List Flag) (ret : SaneStatus) : Call δ α := do
  clearFlags check flags
  throw ret

/-- A function in which every early return is a `goto errors`. -/
def Call.orErrors (check : Check δ) (flags : List Flag) (m : Call δ SaneStatus) :
    Call δ SaneStatus :=
  fun s => match m.exec s with
    | (.ok ret, s') => (.ok ret, s')
    | (.error ret, s') => (errors check flags ret : Call δ SaneStatus).exec s'

/-- The loop in `sane_start` that reads a whole image before the frontend may ask for it:
    `while(!eof && !ret) ret = sane_read(s, NULL, 0, &len)`.  When the scanner has no
    more answers the read fails. -/
def bufferImage {ρ : Type} (eof : δ → Bool) (saneRead : ρ → Call δ SaneStatus) :
    List ρ → Call δ SaneStatus
  | [] => do
    let s ← get
    pure (if eof s.data then .good else .ioError)
  | inp :: inps => do
    let s ← get
    if eof s.data then pure .good
    else do
      let ret ← (saneRead inp).status
      if ret ≠ .good then pure ret else bufferImage eof saneRead inps

/-- The last look at the flag.  A call inside another one leaves that to it. -/
def lastCheck (check : Check δ) (nested : Bool) : Call δ SaneStatus := do
  let s ← get
  set { (check s).2 with closing := s.closing || !nested }
  return (check s).1

/-- The end of `sane_start` and `sane_read`: the look at the flag, what `swap` does to the
    data, and the flag that protects the block is cleared. -/
def finish (check : Check δ) (nested : Bool) (swap : δ → δ) : Call δ SaneStatus := do
  point check
  let ret ← lastCheck check nested
  assign check fun s => { s with data := swap s.data }
  assign check fun s => { s with reading := false }
  point check
  return ret

/-! ### A backend and the calls of its frontend -/

/-- The functions of a backend; `σ` and `ρ` are what the scanner does during `sane_start`
    and `sane_read`. -/
structure Backend (δ σ ρ : Type) where
  checkForCancel : Check δ
  saneStart : σ → Call δ SaneStatus
  saneRead : ρ → Call δ SaneStatus

/-- A call of the frontend, with the cancels that arrive in it and the answers of the scanner
    to cancel commands. -/
inductive Op (σ ρ : Type)
  | start (inp : σ) (cancels : Place → List Bool) (commands : List SaneStatus)
  | read (inp : ρ) (cancels : Place → List Bool) (commands : List SaneStatus)
  | cancel (commands : List SaneStatus)

/-- No cancel. -/
def never : Place → List Bool := fun _ => []

/-- Nothing has come yet when a call begins. -/
def Scan.enter (cancels : Place → List Bool) (commands : List SaneStatus) (s : Scan δ) : Scan δ :=
  { s with cancels, commands, hit := false, closing := false }

/-- A call, its status and the state it leaves; `sane_cancel` has no status. -/
def Backend.step {σ ρ : Type} (b : Backend δ σ ρ) (s : Scan δ) : Op σ ρ → SaneStatus × Scan δ
  | .start inp cancels commands => (b.saneStart inp).run (s.enter cancels commands)
  | .read inp cancels commands => (b.saneRead inp).run (s.enter cancels commands)
  | .cancel commands => (.good, saneCancel b.checkForCancel (s.enter never commands))

/-- No cancel is lost by a call: `reading` is clear after it; a cancel between calls is
    sent to a scanner that has been started, and clears `started`; after a cancel during
    the call nothing is started and the status is CANCELLED or an error, which EOF is not
    where it says that an image is at its end. -/
def Obeyed {σ ρ : Type} (s : Scan δ) (op : Op σ ρ) (ret : SaneStatus) (s' : Scan δ) : Prop :=
  s'.reading = false ∧
    match op with
    | .start _ _ _ => s'.hit = true → s'.started = false ∧ ret ≠ .good
    | .read _ _ _ => s'.hit = true → s'.started = false ∧ ret ≠ .good ∧ ret ≠ .eof
    | .cancel _ => (s.started = true → s'.sent = s.sent + 1) ∧ s'.started = false

/-! ### A correct look at the flags -/

/-- What a call has to return after a cancel if the cancel commands are answered as
    `answers` says. -/
structure Report where
  answers : SaneStatus → Prop
  tells : SaneStatus → Prop
  cancelled : tells .cancelled
  bad : ∀ ret, tells ret → ret ≠ .good

/-- What `sane_start` has to return after a cancel. -/
def startReport : Report where
  answers _ := True
  tells ret := ret ≠ .good
  cancelled := by decide
  bad _ h := h

/-- What `sane_read` has to return after a cancel whose commands are answered in this way. -/
def readReport (answers : SaneStatus → Prop) : Report where
  answers := answers
  tells ret := ret ≠ .good ∧ ret ≠ .eof
  cancelled := by decide
  bad _ h := h.1

/-- It clears `cancelled`; after a cancel nothing is started and the status says so;
    without one nothing changes. -/
structure Check.Sound (check : Check δ) (w : Report) : Prop where
  idle : ∀ s, s.cancelled = false → check s = (.good, s)
  stops : ∀ s, s.cancelled = true → (∀ ret ∈ s.commands, w.answers ret) → w.tells (check s).1
  stopped : ∀ s, s.cancelled = true → (check s).2.started = false
  frame : ∀ s, (check s).2.reading = s.reading ∧ (check s).2.data = s.data ∧
    (check s).2.hit = s.hit ∧ (check s).2.closing = s.closing ∧ (check s).2.cancels = s.cancels
  commands : ∀ s, ∀ ret ∈ (check s).2.commands, ret ∈ s.commands

variable {check : Check δ} {w : Report}

theorem saneCancel_reading {s : Scan δ} (h : s.reading = true) :
    saneCancel check s = { s with cancelled := true } := by
  simp [saneCancel, h]

theorem saneCancel_idle {s : Scan δ} (h : s.reading = false) :
    saneCancel check s = (check { s with cancelled := true }).2 := by
  simp [saneCancel, h]

/-- What a cancel leaves when it arrives during a call. -/
structure Arrived (check : Check δ) (s : Scan δ) : Prop where
  reading : (s.arrive check).reading = s.reading
  closing : (s.arrive check).closing = s.closing
  data : (s.arrive check).data = s.data
  cancels : (s.arrive check).cancels = s.cancels
  commands : ∀ ret ∈ (s.arrive check).commands, ret ∈ s.commands
  waits : s.reading = true → (s.arrive check).cancelled = true ∧
    (s.arrive check).started = s.started
  stops : s.reading = false → (s.arrive check).started = false

theorem Check.Sound.arrived (hcheck : check.Sound w) (s : Scan δ) : Arrived check s := by
  obtain ⟨hreading, hdata, -, hclosing, hcancels⟩ := hcheck.frame { s with cancelled := true }
  have hcommands := hcheck.commands { s with cancelled := true }
  have hstopped := hcheck.stopped { s with cancelled := true } rfl
  rcases Bool.eq_false_or_eq_true s.reading with hr | hr
  · have hcancel : saneCancel check s = { s with cancelled := true } := saneCancel_reading hr
    constructor <;> simp [Scan.arrive, hcancel, hr]
  · have hcancel : saneCancel check s = (check { s with cancelled := true }).2 :=
      saneCancel_idle hr
    constructor
    · exact (congrArg Scan.reading hcancel).trans hreading
    · exact (congrArg Scan.closing hcancel).trans hclosing
    · exact (congrArg Scan.data hcancel).trans hdata
    · exact (congrArg Scan.cancels hcancel).trans hcancels
    · intro ret hret
      rw [Scan.arrive, hcancel] at hret
      exact hcommands ret hret
    · intro hreading
      rw [hr] at hreading
      cases hreading
    · intro _
      exact (congrArg Scan.started hcancel).trans hstopped

/-! ### What holds at the points of a call -/

/-- No cancel is to come where nobody looks at the flag, and the answers to the cancel
    commands are those the report is about. -/
def Orderly (w : Report) (s : Scan δ) : Prop :=
  (∀ cancel ∈ s.cancels .unwatched, cancel = false) ∧ ∀ ret ∈ s.commands, w.answers ret

/-- A cancel that has come is still to be looked at, and there is a look to come. -/
def Inside (w : Report) (s : Scan δ) : Prop :=
  Orderly w s ∧ s.closing = false ∧ (s.hit = false ∨ s.cancelled = true)

/-- No cancel has come, and nobody looks for one. -/
def Quiet (w : Report) (s : Scan δ) : Prop :=
  Orderly w s ∧ s.reading = false ∧ s.closing = false ∧ s.hit = false

/-- Only cancels have changed the state since `s₀`. -/
def Untouched (s₀ s : Scan δ) : Prop :=
  s.data = s₀.data ∧ (s.started = true → s₀.started = true)

/-- A cancel that has come during the call has been acted on when it returns `ret`. -/
def Acted (w : Report) (ret : SaneStatus) (s : Scan δ) : Prop :=
  s.hit = false ∨ s.started = false ∧ w.tells ret

/-- The last look at the flag is over. -/
def Closed (w : Report) (ret : SaneStatus) (s : Scan δ) : Prop :=
  Orderly w s ∧ s.closing = true ∧ Acted w ret s

/-- Nothing is started and nobody reads. -/
def Stopped (s : Scan δ) : Prop := s.started = false ∧ s.reading = false

/-- What a function leaves when it returns `ret`: one that was called by another function
    leaves a pending cancel to it. -/
def Returned (w : Report) (nested : Bool) (ret : SaneStatus) (s : Scan δ) : Prop :=
  if nested then ret = .good → Inside w s else s.reading = false ∧ Acted w ret s

/-- What the code comes to at a place: nothing, or a cancel of the script. -/
theorem pass_cases (check : Check δ) (p : Place) (s : Scan δ) :
    ∃ later, (∀ q, ∀ cancel ∈ later q, cancel ∈ s.cancels q) ∧
      (s.pass check p = { s with cancels := later } ∨
        true ∈ s.cancels p ∧ s.pass check p = { s with cancels := later }.arrive check) := by
  rw [Scan.pass]
  split
  · exact ⟨s.cancels, fun _ _ h => h, .inl rfl⟩
  · rename_i cancel later hscript
    refine ⟨Function.update s.cancels p later, fun q c hc => ?_, ?_⟩
    · rcases eq_or_ne q p with rfl | hq
      · rw [Function.update_self] at hc
        rw [hscript]
        exact List.mem_cons_of_mem _ hc
      · rwa [Function.update_of_ne hq] at hc
    · cases cancel with
      | true => exact .inr ⟨by rw [hscript]; exact List.mem_cons_self, rfl⟩
      | false => exact .inl rfl

variable {P Q : Scan δ → Prop} {R : SaneStatus → Scan δ → Prop}

/-- What holds at every place of the code holds after it. -/
def KeptAt (check : Check δ) (p : Place) (P : Scan δ → Prop) : Prop :=
  ∀ s, P s → P (s.pass check p)

/-- The points of the code keep `P`. -/
def Kept (check : Check δ) (P : Scan δ → Prop) : Prop := ∀ s, P s → P (s.point check)

variable {α : Type} {S : α → Scan δ → Prop} {rest : Call δ α}

theorem Kept.ensures (h : Kept check P) :
    Ensures P (CancelFlags.point check) (fun _ => P) R :=
  .update h

theorem Kept.ensures_assign {f : Scan δ → Scan δ} (h : Kept check P)
    (hf : ∀ s, P s → Q (f s)) :
    Ensures P (CancelFlags.assign check f) (fun _ => Q) R :=
  h.ensures.bind fun _ => .update hf

/-- A command whose failure is returned at once. -/
theorem Kept.ensures_command {ret : SaneStatus} (h : Kept check P)
    (hR : ret ≠ .good → ∀ s, P s → R ret s) :
    Ensures P (CancelFlags.command check ret) (fun _ => P) R := by
  refine h.ensures.bind fun _ => .ite (fun hbad => ?_) fun _ => ?_
  · exact .throw (hR hbad)
  · exact .pure fun _ hs => hs

theorem Kept.point (h : Kept check P) (hrest : Ensures P rest S R) :
    Ensures P (CancelFlags.point check >>= fun _ => rest) S R :=
  h.ensures.bind fun _ => hrest

theorem Kept.assign {f : Scan δ → Scan δ} (h : Kept check P) (hf : ∀ s, P s → Q (f s))
    (hrest : Ensures Q rest S R) :
    Ensures P (CancelFlags.assign check f >>= fun _ => rest) S R :=
  (h.ensures_assign hf).bind fun _ => hrest

theorem Kept.command {ret : SaneStatus} (h : Kept check P)
    (hR : ret ≠ .good → ∀ s, P s → R ret s) (hrest : Ensures P rest S R) :
    Ensures P (CancelFlags.command check ret >>= fun _ => rest) S R :=
  (h.ensures_command hR).bind fun _ => hrest

theorem Kept.and (hP : Kept check P) (hQ : Kept check Q) : Kept check fun s => P s ∧ Q s :=
  fun s hs => ⟨hP s hs.1, hQ s hs.2⟩

theorem Kept.imp {p : Prop} (hP : Kept check P) : Kept check fun s => p → P s :=
  fun s hs hp => hP s (hs hp)

/-- It is enough to look at the places at which a cancel arrives. -/
theorem KeptAt.of_arrive {p : Place} (hscript : ∀ s later, P s → P { s with cancels := later })
    (harrive : ∀ s, P s → P (s.arrive check)) : KeptAt check p P := by
  intro s hs
  obtain ⟨later, -, hpass | ⟨-, hpass⟩⟩ := pass_cases check p s
  · rw [hpass]
    exact hscript s later hs
  · rw [hpass]
    exact harrive _ (hscript s later hs)

theorem Kept.of_places (h : ∀ p, KeptAt check p P) : Kept check P := fun s => h s.place s

theorem Orderly.script {s : Scan δ} {later : Place → List Bool} (hs : Orderly w s)
    (hlater : ∀ q, ∀ cancel ∈ later q, cancel ∈ s.cancels q) :
    Orderly w { s with cancels := later } :=
  ⟨fun cancel hc => hs.1 cancel (hlater _ _ hc), hs.2⟩

theorem Orderly.arrive {s : Scan δ} (hcheck : check.Sound w) (hs : Orderly w s) :
    Orderly w (s.arrive check) := by
  have h := hcheck.arrived s
  refine ⟨fun cancel hc => ?_, fun ret hret => hs.2 ret (h.commands ret hret)⟩
  rw [h.cancels] at hc
  exact hs.1 cancel hc

/-- At a point of an orderly call a cancel arrives only while `reading` is set and a look at
    the flag is to come. -/
theorem Orderly.point_cases {s : Scan δ} (hcheck : check.Sound w) (hs : Orderly w s) :
    ∃ later, Orderly w { s with cancels := later } ∧
      (s.point check = { s with cancels := later } ∨
        s.reading = true ∧ s.closing = false ∧ Orderly w (s.point check) ∧
          s.point check = { s with cancels := later }.arrive check) := by
  obtain ⟨later, hlater, hpass⟩ := pass_cases check s.place s
  have hscript := hs.script hlater
  refine ⟨later, hscript, hpass.imp_right fun ⟨hcancel, hpass⟩ => ?_⟩
  have hplace : s.place ≠ .unwatched := by
    intro hplace
    rw [hplace] at hcancel
    exact absurd (hs.1 true hcancel) (by decide)
  have hwatched : (s.reading && !s.closing) = true := by
    by_contra hnot
    exact hplace (by rw [Scan.place, if_neg hnot])
  rw [Bool.and_eq_true, Bool.not_eq_true'] at hwatched
  refine ⟨hwatched.1, hwatched.2, ?_, hpass⟩
  rw [Scan.point, hpass]
  exact hscript.arrive hcheck

theorem Inside.kept (hcheck : check.Sound w) : Kept check (Inside (δ := δ) w) := by
  intro s hs
  obtain ⟨later, hscript, hpoint | ⟨hreading, hclosing, horderly, hpoint⟩⟩ :=
    hs.1.point_cases hcheck
  · rw [hpoint]
    exact ⟨hscript, hs.2⟩
  · have h := hcheck.arrived { s with cancels := later }
    refine ⟨horderly, ?_, .inr ?_⟩
    · rw [hpoint]
      exact h.closing.trans hclosing
    · rw [hpoint]
      exact (h.waits hreading).1

theorem Quiet.kept (hcheck : check.Sound w) : Kept check (Quiet (δ := δ) w) := by
  intro s hs
  obtain ⟨later, hscript, hpoint | ⟨hreading, -⟩⟩ := hs.1.point_cases hcheck
  · rw [hpoint]
    exact ⟨hscript, hs.2⟩
  · rw [hs.2.1] at hreading
    cases hreading

theorem Closed.kept (hcheck : check.Sound w) (ret : SaneStatus) :
    Kept check (Closed (δ := δ) w ret) := by
  intro s hs
  obtain ⟨later, hscript, hpoint | ⟨-, hclosing, -⟩⟩ := hs.1.point_cases hcheck
  · rw [hpoint]
    exact ⟨hscript, hs.2⟩
  · rw [hs.2.1] at hclosing
    cases hclosing

theorem Untouched.kept (hcheck : check.Sound w) (s₀ : Scan δ) : Kept check (Untouched s₀) := by
  refine .of_places fun p => .of_arrive (fun _ _ hs => hs) fun s hs => ?_
  have h := hcheck.arrived s
  refine ⟨h.data.trans hs.1, fun hstarted => hs.2 ?_⟩
  rcases Bool.eq_false_or_eq_true s.reading with hr | hr
  · rwa [(h.waits hr).2] at hstarted
  · rw [h.stops hr] at hstarted
    cases hstarted

/-- Nothing is started any more. -/
theorem Halted.kept (hcheck : check.Sound w) (p : Place) :
    KeptAt check p fun s : Scan δ => s.started = false := by
  refine .of_arrive (fun _ _ hs => hs) fun s hs => ?_
  have h := hcheck.arrived s
  rcases Bool.eq_false_or_eq_true s.reading with hr | hr
  · exact (h.waits hr).2.trans hs
  · exact h.stops hr

theorem Idle.kept (hcheck : check.Sound w) (p : Place) :
    KeptAt check p fun s : Scan δ => s.reading = false :=
  .of_arrive (fun _ _ hs => hs) fun s hs => (hcheck.arrived s).reading.trans hs

/-! ### The rules for the ends of a call -/

/-- A flag that is cleared stays so. -/
theorem clearFlags_ensures (hcheck : check.Sound w) {a b : Prop} (flags : List Flag) :
    Ensures (fun s => (a → s.started = false) ∧ (b → s.reading = false)) (clearFlags check flags)
      (fun _ s => (a ∨ .started ∈ flags → s.started = false) ∧
        (b ∨ .reading ∈ flags → s.reading = false)) R := by
  have hpass : ∀ {a b : Prop} (s : Scan δ), ((a → s.started = false) ∧ (b → s.reading = false)) →
      (a → (s.pass check .errors).started = false) ∧
        (b → (s.pass check .errors).reading = false) := by
    intro a b s hs
    exact ⟨fun ha => Halted.kept hcheck _ s (hs.1 ha), fun hb => Idle.kept hcheck _ s (hs.2 hb)⟩
  induction flags generalizing a b with
  | nil =>
    refine .update fun s hs => ?_
    simpa using hpass s hs
  | cons flag flags ih =>
    refine Ensures.bind (Q := fun _ s => (a → s.started = false) ∧ (b → s.reading = false))
      (.update hpass) fun _ => ?_
    refine Ensures.bind (Q := fun _ s => (a ∨ flag = .started → s.started = false) ∧
      (b ∨ flag = .reading → s.reading = false)) (.update fun s hs => ?_) fun _ => ?_
    · have hkept : ∀ {c : Prop} {g : Flag} {t : Prop}, ¬ flag = g → (c → t) → c ∨ flag = g → t :=
        fun hne hc h => hc (h.resolve_right hne)
      cases flag with
      | started => exact ⟨fun _ => rfl, hkept (by decide) hs.2⟩
      | cancelled => exact ⟨hkept (by decide) hs.1, hkept (by decide) hs.2⟩
      | reading => exact ⟨hkept (by decide) hs.1, fun _ => rfl⟩
    · refine ih.conseq (fun _ hs => hs) (fun _ s hs => ?_) fun _ _ hs => hs
      refine ⟨fun h => hs.1 ?_, fun h => hs.2 ?_⟩
      · rw [List.mem_cons, eq_comm] at h
        exact or_assoc.mpr h
      · rw [List.mem_cons, eq_comm] at h
        exact or_assoc.mpr h

/-- At `errors:` it does not matter what has happened before. -/
theorem errors_ensures (hcheck : check.Sound w) {ret : SaneStatus} {flags : List Flag}
    (hstarted : .started ∈ flags) (hreading : .reading ∈ flags) :
    Ensures (fun _ => True) (errors check flags ret : Call δ α) S
      (fun e s => e = ret ∧ Stopped s) := by
  refine Ensures.bind (Q := fun _ => Stopped) ?_ fun _ => .throw fun _ hs => ⟨rfl, hs⟩
  refine (clearFlags_ensures (a := False) (b := False) hcheck flags).conseq ?_ ?_ fun _ _ hs => hs
  · exact fun _ _ => ⟨False.elim, False.elim⟩
  · exact fun _ _ hs => ⟨hs.1 (.inr hstarted), hs.2 (.inr hreading)⟩

theorem Stopped.returned {nested : Bool} {ret : SaneStatus} {s : Scan δ} (hs : Stopped s)
    (hret : w.tells ret) : Returned w nested ret s := by
  rw [Returned]
  split
  · exact fun hgood => absurd hgood (w.bad ret hret)
  · exact ⟨hs.2, .inr ⟨hs.1, hret⟩⟩

/-- The last look at the flag acts on a cancel that has come. -/
theorem lastCheck_ensures (hcheck : check.Sound w) :
    Ensures (Inside w) (lastCheck check false) (fun ret => Closed (δ := δ) w ret) R := by
  intro s hs
  obtain ⟨-, -, hhit, -, hcancels⟩ := hcheck.frame s
  refine ⟨⟨fun cancel hc => ?_, fun ret hret => ?_⟩, by simp, ?_⟩
  · have hc : cancel ∈ (check s).2.cancels .unwatched := hc
    rw [hcancels] at hc
    exact hs.1.1 cancel hc
  · exact hs.1.2 ret (hcheck.commands s ret hret)
  · rcases Bool.eq_false_or_eq_true s.cancelled with hc | hc
    · exact .inr ⟨hcheck.stopped s hc, hcheck.stops s hc hs.1.2⟩
    · rcases hs.2.2 with h | h
      · exact .inl (hhit.trans h)
      · rw [hc] at h
        cases h

/-- A look inside another function acts on a cancel or finds none. -/
theorem lastCheck_nested (hcheck : check.Sound w) :
    Ensures (Inside w) (lastCheck check true)
      (fun ret s => ret = .good → Inside (δ := δ) w s) R := by
  intro s hs hgood
  rcases Bool.eq_false_or_eq_true s.cancelled with hc | hc
  · exact absurd hgood (w.bad _ (hcheck.stops s hc hs.1.2))
  · have hsame := congrArg Prod.snd (hcheck.idle s hc)
    rw [Inside, Orderly]
    simp only [hsame]
    exact ⟨hs.1, by simpa using hs.2.1, hs.2.2⟩

/-- The end of a function that a cancel has been kept away from. -/
theorem finish_ensures (hcheck : check.Sound w) {nested : Bool} {swap : δ → δ} :
    Ensures (Inside w) (finish check nested swap) (fun ret => Returned w nested ret) R := by
  refine (Inside.kept hcheck).point ?_
  cases nested with
  | true =>
    refine (lastCheck_nested hcheck).bind fun ret => ?_
    have hkept : Kept check fun s : Scan δ => ret = .good → Inside w s :=
      (Inside.kept hcheck).imp
    refine hkept.assign (Q := fun s => ret = .good → Inside w s) (fun _ hs => hs) ?_
    refine hkept.assign (Q := fun s => ret = .good → Inside w s) (fun _ hs => hs) ?_
    refine hkept.point ?_
    exact .pure fun _ hs => hs
  | false =>
    refine (lastCheck_ensures hcheck).bind fun ret => ?_
    have hkept := Closed.kept hcheck ret
    have hidle : Kept check fun s : Scan δ => s.reading = false := .of_places (Idle.kept hcheck)
    refine hkept.assign (Q := Closed w ret) (fun _ hs => hs) ?_
    refine hkept.assign (Q := fun s => s.reading = false ∧ Closed w ret s)
      (fun _ hs => ⟨rfl, hs⟩) ?_
    refine (hidle.and hkept).point ?_
    exact .pure fun _ hs => ⟨hs.1, hs.2.2.2⟩

/-! ### The rules for the parts of a call -/

theorem status_ensures {m : Call δ SaneStatus} {Q : SaneStatus → Scan δ → Prop}
    (hm : Ensures P m Q Q) : Ensures P m.status Q R := by
  intro s hs
  have h := hm s hs
  change Q (m.run s).1 (m.run s).2
  rw [Call.run]
  split at h <;> rename_i heq <;> rw [heq] <;> exact h

/-- Every early return ends at `errors:`. -/
theorem orErrors_ensures (hcheck : check.Sound w) {m : Call δ SaneStatus} {flags : List Flag}
    (hstarted : .started ∈ flags) (hreading : .reading ∈ flags)
    {Q : SaneStatus → Scan δ → Prop} (hm : Ensures P m Q fun ret _ => w.tells ret)
    (hR : ∀ ret s, w.tells ret → Stopped s → R ret s) : Ensures P (m.orErrors check flags) Q R := by
  intro s hs
  have h := hm s hs
  cases hrun : m.exec s with
  | mk r s' =>
    rw [hrun] at h
    cases r with
    | ok ret =>
      simp only [Prog.exec, Call.orErrors] at hrun ⊢
      rw [hrun]
      exact h
    | error ret =>
      simp only [Prog.exec, Call.orErrors] at hrun ⊢
      rw [hrun]
      have herr : Ensures (fun _ => True) (errors check flags ret : Call δ SaneStatus) Q R := by
        refine (errors_ensures hcheck hstarted hreading).conseq (fun _ hs => hs)
          (fun _ _ hs => hs) ?_
        rintro _ t ⟨rfl, ht⟩
        exact hR _ t h ht
      exact herr s' trivial

theorem runIf_ensures {c : Prop} [Decidable c] {m : Call δ Unit}
    (hm : Ensures P m (fun _ => P) R) : Ensures P (runIf c m) (fun _ => P) R :=
  .ite (fun _ => hm) fun _ => .pure fun _ hs => hs

theorem protectStart_ensures (hcheck : check.Sound w) {unfinished : δ → Bool} {s₀ : Scan δ}
    (h₀ : ¬ (s₀.started = true ∧ unfinished s₀.data = true)) :
    Ensures (fun s => Quiet w s ∧ Untouched s₀ s) (protectStart check unfinished)
      (fun _ => Inside w) R := by
  have houtside := (Quiet.kept hcheck).and (Untouched.kept hcheck s₀)
  have hinside := (Inside.kept hcheck).and (Untouched.kept hcheck s₀)
  refine houtside.assign (Q := fun s => Quiet w s ∧ Untouched s₀ s) (fun _ hs => hs) ?_
  refine houtside.assign (Q := fun s => Inside w s ∧ Untouched s₀ s) ?_ ?_
  · intro s hs
    exact ⟨⟨hs.1.1, hs.1.2.2.1, .inl hs.1.2.2.2⟩, hs.2⟩
  refine hinside.point (.get_bind fun t ht => .ite (fun hbad => ?_) fun _ => ?_)
  · rw [Bool.and_eq_true, ht.2.1] at hbad
    exact absurd ⟨ht.2.2 hbad.1, hbad.2⟩ h₀
  · exact .pure fun s hs => hs.2.1

/-- What holds when `sane_read` is called, by the frontend or by `sane_start`. -/
def Before (w : Report) (nested : Bool) (s : Scan δ) : Prop :=
  if nested then Inside w s else Quiet w s

theorem Before.kept (hcheck : check.Sound w) (nested : Bool) :
    Kept check (Before (δ := δ) w nested) := by
  cases nested with
  | true => exact Inside.kept hcheck
  | false => exact Quiet.kept hcheck

theorem Before.inside {nested : Bool} {s : Scan δ} (h : Before w nested s) : Inside w s := by
  cases nested with
  | true => exact h
  | false => exact ⟨h.1, h.2.2.1, .inl h.2.2.2⟩

/-- A function that returns before it protects itself. -/
theorem Before.returned {nested : Bool} {ret : SaneStatus} {s : Scan δ} (h : Before w nested s) :
    Returned w nested ret s := by
  cases nested with
  | true => exact fun _ => h
  | false => exact ⟨h.2.1, .inl h.2.2.2⟩

/-- A cancel at the entry waits for a look at the flag or has stopped the scan. -/
theorem Before.entry (hcheck : check.Sound w) {nested : Bool} {s : Scan δ}
    (hs : Before w nested s) :
    Before w nested (s.pass check .entry) ∨ (s.pass check .entry).started = false ∧
      (nested = false → (s.pass check .entry).reading = false) := by
  have horderly := hs.inside.1
  obtain ⟨later, hlater, hpass | ⟨-, hpass⟩⟩ := pass_cases check .entry s
  · rw [hpass]
    refine .inl ?_
    cases nested with
    | true => exact ⟨horderly.script hlater, hs.2⟩
    | false => exact ⟨horderly.script hlater, hs.2⟩
  · rw [hpass]
    have h := hcheck.arrived { s with cancels := later }
    rcases Bool.eq_false_or_eq_true s.reading with hr | hr
    · cases nested with
      | true =>
        exact .inl ⟨(horderly.script hlater).arrive hcheck, h.closing.trans hs.2.1,
          .inr (h.waits hr).1⟩
      | false =>
        have hquiet : s.reading = false := hs.2.1
        rw [hr] at hquiet
        cases hquiet
    · exact .inr ⟨h.stops hr, fun _ => h.reading.trans hr⟩

theorem requireStarted_ensures (hcheck : check.Sound w) (nested : Bool) :
    Ensures (Before w nested) (requireStarted check) (fun _ => Before (δ := δ) w nested)
      (Returned w nested) := by
  refine Ensures.bind (Q := fun _ t => Before w nested t ∨
    t.started = false ∧ (nested = false → t.reading = false)) ?_ fun _ => ?_
  · exact .update fun s hs => hs.entry hcheck
  refine .get_bind fun t ht => .ite (fun hstopped => .throw fun s hs => ?_)
    fun hstarted => .pure fun s hs => ?_
  · obtain ⟨rfl, hs | ⟨hnot, hreading⟩⟩ := hs
    · exact hs.returned
    · cases nested with
      | true => exact fun hgood => absurd hgood (by decide)
      | false => exact Stopped.returned ⟨hnot, hreading rfl⟩ w.cancelled
  · obtain ⟨rfl, hs | ⟨hnot, -⟩⟩ := hs
    · exact hs
    · exact absurd (by rw [hnot]; rfl) hstarted

/-- The reads that `sane_start` makes itself. -/
theorem bufferImage_ensures {ρ : Type} {eof : δ → Bool} {saneRead : ρ → Call δ SaneStatus}
    (hread : ∀ inp, Ensures (Inside w) (saneRead inp) (Returned w true) (Returned w true))
    (inps : List ρ) :
    Ensures (Inside w) (bufferImage eof saneRead inps)
      (fun ret s => ret = .good → Inside (δ := δ) w s) R := by
  induction inps with
  | nil =>
    refine .get_bind fun t _ => .pure fun s hs _ => hs.2
  | cons inp inps ih =>
    refine .get_bind fun t _ => .ite (fun _ => .pure fun s hs _ => hs.2) fun _ => ?_
    refine Ensures.bind (Q := fun ret s => ret = .good → Inside w s) ?_ fun ret => ?_
    · refine status_ensures ((hread inp).conseq (fun s hs => hs.2) ?_ ?_)
      · exact fun ret s hs => hs
      · exact fun ret s hs => hs
    · refine .ite (fun hbad => .pure fun s hs => ?_) fun hgood => ?_
      · exact fun h => absurd h hbad
      · exact ih.conseq (fun s hs => hs (not_not.mp hgood)) (fun _ _ h => h) fun _ _ h => h

/-! ### The calls of the frontend -/

/-- No cancel of a call arrives where nobody is going to look at the flag. -/
def Watched (cancels : Place → List Bool) : Prop := ∀ cancel ∈ cancels .unwatched, cancel = false

theorem enter_quiet {s : Scan δ} {cancels : Place → List Bool} {commands : List SaneStatus}
    (hs : s.reading = false) (hcancels : Watched cancels)
    (hcommands : ∀ ret ∈ commands, w.answers ret) : Quiet w (s.enter cancels commands) :=
  ⟨⟨hcancels, hcommands⟩, hs, rfl, rfl⟩

variable {σ ρ : Type} {b : Backend δ σ ρ} {s : Scan δ}

/-- A call that returns as it should has lost no cancel. -/
theorem acted_of_ensures {m : Call δ SaneStatus}
    (hm : Ensures P m (Returned w false) (Returned w false)) (hs : P s) :
    (m.run s).2.reading = false ∧
      ((m.run s).2.hit = true → (m.run s).2.started = false ∧ w.tells (m.run s).1) := by
  have h : Returned w false (m.run s).1 (m.run s).2 := by
    have h := hm s hs
    rw [Call.run]
    split at h <;> rename_i heq <;> rw [heq] <;> exact h
  refine ⟨h.1, fun hhit => h.2.resolve_left ?_⟩
  rw [hhit]
  decide

/-- A cancel between calls acts at once. -/
theorem cancel_obeyed (hcheck : b.checkForCancel.Sound w) (hs : s.reading = false)
    (hsent : ∀ t : Scan δ, t.cancelled = true → t.started = true → s.started = true →
      (b.checkForCancel t).2.sent = t.sent + 1) (commands : List SaneStatus) :
    Obeyed s (.cancel commands : Op σ ρ) (b.step s (.cancel commands)).1
      (b.step s (.cancel commands)).2 := by
  let t := s.enter never commands
  have hidle : saneCancel b.checkForCancel t = (b.checkForCancel { t with cancelled := true }).2 :=
    saneCancel_idle hs
  have hstep : (b.step s (.cancel commands)).2 =
      (b.checkForCancel { t with cancelled := true }).2 := hidle
  rw [hstep]
  refine ⟨(hcheck.frame _).1.trans hs, fun hstarted => ?_, hcheck.stopped _ rfl⟩
  exact hsent _ rfl hstarted hstarted

/-- A run in which every step meets `Fine` loses no cancel at any of its steps, if a single
    step from a state in which nobody reads loses none. -/
theorem run_obeyed {Fine : Scan δ → Op σ ρ → Prop}
    (hstep : ∀ s op, s.reading = false → Fine s op →
      Obeyed s op (b.step s op).1 (b.step s op).2)
    {s₀ s s' : Scan δ} {ops : List (Op σ ρ × SaneStatus)} {op : Op σ ρ} {ret : SaneStatus}
    (h₀ : s₀.reading = false)
    (hrun : Run (fun s l s' => b.step s l.1 = (l.2, s') ∧ Fine s l.1) s₀ ops s)
    (hlast : b.step s op = (ret, s')) (hfine : Fine s op) : Obeyed s op ret s' := by
  have hone : ∀ (s : Scan δ) (l : Op σ ρ × SaneStatus) (s' : Scan δ), s.reading = false →
      b.step s l.1 = (l.2, s') → Fine s l.1 → Obeyed s l.1 l.2 s' := by
    intro s l s' hs hl hf
    have h := hstep s l.1 hs hf
    rwa [hl] at h
  have hreading : s.reading = false := by
    refine hrun.invariant (I := fun s => s.reading = false) h₀ ?_
    exact fun s l s' hs hl => (hone s l s' hs hl.1 hl.2).1
  exact hone s (op, ret) s' hreading hlast hfine

end SaneBackends.CancelFlags

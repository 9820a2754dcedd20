import SaneBackends.SaneDescAttach

/-!
# The description files as a whole

`read_files` says what the files say as long as no keyword uses an entity in front of the last
device type, and the level names an entity that exists as long as a device type comes before all
other entities of its backend.
-/

namespace SaneBackends.SaneDesc

open FaultState LastEntry

variable {lag : Prop} {s s' : Parser} {d : Document} {be : BackendEntry} {events : List Event}

/-! ### Keywords that use an entity that is gone -/

/-- The line uses the entity of the level, but nothing was opened after the last device type. -/
def StaleUse (s : Parser) (d : Document) : Event → Prop
  | .file => False
  | .line line => ∃ k, parseLine line = .keyword k ∧ d.current ≠ none ∧ d.level = .backend ∧
      s.currentLevel.uses k = true

theorem step_matches (h : Agrees lag s d) (event : Event)
    (hlag : ∀ line string, event = .line line → parseLine line = .keyword (.devicetype string) →
      lag ∨ s.currentLevel = .backend) (huse : ¬ StaleUse s d event) :
    Matches lag (s.step event) (d.step event) := by
  cases event with
  | file =>
    refine .ok ⟨fun _ => ⟨rfl, ?_⟩, (fun _ h => nomatch h), ?_⟩
    · change s.firstBackend = sorted d.backends
      exact firstBackend_eq h
    · exact h.level.imp_left fun hback => ⟨hback.1, hback.2.1, (fun _ h => nomatch h)⟩
  | line line =>
    rw [Parser.step, Document.step]
    cases hline : parseLine line with
    | ignored => exact .ok h
    | unknown => exact .failed
    | keyword k =>
      refine exec_matches h k (fun string hk => hlag line string rfl (by rw [hline, hk])) ?_
      intro hcurrent hd
      rw [← Bool.not_eq_true]
      exact fun hused => huse ⟨k, hline, hcurrent, hd, hused⟩

theorem deref_none {α : Type} {p : Option α} (h : p = none) :
    deref p = .error (.fault .nullPointer) := by
  rw [h]
  rfl

/-- After a device type there is no description, no manufacturer and no model. -/
theorem Agrees.gone (h : Agrees lag s d) (hbe : d.current = some be) (hd : d.level = .backend) :
    s.currentMfg = none ∧ s.currentModel = none ∧
      ∀ i type, last? be.type = some (i, type) → type.desc = none := by
  obtain ⟨hholds, hopened⟩ := h.current be hbe
  rw [hd] at hopened
  refine ⟨?_, ?_, ?_⟩
  · rw [hholds.mfg, mfgPlace, Option.bind_eq_none_iff]
    intro type htype
    rw [(hopened.entity _ _ htype).2]
    rfl
  · rw [hholds.model, modelPlace, Option.bind_eq_none_iff]
    intro type htype
    rw [(hopened.entity _ _ htype).2]
    rfl
  · intro i type htype
    have hdesc := (hopened.entity _ _ (shape_of_last htype)).1
    exact Option.not_isSome_iff_eq_none.mp (Bool.not_eq_true _ ▸ hdesc)

/-- Such a keyword dereferences a null pointer. -/
theorem step_stale (h : Agrees lag s d) {event : Event} (huse : StaleUse s d event) :
    s.step event = .error (.fault .nullPointer) := by
  cases event with
  | file => exact huse.elim
  | line line =>
    obtain ⟨k, hline, hcurrent, hd, hused⟩ := huse
    obtain ⟨be, hbe⟩ := Option.ne_none_iff_exists'.mp hcurrent
    obtain ⟨hholds, -⟩ := h.current be hbe
    obtain ⟨hmfg, hmodel, hdesc⟩ := h.gone hbe hd
    have hne : s.currentLevel ≠ .backend := by
      intro hlevel
      rw [hlevel] at hused
      cases hused
    have hshape : be.shape ≠ none := by
      rcases h.level with ⟨-, -, hshape⟩ | hsame
      · exact hshape be hbe
      · exact absurd (hsame.trans hd) hne
    obtain ⟨⟨i, shape⟩, hshape⟩ := Option.ne_none_iff_exists'.mp hshape
    obtain ⟨type, htype, -⟩ := shape_eq_some hshape
    have htypePtr : s.currentType = some (backendPlace be.name (sorted d.closed), i) := by
      rw [hholds.currentType, htype]
      rfl
    have hchange : ∀ c : Change, s.change (backendPlace be.name (sorted d.closed)) c =
        .error (.fault .nullPointer) := by
      intro c
      rw [Parser.change]
      cases hlevel : s.currentLevel with
      | backend => exact absurd hlevel hne
      | mfg =>
        dsimp only
        rw [deref_none hmfg]
        rfl
      | model =>
        dsimp only
        rw [deref_none hmodel]
        rfl
      | desc =>
        dsimp only
        rw [htypePtr, deref, Option.elim_some, ok_bind, Parser.modifyType, Parser.modifyBackend,
          modifyAt_error hholds.getElem?]
        · rfl
        rw [modifyAt_error (getElem?_last htype)]
        · rfl
        rw [deref_none (hdesc i type htype)]
        rfl
    rw [Parser.step, hline]
    dsimp only
    cases k with
    | status string =>
      cases hlevel : s.currentLevel with
      | model =>
        simp only [Parser.exec, hholds.backend, Parser.status, hlevel]
        rw [deref_none hmodel]
        rfl
      | _ =>
        rw [hlevel] at hused
        cases hused
    | model string =>
      have hopen : ¬ (s.currentLevel ≠ .mfg ∧ s.currentLevel ≠ .model) := by
        intro hnot
        cases hlevel : s.currentLevel with
        | mfg => exact hnot.1 hlevel
        | model => exact hnot.2 hlevel
        | _ =>
          rw [hlevel] at hused
          cases hused
      simp only [Parser.exec, hholds.backend, Parser.model, htypePtr]
      rw [if_neg hopen, deref_none hmfg]
      rfl
    | url string =>
      simp only [Parser.exec, hholds.backend]
      exact hchange _
    | comment string =>
      simp only [Parser.exec, hholds.backend]
      exact hchange _
    | _ =>
      cases hlevel : s.currentLevel with
      | _ =>
        rw [hlevel] at hused
        cases hused

/-! ### Runs -/

def Parser.run (events : List Event) : Except Stop Parser := events.foldlM Parser.step {}

def Document.run (events : List Event) : Option Document := events.foldlM Document.step {}

theorem Parser.run_concat (events : List Event) (event : Event) :
    Parser.run (events ++ [event]) = Parser.run events >>= fun s => s.step event := by
  rw [Parser.run, List.foldlM_append]
  exact congrArg _ (funext fun s => bind_pure _)

theorem Document.run_concat (events : List Event) (event : Event) :
    Document.run (events ++ [event]) = Document.run events >>= fun d => d.step event := by
  rw [Document.run, List.foldlM_append]
  exact congrArg _ (funext fun s => bind_pure _)

theorem start_agrees : Agrees lag {} {} :=
  ⟨fun _ => ⟨rfl, rfl⟩, (fun _ h => nomatch h), .inr rfl⟩

/-- No line uses an entity that is gone. -/
def NoStaleUse (events : List Event) : Prop :=
  ∀ pre event, pre ++ [event] <+: events → ∀ s d, Parser.run pre = .ok s →
    Document.run pre = some d → ¬ StaleUse s d event

/-- A device type comes only while the level is that of the backend. -/
def TypesFirst (events : List Event) : Prop :=
  ∀ pre line string, pre ++ [.line line] <+: events →
    parseLine line = .keyword (.devicetype string) → ∀ s s', Parser.run pre = .ok s →
      s.step (.line line) = .ok s' → s.currentLevel = .backend

/-- The events so far go as the document says, or there was a stale use. -/
theorem run_cases (events : List Event) :
    Matches True (Parser.run events) (Document.run events) ∨
      Parser.run events = .error (.fault .nullPointer) ∧ ¬ NoStaleUse events := by
  induction events using List.reverseRecOn with
  | nil => exact .inl (.ok start_agrees)
  | append_singleton events event ih =>
    rw [Parser.run_concat, Document.run_concat]
    rcases ih with hmatches | ⟨hfault, hstale⟩
    · generalize hs : Parser.run events = r at hmatches
      generalize hd : Document.run events = o at hmatches
      cases hmatches with
      | failed => exact .inl .failed
      | @ok s d h =>
        by_cases huse : StaleUse s d event
        · refine .inr ⟨step_stale h huse, fun hno => ?_⟩
          exact hno events event (List.prefix_refl _) _ _ hs hd huse
        · exact .inl (step_matches h event (fun _ _ _ _ => .inl trivial) huse)
    · refine .inr ⟨?_, fun hno => hstale fun pre e hpre => ?_⟩
      · rw [hfault]
        rfl
      · exact hno pre e (hpre.trans (List.prefix_append events [event]))

/-- After a stale use the run does not return. -/
theorem run_of_not_noStaleUse (h : ¬ NoStaleUse events) :
    Parser.run events = .error (.fault .nullPointer) := by
  rw [NoStaleUse] at h
  push Not at h
  obtain ⟨pre, event, ⟨suf, rfl⟩, s, d, hs, hd, huse⟩ := h
  rcases run_cases pre with hmatches | ⟨hfault, -⟩
  · rw [hs, hd] at hmatches
    cases hmatches with
    | ok h =>
      have hstep : Parser.run (pre ++ [event]) = .error (.fault .nullPointer) := by
        rw [Parser.run_concat, hs]
        exact step_stale h huse
      rw [Parser.run, List.foldlM_append, ← Parser.run, hstep]
      rfl
  · rw [hs] at hfault
    cases hfault

theorem length_sorted (bs : List BackendEntry) : (sorted bs).length = bs.length := by
  have hinsert : ∀ (bs : List BackendEntry) be,
      (insertBackend bs be).length = bs.length + 1 := by
    intro bs be
    rw [insertBackend, List.length_append, List.length_cons, ← Nat.add_assoc,
      ← List.length_append, List.take_append_drop]
  induction bs using List.reverseRecOn with
  | nil => rfl
  | append_singleton bs be ih =>
    rw [sorted, List.foldl_append]
    exact (hinsert _ be).trans (by rw [← sorted, ih, List.length_append]; rfl)

/-! ### `read_files` -/

/-- The values are where the files say. -/
def Attaches (files : List (List CStr)) : Prop :=
  readFiles files = (describe files).elim (.error .failed) .ok

theorem attaches_iff (files : List (List CStr)) :
    Attaches files ↔ NoStaleUse (eventsOf files) := by
  have hread : readFiles files = Parser.run (eventsOf files) >>= fun s =>
    if s.firstBackend = [] then .error .failed else .ok s.firstBackend := rfl
  constructor
  · intro hattaches
    by_contra hstale
    rw [Attaches, hread, run_of_not_noStaleUse hstale] at hattaches
    cases hdescribe : describe files with
    | none =>
      rw [hdescribe] at hattaches
      cases hattaches
    | some bs =>
      rw [hdescribe] at hattaches
      cases hattaches
  · intro hno
    have hdescribe : describe files = Document.run (eventsOf files) >>= fun d =>
      if d.backends = [] then none else some (sorted d.backends) := rfl
    have hmatches := (run_cases (eventsOf files)).resolve_right fun h => h.2 hno
    rw [Attaches, hread, hdescribe]
    generalize Parser.run (eventsOf files) = r at hmatches
    generalize Document.run (eventsOf files) = o at hmatches
    cases hmatches with
    | failed => rfl
    | @ok s d h =>
      have hempty : s.firstBackend = [] ↔ d.backends = [] := by
        rw [firstBackend_eq h, ← List.length_eq_zero_iff, length_sorted, List.length_eq_zero_iff]
      change (if s.firstBackend = [] then _ else _) =
        (if d.backends = [] then _ else _ : Option _).elim _ _
      by_cases hd : d.backends = []
      · rw [if_pos (hempty.mpr hd), if_pos hd]
        rfl
      · rw [if_neg (fun hs => hd (hempty.mp hs)), if_neg hd, firstBackend_eq h]
        rfl

/-! ### Levels -/

/-- The current level names an entity that exists. -/
def Parser.LevelExists (s : Parser) : Prop :=
  s.currentBackend ≠ none →
    match s.currentLevel with
    | .backend => ∃ b be, s.currentBackend = some b ∧ s.backendAt b = .ok be
    | .mfg => ∃ p mfg, s.currentMfg = some p ∧ s.mfgAt p = .ok mfg
    | .model => ∃ p model, s.currentModel = some p ∧ s.modelAt p = .ok model
    | .desc => ∃ p type desc, s.currentType = some p ∧ s.typeAt p = .ok type ∧
        type.desc = some desc

theorem levelExists_of_same (h : Agrees lag s d) (hlevel : s.currentLevel = d.level) :
    s.LevelExists := by
  intro hopen
  cases hbe : d.current with
  | none => exact absurd (h.closed hbe).1 hopen
  | some be =>
    obtain ⟨hholds, hopened⟩ := h.current be hbe
    rw [hlevel]
    cases hd : d.level with
    | backend => exact ⟨_, be, hholds.backend, hholds.backendAt⟩
    | mfg =>
      rw [hd] at hopened
      obtain ⟨i, type, j, mfg, htype, hmfg⟩ := hopened.mfg_entry
      refine ⟨_, mfg, ?_, hholds.mfgAt htype hmfg⟩
      rw [hholds.currentMfg htype, hmfg]
      rfl
    | model =>
      rw [hd] at hopened
      obtain ⟨i, type, j, mfg, k, model, htype, hmfg, hmodel⟩ := hopened.model_entry
      refine ⟨_, model, ?_, hholds.modelAt htype hmfg hmodel⟩
      rw [hholds.currentModel htype hmfg, hmodel]
      rfl
    | desc =>
      rw [hd] at hopened
      obtain ⟨i, type, desc, htype, hdesc⟩ := hopened.desc_entry
      refine ⟨_, type, desc, ?_, hholds.typeAt htype, hdesc⟩
      rw [hholds.currentType, htype]
      rfl

theorem level_of_levelExists (h : Agrees lag s d) (hbe : d.current = some be)
    (hd : d.level = .backend) (hexists : s.LevelExists) : s.currentLevel = .backend := by
  obtain ⟨hholds, -⟩ := h.current be hbe
  obtain ⟨hmfg, hmodel, hdesc⟩ := h.gone hbe hd
  have hentity := hexists (by rw [hholds.backend]; exact Option.some_ne_none _)
  cases hlevel : s.currentLevel with
  | backend => rfl
  | mfg =>
    rw [hlevel] at hentity
    obtain ⟨p, mfg, hp, -⟩ := hentity
    rw [hmfg] at hp
    cases hp
  | model =>
    rw [hlevel] at hentity
    obtain ⟨p, model, hp, -⟩ := hentity
    rw [hmodel] at hp
    cases hp
  | desc =>
    rw [hlevel] at hentity
    obtain ⟨p, type, desc, hp, htypeAt, hsome⟩ := hentity
    rw [hholds.currentType] at hp
    obtain ⟨⟨i, last⟩, hlast, rfl⟩ := Option.map_eq_some_iff.mp hp
    rw [hholds.typeAt hlast] at htypeAt
    cases htypeAt
    rw [hdesc i type hlast] at hsome
    cases hsome

/-- If device types come first, the levels are always the same. -/
theorem run_same (h : TypesFirst events) (hs : Parser.run events = .ok s) :
    ∃ d, Document.run events = some d ∧ Agrees False s d := by
  induction events using List.reverseRecOn generalizing s with
  | nil =>
    cases hs
    exact ⟨{}, rfl, start_agrees⟩
  | append_singleton events event ih =>
    rw [Parser.run_concat] at hs
    obtain ⟨s', hs', hstep⟩ := bind_eq_ok.mp hs
    obtain ⟨d, hd, hagrees⟩ := ih
      (fun pre line string hpre => h pre line string (hpre.trans (List.prefix_append _ _))) hs'
    have hsame : s'.currentLevel = d.level := hagrees.level.resolve_left fun hlag => hlag.1
    have hmatches := step_matches hagrees event
      (fun line string hline hparse => .inr (h events line string (by rw [hline]) hparse s' s hs'
        (by rw [← hline]; exact hstep)))
      (by
        cases event with
        | file => exact id
        | line line =>
          rintro ⟨k, -, -, hback, hused⟩
          rw [hsame, hback] at hused
          cases hused)
    rw [Document.run_concat, hd]
    rw [hstep] at hmatches
    change ∃ d', d.step event = some d' ∧ _
    generalize d.step event = o at hmatches
    cases hmatches with
    | ok h => exact ⟨_, rfl, h⟩

/-- In every state that is reached the level names an entity. -/
def LevelsExist (events : List Event) : Prop :=
  ∀ pre s, pre <+: events → Parser.run pre = .ok s → s.LevelExists

theorem TypesFirst.of_prefix {pre : List Event} (h : TypesFirst events) (hpre : pre <+: events) :
    TypesFirst pre := fun pre' line string hpre' => h pre' line string (hpre'.trans hpre)

theorem devicetype_level {b : Nat} {string : CStr} (h : s.devicetype b string = .ok s') :
    s'.currentLevel = s.currentLevel := by
  rw [Parser.devicetype] at h
  obtain ⟨be, -, h⟩ := bind_eq_ok.mp h
  cases htype : deviceTypeOf string with
  | none =>
    rw [htype] at h
    cases h
  | some type =>
    rw [htype] at h
    obtain ⟨u, hmodify, h⟩ := bind_eq_ok.mp h
    obtain ⟨bs, -, hu⟩ := bind_eq_ok.mp hmodify
    cases h
    cases hu
    rfl

theorem levelsExist_iff (events : List Event) : LevelsExist events ↔ TypesFirst events := by
  constructor
  · intro hexist pre line string hpre hline s s' hs hstep
    have hs' : Parser.run (pre ++ [.line line]) = .ok s' := by
      rw [Parser.run_concat, hs]
      exact hstep
    rcases run_cases pre with hmatches | ⟨hfault, -⟩
    · rw [hs] at hmatches
      generalize Document.run pre = o at hmatches
      cases hmatches with
      | @ok _ d h =>
        rw [Parser.step, hline] at hstep
        cases hbe : d.current with
        | none =>
          simp only [Parser.exec, (h.closed hbe).1] at hstep
          cases hstep
        | some be =>
          obtain ⟨hholds, -⟩ := h.current be hbe
          simp only [Parser.exec, hholds.backend] at hstep
          rw [← devicetype_level hstep]
          have hnext := devicetype_matches h hbe string (.inl trivial)
          rw [hstep] at hnext
          cases htype : deviceTypeOf string with
          | none =>
            rw [htype] at hnext
            cases hnext
          | some type =>
            rw [htype] at hnext
            cases hnext with
            | ok hagrees =>
              exact level_of_levelExists hagrees rfl rfl (hexist _ s' hpre hs')
    · rw [hs] at hfault
      cases hfault
  · intro hfirst pre s hpre hs
    obtain ⟨d, -, hagrees⟩ := run_same (hfirst.of_prefix hpre) hs
    exact levelExists_of_same hagrees (hagrees.level.resolve_left fun hlag => hlag.1)

/-- With its device types first a backend has no entity that is gone. -/
theorem TypesFirst.noStaleUse (h : TypesFirst events) : NoStaleUse events := by
  intro pre event hpre s d hs hd huse
  obtain ⟨d', hd', hagrees⟩ := run_same (h.of_prefix ((List.prefix_append _ _).trans hpre)) hs
  rw [hd] at hd'
  cases hd'
  cases event with
  | file => exact huse
  | line line =>
    obtain ⟨k, -, -, hback, hused⟩ := huse
    rw [hagrees.level.resolve_left fun hlag => hlag.1, hback] at hused
    cases hused

/-- Everything holds exactly when the device types come first; the values alone are right exactly
    when nothing that is gone is used. -/
theorem readFiles_attaches (files : List (List CStr)) :
    (Attaches files ∧ LevelsExist (eventsOf files) ↔ TypesFirst (eventsOf files)) ∧
      (Attaches files ↔ NoStaleUse (eventsOf files)) := by
  refine ⟨⟨fun h => (levelsExist_iff _).mp h.2, fun h => ⟨?_, ?_⟩⟩, attaches_iff files⟩
  · exact (attaches_iff files).mpr h.noStaleUse
  · exact (levelsExist_iff _).mpr h

/-- A URL behind the second device type of a backend. -/
def twoTypes : List CStr :=
  [ascii [':', 'b', 'a', 'c', 'k', 'e', 'n', 'd', ' ', 'a'],
    ascii [':', 'd', 'e', 'v', 'i', 'c', 'e', 't', 'y', 'p', 'e', ' ', ':', 's', 'c', 'a', 'n', 'n',
      'e', 'r'],
    ascii [':', 'm', 'f', 'g', ' ', 'b'],
    ascii [':', 'd', 'e', 'v', 'i', 'c', 'e', 't', 'y', 'p', 'e', ' ', ':', 's', 't', 'i', 'l', 'l',
      'c', 'a', 'm'],
    ascii [':', 'u', 'r', 'l', ' ', 'c']]

/-- The pointer to the manufacturer is null, although the level is that of a manufacturer. -/
theorem readFiles_nullPointer :
    ¬ ∀ files : List (List CStr), Attaches files ∧ LevelsExist (eventsOf files) := by
  intro h
  have hread : readFiles [twoTypes] = .error (.fault .nullPointer) := by rfl
  have hattaches := (h [twoTypes]).1
  rw [Attaches, hread] at hattaches
  cases hdescribe : describe [twoTypes] with
  | none =>
    rw [hdescribe] at hattaches
    cases hattaches
  | some bs =>
    rw [hdescribe] at hattaches
    cases hattaches

end SaneBackends.SaneDesc

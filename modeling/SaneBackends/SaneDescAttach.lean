import SaneBackends.SaneDescDocument

/-!
# To what the keywords are attached

The pointers of `read_files` are the places of the last entries.  They agree with the document, and
so does the level, until a device type is added after another entity of the backend was opened.
-/

namespace SaneBackends.SaneDesc

open FaultState LastEntry

/-! ### Places in a backend -/

def MfgEntry.shape (mfg : MfgEntry) : Option Nat := (last? mfg.model).map Prod.fst

structure TypeShape where
  isMeta : Bool
  desc : Bool
  mfg : Option (Nat × Option Nat)

def TypeEntry.shape (type : TypeEntry) : TypeShape :=
  ⟨type.type.isMeta, type.desc.isSome, (last? type.mfg).map fun mfg => (mfg.1, mfg.2.shape)⟩

/-- Where the entities of a backend are that were opened last. -/
def BackendEntry.shape (be : BackendEntry) : Option (Nat × TypeShape) :=
  (last? be.type).map fun type => (type.1, type.2.shape)

def typePlace (b : Nat) (shape : Option (Nat × TypeShape)) : Option TypePlace :=
  shape.map fun type => (b, type.1)

def mfgPlace (b : Nat) (shape : Option (Nat × TypeShape)) : Option MfgPlace :=
  shape.bind fun type => type.2.mfg.map fun mfg => ((b, type.1), mfg.1)

def modelPlace (b : Nat) (shape : Option (Nat × TypeShape)) : Option ModelPlace :=
  shape.bind fun type => type.2.mfg.bind fun mfg =>
    mfg.2.map fun model => (((b, type.1), mfg.1), model)

variable {be be' : BackendEntry} {bs : List BackendEntry} {s : Parser} {d : Document} {lag : Prop}

theorem shape_onLastType {f : TypeEntry → TypeEntry} (hf : ∀ type, (f type).shape = type.shape)
    (be : BackendEntry) : (be.onLastType f).shape = be.shape := by
  rw [BackendEntry.shape, BackendEntry.onLastType, last?_onLast, Option.map_map]
  exact Option.map_congr fun type _ => congrArg (Prod.mk type.1) (hf type.2)

theorem shape_onLastDesc (f : DescEntry → DescEntry) (be : BackendEntry) :
    (be.onLastDesc f).shape = be.shape := by
  refine shape_onLastType (fun type => ?_) be
  rw [TypeEntry.shape, Option.isSome_map]
  rfl

theorem shape_onLastMfg {f : MfgEntry → MfgEntry} (hf : ∀ mfg, (f mfg).shape = mfg.shape)
    (be : BackendEntry) : (be.onLastMfg f).shape = be.shape := by
  refine shape_onLastType (fun type => ?_) be
  rw [TypeEntry.shape, TypeEntry.shape, last?_onLast, Option.map_map]
  exact congrArg (TypeShape.mk _ _)
    (Option.map_congr fun mfg _ => congrArg (Prod.mk mfg.1) (hf mfg.2))

theorem shape_onLastModel (f : ModelEntry → ModelEntry) (be : BackendEntry) :
    (be.onLastModel f).shape = be.shape := by
  refine shape_onLastMfg (fun mfg => ?_) be
  rw [MfgEntry.shape, MfgEntry.shape, last?_onLast, Option.map_map]
  rfl

theorem shape_change (level : Level) (c : Change) (be : BackendEntry) :
    (be.change level c).shape = be.shape := by
  cases level with
  | backend =>
    rw [BackendEntry.change, BackendEntry.shape, (c.backend_keeps be).2]
    rfl
  | mfg =>
    refine shape_onLastMfg (fun mfg => ?_) be
    rw [MfgEntry.shape, c.mfg_keeps]
    rfl
  | model => exact shape_onLastModel _ be
  | desc => exact shape_onLastDesc _ be

theorem name_change (level : Level) (c : Change) (be : BackendEntry) :
    (be.change level c).name = be.name := by
  cases level with
  | backend => exact (c.backend_keeps be).1
  | mfg => rfl
  | model => rfl
  | desc => rfl

/-! ### Agreement -/

/-- The backend is at its place among those that came before, and the pointers are the places of
    the last entries. -/
structure Holds (s : Parser) (bs : List BackendEntry) (be : BackendEntry) : Prop where
  first : s.firstBackend = insertBackend (sorted bs) be
  backend : s.currentBackend = some (backendPlace be.name (sorted bs))
  type : s.currentType = typePlace (backendPlace be.name (sorted bs)) be.shape
  mfg : s.currentMfg = mfgPlace (backendPlace be.name (sorted bs)) be.shape
  model : s.currentModel = modelPlace (backendPlace be.name (sorted bs)) be.shape

/-- The entity to which URLs and comments belong. -/
structure Opened (level : Level) (shape : Option (Nat × TypeShape)) : Prop where
  noMfg : ∀ i type, shape = some (i, type) → type.isMeta = true → type.mfg = none
  entity : match level with
    | .backend => ∀ i type, shape = some (i, type) → type.desc = false ∧ type.mfg = none
    | .mfg => ∃ i type mfg, shape = some (i, type) ∧ type.mfg = some mfg
    | .model => ∃ i type j k, shape = some (i, type) ∧ type.mfg = some (j, some k)
    | .desc => ∃ i type, shape = some (i, type) ∧ type.desc = true

/-- What the parser knows is what the lines so far say; if it may lag, the level may be that of an
    entity in front of the last device type. -/
structure Agrees (lag : Prop) (s : Parser) (d : Document) : Prop where
  closed : d.current = none → s.currentBackend = none ∧ s.firstBackend = sorted d.closed
  current : ∀ be, d.current = some be → Holds s d.closed be ∧ Opened d.level be.shape
  level : lag ∧ d.level = .backend ∧ (∀ be, d.current = some be → be.shape ≠ none) ∨
    s.currentLevel = d.level

theorem entryAt_eq {α : Type} {xs : List α} {i : Nat} {x : α} (h : xs[i]? = some x) :
    entryAt xs i = .ok x := by
  rw [entryAt, h]
  rfl

theorem modifyAt_ok {α : Type} {xs : List α} {i : Nat} {x y : α} {f : α → Except Stop α}
    (h : xs[i]? = some x) (hf : f x = .ok y) : modifyAt xs i f = .ok (xs.set i y) := by
  rw [modifyAt, entryAt_eq h, ok_bind, hf]
  rfl

theorem modifyAt_error {α : Type} {xs : List α} {i : Nat} {x : α} {e : Stop}
    {f : α → Except Stop α} (h : xs[i]? = some x) (hf : f x = .error e) :
    modifyAt xs i f = .error e := by
  rw [modifyAt, entryAt_eq h, ok_bind, hf]
  rfl

/-! ### The open backend -/

theorem backendPlace_le (name : Option CStr) (bs : List BackendEntry) :
    backendPlace name bs ≤ bs.length := List.findIdx_le_length

theorem getElem?_insertBackend (bs : List BackendEntry) (be : BackendEntry) :
    (insertBackend bs be)[backendPlace be.name bs]? = some be := by
  have hlen : (bs.take (backendPlace be.name bs)).length = backendPlace be.name bs := by
    rw [List.length_take, Nat.min_eq_left (backendPlace_le _ _)]
  rw [insertBackend, List.getElem?_append_right hlen.le, hlen, Nat.sub_self]
  rfl

theorem set_insertBackend (hname : be'.name = be.name) (bs : List BackendEntry) :
    (insertBackend bs be).set (backendPlace be.name bs) be' = insertBackend bs be' := by
  have hlen : (bs.take (backendPlace be.name bs)).length = backendPlace be.name bs := by
    rw [List.length_take, Nat.min_eq_left (backendPlace_le _ _)]
  rw [insertBackend, insertBackend, hname, List.set_append_right _ _ hlen.le, hlen, Nat.sub_self]
  rfl

/-- The state with another open backend. -/
def Parser.withBackend (s : Parser) (bs : List BackendEntry) (be : BackendEntry) : Parser :=
  { s with firstBackend := insertBackend (sorted bs) be }

theorem Holds.withBackend (h : Holds s bs be) (hname : be'.name = be.name)
    (hshape : be'.shape = be.shape) : Holds (s.withBackend bs be') bs be' where
  first := rfl
  backend := by
    rw [hname]
    exact h.backend
  type := by
    rw [hname, hshape]
    exact h.type
  mfg := by
    rw [hname, hshape]
    exact h.mfg
  model := by
    rw [hname, hshape]
    exact h.model

theorem Holds.getElem? (h : Holds s bs be) :
    s.firstBackend[backendPlace be.name (sorted bs)]? = some be := by
  rw [h.first]
  exact getElem?_insertBackend _ be

theorem Holds.modifyBackend (h : Holds s bs be) {f : BackendEntry → Except Stop BackendEntry}
    (be' : BackendEntry) (hf : f be = .ok be') (hname : be'.name = be.name) :
    s.modifyBackend (backendPlace be.name (sorted bs)) f = .ok (s.withBackend bs be') := by
  rw [Parser.modifyBackend, modifyAt_ok h.getElem? hf, h.first, set_insertBackend hname]
  rfl

/-- The open type of a backend. -/
theorem Holds.modifyType (h : Holds s bs be) {i : Nat} {type : TypeEntry}
    (htype : last? be.type = some (i, type)) {f : TypeEntry → Except Stop TypeEntry}
    (g : TypeEntry → TypeEntry) (hf : f type = .ok (g type)) :
    s.modifyType (backendPlace be.name (sorted bs), i) f =
      .ok (s.withBackend bs (be.onLastType g)) := by
  refine h.modifyBackend _ ?_ rfl
  rw [modifyAt_ok (getElem?_last htype) hf, set_last g htype]
  rfl

theorem Holds.modifyMfg (h : Holds s bs be) {i j : Nat} {type : TypeEntry} {mfg : MfgEntry}
    (htype : last? be.type = some (i, type)) (hmfg : last? type.mfg = some (j, mfg))
    {f : MfgEntry → Except Stop MfgEntry} (g : MfgEntry → MfgEntry) (hf : f mfg = .ok (g mfg)) :
    s.modifyMfg ((backendPlace be.name (sorted bs), i), j) f =
      .ok (s.withBackend bs (be.onLastMfg g)) := by
  refine h.modifyType htype _ ?_
  rw [modifyAt_ok (getElem?_last hmfg) hf, set_last g hmfg]
  rfl

theorem Holds.modifyModel (h : Holds s bs be) {i j k : Nat} {type : TypeEntry} {mfg : MfgEntry}
    {model : ModelEntry} (htype : last? be.type = some (i, type))
    (hmfg : last? type.mfg = some (j, mfg)) (hmodel : last? mfg.model = some (k, model))
    {f : ModelEntry → Except Stop ModelEntry} (g : ModelEntry → ModelEntry)
    (hf : f model = .ok (g model)) :
    s.modifyModel (((backendPlace be.name (sorted bs), i), j), k) f =
      .ok (s.withBackend bs (be.onLastModel g)) := by
  refine h.modifyMfg htype hmfg _ ?_
  rw [modifyAt_ok (getElem?_last hmodel) hf, set_last g hmodel]
  rfl

theorem Holds.modifyModel_error (h : Holds s bs be) {i j k : Nat} {type : TypeEntry}
    {mfg : MfgEntry} {model : ModelEntry} (htype : last? be.type = some (i, type))
    (hmfg : last? type.mfg = some (j, mfg)) (hmodel : last? mfg.model = some (k, model))
    {f : ModelEntry → Except Stop ModelEntry} {e : Stop} (hf : f model = .error e) :
    s.modifyModel (((backendPlace be.name (sorted bs), i), j), k) f = .error e := by
  rw [Parser.modifyModel, Parser.modifyMfg, Parser.modifyType, Parser.modifyBackend,
    modifyAt_error h.getElem?]
  · rfl
  rw [modifyAt_error (getElem?_last htype)]
  · rfl
  rw [modifyAt_error (getElem?_last hmfg)]
  · rfl
  rw [modifyAt_error (getElem?_last hmodel) hf]
  rfl

/-! ### What the pointers are -/

theorem Holds.currentType (h : Holds s bs be) :
    s.currentType =
      (last? be.type).map fun type => (backendPlace be.name (sorted bs), type.1) := by
  rw [h.type, typePlace, BackendEntry.shape, Option.map_map]
  rfl

theorem Holds.currentMfg (h : Holds s bs be) {i : Nat} {type : TypeEntry}
    (htype : last? be.type = some (i, type)) :
    s.currentMfg =
      (last? type.mfg).map fun mfg => ((backendPlace be.name (sorted bs), i), mfg.1) := by
  rw [h.mfg, mfgPlace, BackendEntry.shape, htype]
  change ((last? type.mfg).map _).map _ = _
  rw [Option.map_map]
  rfl

theorem Holds.currentModel (h : Holds s bs be) {i j : Nat} {type : TypeEntry} {mfg : MfgEntry}
    (htype : last? be.type = some (i, type)) (hmfg : last? type.mfg = some (j, mfg)) :
    s.currentModel = (last? mfg.model).map fun model =>
      (((backendPlace be.name (sorted bs), i), j), model.1) := by
  rw [h.model, modelPlace, BackendEntry.shape, htype]
  change ((last? type.mfg).map _).bind _ = _
  rw [hmfg]
  change ((last? mfg.model).map _).map _ = _
  rw [Option.map_map]
  rfl

theorem Holds.backendAt (h : Holds s bs be) :
    s.backendAt (backendPlace be.name (sorted bs)) = .ok be := entryAt_eq h.getElem?

theorem Holds.typeAt (h : Holds s bs be) {i : Nat} {type : TypeEntry}
    (htype : last? be.type = some (i, type)) :
    s.typeAt (backendPlace be.name (sorted bs), i) = .ok type := by
  rw [Parser.typeAt, h.backendAt]
  exact entryAt_eq (getElem?_last htype)

theorem Holds.mfgAt (h : Holds s bs be) {i j : Nat} {type : TypeEntry} {mfg : MfgEntry}
    (htype : last? be.type = some (i, type)) (hmfg : last? type.mfg = some (j, mfg)) :
    s.mfgAt ((backendPlace be.name (sorted bs), i), j) = .ok mfg := by
  rw [Parser.mfgAt, h.typeAt htype]
  exact entryAt_eq (getElem?_last hmfg)

theorem Holds.modelAt (h : Holds s bs be) {i j k : Nat} {type : TypeEntry} {mfg : MfgEntry}
    {model : ModelEntry} (htype : last? be.type = some (i, type))
    (hmfg : last? type.mfg = some (j, mfg)) (hmodel : last? mfg.model = some (k, model)) :
    s.modelAt (((backendPlace be.name (sorted bs), i), j), k) = .ok model := by
  rw [Parser.modelAt, h.mfgAt htype hmfg]
  exact entryAt_eq (getElem?_last hmodel)

theorem shape_eq_some {i : Nat} {shape : TypeShape} (h : be.shape = some (i, shape)) :
    ∃ type, last? be.type = some (i, type) ∧ type.shape = shape := by
  obtain ⟨⟨i', type⟩, htype, heq⟩ := Option.map_eq_some_iff.mp h
  cases heq
  exact ⟨type, htype, rfl⟩

theorem modelPlace_eq_some {b : Nat} {p : ModelPlace} (h : modelPlace b be.shape = some p) :
    ∃ i type j mfg k model, last? be.type = some (i, type) ∧ last? type.mfg = some (j, mfg) ∧
      last? mfg.model = some (k, model) ∧ p = (((b, i), j), k) := by
  obtain ⟨⟨i, shape⟩, hshape, h⟩ := Option.bind_eq_some_iff.mp h
  obtain ⟨type, htype, rfl⟩ := shape_eq_some hshape
  obtain ⟨⟨j, models⟩, hmfgs, h⟩ := Option.bind_eq_some_iff.mp h
  obtain ⟨⟨j', mfg⟩, hmfg, heq⟩ := Option.map_eq_some_iff.mp hmfgs
  cases heq
  obtain ⟨k, hk, rfl⟩ := Option.map_eq_some_iff.mp h
  obtain ⟨⟨k', model⟩, hmodel, heq⟩ := Option.map_eq_some_iff.mp hk
  cases heq
  exact ⟨i, type, j', mfg, k', model, htype, hmfg, hmodel, rfl⟩

theorem Opened.mfg_entry (h : Opened .mfg be.shape) :
    ∃ i type j mfg, last? be.type = some (i, type) ∧ last? type.mfg = some (j, mfg) := by
  obtain ⟨i, shape, mfgs, hshape, hmfgs⟩ := h.entity
  obtain ⟨type, htype, rfl⟩ := shape_eq_some hshape
  obtain ⟨⟨j, mfg⟩, hmfg, -⟩ := Option.map_eq_some_iff.mp hmfgs
  exact ⟨i, type, j, mfg, htype, hmfg⟩

theorem Opened.model_entry (h : Opened .model be.shape) :
    ∃ i type j mfg k model, last? be.type = some (i, type) ∧ last? type.mfg = some (j, mfg) ∧
      last? mfg.model = some (k, model) := by
  obtain ⟨i, shape, j, k, hshape, hmfgs⟩ := h.entity
  obtain ⟨type, htype, rfl⟩ := shape_eq_some hshape
  obtain ⟨⟨j', mfg⟩, hmfg, heq⟩ := Option.map_eq_some_iff.mp hmfgs
  obtain ⟨⟨k', model⟩, hmodel, -⟩ := Option.map_eq_some_iff.mp (congrArg Prod.snd heq)
  exact ⟨i, type, j', mfg, k', model, htype, hmfg, hmodel⟩

theorem Opened.desc_entry (h : Opened .desc be.shape) :
    ∃ i type desc, last? be.type = some (i, type) ∧ type.desc = some desc := by
  obtain ⟨i, shape, hshape, hdesc⟩ := h.entity
  obtain ⟨type, htype, rfl⟩ := shape_eq_some hshape
  obtain ⟨desc, hdesc⟩ := Option.isSome_iff_exists.mp hdesc
  exact ⟨i, type, desc, htype, hdesc⟩

/-! ### One keyword -/

/-- The parser goes on as the document does, or both fail. -/
inductive Matches (lag : Prop) : Except Stop Parser → Option Document → Prop
  | ok {s : Parser} {d : Document} (h : Agrees lag s d) : Matches lag (.ok s) (some d)
  | failed : Matches lag (.error .failed) none

theorem Agrees.set (hholds : Holds s d.closed be) {level : Level} (hopened : Opened level be.shape)
    (hlevel : lag ∧ level = .backend ∧ be.shape ≠ none ∨ s.currentLevel = level) :
    Agrees lag s (d.set be level) where
  closed := fun h => nomatch h
  current := by
    rintro _ ⟨⟩
    exact ⟨hholds, hopened⟩
  level := by
    refine hlevel.imp_left fun ⟨hlag, hback, hshape⟩ => ⟨hlag, hback, ?_⟩
    rintro _ ⟨⟩
    exact hshape

/-- An entity of the open backend changes. -/
theorem Agrees.update (h : Agrees lag s d) (hbe : d.current = some be)
    (hshape : be'.shape = be.shape) (hname : be'.name = be.name) :
    Agrees lag (s.withBackend d.closed be') (d.set be' d.level) := by
  obtain ⟨hholds, hopened⟩ := h.current be hbe
  refine .set (hholds.withBackend hname hshape) ?_ ?_
  · rw [hshape]
    exact hopened
  · rw [hshape]
    exact h.level.imp_left fun hback => ⟨hback.1, hback.2.1, hback.2.2 be hbe⟩

theorem Agrees.set_same (h : Agrees lag s d) (hbe : d.current = some be) :
    Agrees lag s (d.set be d.level) := by
  obtain ⟨hholds, hopened⟩ := h.current be hbe
  exact .set hholds hopened
    (h.level.imp_left fun hback => ⟨hback.1, hback.2.1, hback.2.2 be hbe⟩)

theorem onLastType_same {f : TypeEntry → TypeEntry}
    (hf : ∀ i type, last? be.type = some (i, type) → f type = type) : be.onLastType f = be := by
  rw [BackendEntry.onLastType, onLast_same hf]

theorem onLastModel_none {f : ModelEntry → ModelEntry}
    (h : ∀ i type j mfg, last? be.type = some (i, type) → last? type.mfg = some (j, mfg) →
      last? mfg.model = none) : be.onLastModel f = be := by
  refine onLastType_same fun i type htype => ?_
  rw [onLast_same]
  intro j mfg hmfg
  have hempty := last?_eq_none (h i type j mfg htype hmfg)
  rw [hempty, onLast_nil, ← hempty]

/-- What is said of the model is ignored exactly if there is none. -/
theorem ofModel_matches (h : Agrees lag s d) (hbe : d.current = some be)
    (f : ModelEntry → ModelEntry) :
    Matches lag (s.ofModel f) (some (d.set (be.onLastModel f) d.level)) := by
  obtain ⟨hholds, -⟩ := h.current be hbe
  rw [Parser.ofModel]
  cases hmodel : s.currentModel with
  | none =>
    rw [onLastModel_none]
    · exact .ok (h.set_same hbe)
    · intro i type j mfg htype hmfg
      rw [hholds.currentModel htype hmfg] at hmodel
      exact Option.map_eq_none_iff.mp hmodel
  | some p =>
    rw [hholds.model] at hmodel
    obtain ⟨i, type, j, mfg, k, model, htype, hmfg, hlast, rfl⟩ := modelPlace_eq_some hmodel
    dsimp only
    rw [hholds.modifyModel htype hmfg hlast f rfl]
    exact .ok (h.update hbe (shape_onLastModel f be) rfl)

/-- A URL or a comment, if the levels are the same. -/
theorem change_matches (h : Agrees lag s d) (hbe : d.current = some be)
    (hlevel : s.currentLevel = d.level) (c : Change) :
    Matches lag (s.change (backendPlace be.name (sorted d.closed)) c)
      (some (d.set (be.change d.level c) d.level)) := by
  obtain ⟨hholds, hopened⟩ := h.current be hbe
  have hnext := h.update hbe (shape_change d.level c be) (name_change d.level c be)
  rw [Parser.change, hlevel]
  cases hd : d.level with
  | backend =>
    rw [hd] at hnext
    dsimp only
    rw [hholds.modifyBackend (c.backend be) rfl (c.backend_keeps be).1]
    exact .ok hnext
  | mfg =>
    rw [hd] at hnext hopened
    obtain ⟨i, type, j, mfg, htype, hmfg⟩ := hopened.mfg_entry
    dsimp only
    rw [hholds.currentMfg htype, hmfg, Option.map_some, deref, Option.elim_some, ok_bind,
      hholds.modifyMfg htype hmfg c.mfg rfl]
    exact .ok hnext
  | model =>
    rw [hd] at hnext hopened
    obtain ⟨i, type, j, mfg, k, model, htype, hmfg, hmodel⟩ := hopened.model_entry
    dsimp only
    rw [hholds.currentModel htype hmfg, hmodel, Option.map_some, deref, Option.elim_some, ok_bind,
      hholds.modifyModel htype hmfg hmodel c.model rfl]
    exact .ok hnext
  | desc =>
    rw [hd] at hnext hopened
    obtain ⟨i, type, desc, htype, hdesc⟩ := hopened.desc_entry
    dsimp only
    rw [hholds.currentType, htype, Option.map_some, deref, Option.elim_some, ok_bind,
      hholds.modifyType htype fun type => { type with desc := type.desc.map c.desc }]
    · exact .ok hnext
    · rw [hdesc]
      rfl

/-! ### Keywords that open an entity -/

/-- The pointers are set to the entities that are open now. -/
theorem Agrees.opens (h : Holds s d.closed be) {shape : Option (Nat × TypeShape)}
    (hshape : be'.shape = shape) (hname : be'.name = be.name) {p : Option TypePlace}
    (hp : p = typePlace (backendPlace be.name (sorted d.closed)) shape) {q : Option MfgPlace}
    (hq : q = mfgPlace (backendPlace be.name (sorted d.closed)) shape) {r : Option ModelPlace}
    (hr : r = modelPlace (backendPlace be.name (sorted d.closed)) shape) {l level : Level}
    (hopened : Opened level shape)
    (hl : lag ∧ level = .backend ∧ shape ≠ none ∨ l = level) :
    Agrees lag ⟨insertBackend (sorted d.closed) be', s.currentBackend, p, q, r, l⟩
      (d.set be' level) := by
  subst hshape
  rw [← hname] at hp hq hr
  refine .set ⟨rfl, ?_, hp, hq, hr⟩ hopened hl
  rw [hname]
  exact h.backend

theorem firstBackend_eq (h : Agrees lag s d) : s.firstBackend = sorted d.backends := by
  rw [Document.backends]
  cases hbe : d.current with
  | none =>
    rw [Option.toList_none, List.append_nil]
    exact (h.closed hbe).2
  | some be =>
    rw [Option.toList_some, sorted, List.foldl_append]
    exact (h.current be hbe).1.first

theorem openBackend_matches (h : Agrees lag s d) (name : CStr) :
    Agrees lag (s.openBackend name)
      { closed := d.backends, current := some { name := some name } } := by
  have hfirst := firstBackend_eq h
  constructor
  · intro hnone
    cases hnone
  · rintro _ ⟨⟩
    rw [Parser.openBackend, hfirst]
    refine ⟨⟨rfl, rfl, rfl, rfl, rfl⟩, ⟨?_, ?_⟩⟩
    · rintro _ _ ⟨⟩
    · rintro _ _ ⟨⟩
  · exact .inr rfl

theorem devicetype_matches (h : Agrees lag s d) (hbe : d.current = some be) (string : CStr)
    (hlag : lag ∨ s.currentLevel = .backend) :
    Matches lag (s.devicetype (backendPlace be.name (sorted d.closed)) string)
      ((deviceTypeOf string).map fun type =>
        d.set { be with type := be.type ++ [{ type := type }] } .backend) := by
  obtain ⟨hholds, -⟩ := h.current be hbe
  rw [Parser.devicetype, hholds.backendAt, ok_bind]
  cases deviceTypeOf string with
  | none => exact .failed
  | some type =>
    have hshape : BackendEntry.shape { be with type := be.type ++ [{ type := type }] } =
        some (be.type.length, ⟨type.isMeta, false, none⟩) := by
      rw [BackendEntry.shape, last?_concat]
      rfl
    dsimp only
    rw [hholds.modifyBackend { be with type := be.type ++ [{ type := type }] } rfl rfl, ok_bind]
    refine .ok (Agrees.opens hholds hshape rfl rfl rfl rfl ⟨?_, ?_⟩
      (hlag.imp_left fun hlag => ⟨hlag, rfl, Option.some_ne_none _⟩))
    · rintro _ _ ⟨⟩ -
      rfl
    · rintro _ _ ⟨⟩
      exact ⟨rfl, rfl⟩

theorem shape_of_last {i : Nat} {type : TypeEntry} (htype : last? be.type = some (i, type)) :
    be.shape = some (i, type.shape) := by
  rw [BackendEntry.shape, htype]
  rfl

/-- The type that changes is the last one. -/
theorem shape_of_onLastType {i : Nat} {type : TypeEntry} (htype : last? be.type = some (i, type))
    (f : TypeEntry → TypeEntry) : (be.onLastType f).shape = some (i, (f type).shape) := by
  rw [BackendEntry.shape, BackendEntry.onLastType, last?_onLast, htype]
  rfl

theorem desc_matches (h : Agrees lag s d) (hbe : d.current = some be) (string : CStr) :
    Matches lag (s.desc string) ((last? be.type).bind fun type =>
      if type.2.type.isMeta = true then
        some (d.set (be.onLastType fun type =>
          { type with desc := some { desc := some string } }) .desc)
      else none) := by
  obtain ⟨hholds, hopened⟩ := h.current be hbe
  rw [Parser.desc, hholds.currentType]
  cases htype : last? be.type with
  | none => exact .failed
  | some last =>
    obtain ⟨i, type⟩ := last
    rw [Option.map_some, Option.bind_some]
    dsimp only
    rw [hholds.typeAt htype, ok_bind]
    cases hmeta : type.type.isMeta with
    | false => exact .failed
    | true =>
      have hnone : type.shape.mfg = none :=
        hopened.noMfg i type.shape (shape_of_last htype) hmeta
      have hshape := shape_of_onLastType htype fun type =>
        { type with desc := some { desc := some string } }
      rw [if_neg (by decide), if_pos rfl, hholds.modifyType htype
        (fun type => { type with desc := some { desc := some string } }) rfl, ok_bind]
      refine .ok (Agrees.opens hholds hshape rfl ?_ ?_ ?_ ⟨?_, ?_⟩ (.inr rfl))
      · exact hholds.currentType.trans (congrArg _ htype)
      · change none = type.shape.mfg.map _
        rw [hnone]
        rfl
      · change none = type.shape.mfg.bind _
        rw [hnone]
        rfl
      · rintro _ _ ⟨⟩ -
        exact hnone
      · exact ⟨i, _, rfl, rfl⟩

theorem mfg_matches (h : Agrees lag s d) (hbe : d.current = some be) (string : CStr) :
    Matches lag (s.mfg string) ((last? be.type).bind fun type =>
      if type.2.type.isMeta = true then none
      else
        some (d.set (be.onLastType fun type =>
          { type with mfg := type.mfg ++ [{ name := some string }] }) .mfg)) := by
  obtain ⟨hholds, -⟩ := h.current be hbe
  rw [Parser.mfg, hholds.currentType]
  cases htype : last? be.type with
  | none => exact .failed
  | some last =>
    obtain ⟨i, type⟩ := last
    rw [Option.map_some, Option.bind_some]
    dsimp only
    rw [hholds.typeAt htype, ok_bind]
    cases hmeta : type.type.isMeta with
    | true => exact .failed
    | false =>
      have hshape := shape_of_onLastType htype fun type =>
        { type with mfg := type.mfg ++ [{ name := some string }] }
      have hlast : TypeEntry.shape { type with mfg := type.mfg ++ [{ name := some string }] } =
          ⟨type.type.isMeta, type.desc.isSome, some (type.mfg.length, none)⟩ := by
        rw [TypeEntry.shape, last?_concat]
        rfl
      rw [hlast] at hshape
      rw [if_neg (by decide), if_neg (by decide), hholds.modifyType htype
        (fun type => { type with mfg := type.mfg ++ [{ name := some string }] }) rfl, ok_bind]
      refine .ok (Agrees.opens hholds hshape rfl ?_ rfl rfl ⟨?_, ?_⟩ (.inr rfl))
      · exact hholds.currentType.trans (congrArg _ htype)
      · rintro _ _ ⟨⟩ hmeta'
        exact absurd (hmeta.symm.trans hmeta') (by decide)
      · exact ⟨i, _, _, rfl, rfl⟩

/-- A model needs a manufacturer, unless the level is that of one that is gone. -/
theorem model_matches (h : Agrees lag s d) (hbe : d.current = some be) (string : CStr)
    (huse : d.level = .backend → s.currentLevel ≠ .mfg ∧ s.currentLevel ≠ .model) :
    Matches lag (s.model string)
      (if d.level = .mfg ∨ d.level = .model then
        some (d.set (be.onLastMfg fun mfg =>
          { mfg with model := mfg.model ++ [{ name := some string }] }) .model)
      else none) := by
  obtain ⟨hholds, hopened⟩ := h.current be hbe
  rw [Parser.model]
  by_cases hlevel : d.level = .mfg ∨ d.level = .model
  · have hentry : ∃ i type j mfg, last? be.type = some (i, type) ∧
        last? type.mfg = some (j, mfg) := by
      rcases hlevel with hd | hd
      · rw [hd] at hopened
        exact hopened.mfg_entry
      · rw [hd] at hopened
        obtain ⟨i, type, j, mfg, _, _, htype, hmfg, -⟩ := hopened.model_entry
        exact ⟨i, type, j, mfg, htype, hmfg⟩
    have hsame : s.currentLevel = d.level := by
      refine h.level.resolve_left fun ⟨_, hd, _⟩ => ?_
      rw [hd] at hlevel
      rcases hlevel with hd | hd
      · cases hd
      · cases hd
    obtain ⟨i, type, j, mfg, htype, hmfg⟩ := hentry
    have hshape := shape_of_onLastType htype fun type => { type with
      mfg := onLast (fun mfg => { mfg with model := mfg.model ++ [{ name := some string }] })
        type.mfg }
    have hlast : TypeEntry.shape { type with mfg := onLast (fun mfg =>
        { mfg with model := mfg.model ++ [{ name := some string }] }) type.mfg } =
          ⟨type.type.isMeta, type.desc.isSome, some (j, some mfg.model.length)⟩ := by
      rw [TypeEntry.shape, last?_onLast, hmfg]
      change TypeShape.mk _ _ (some (j, (last? (mfg.model ++ _)).map Prod.fst)) = _
      rw [last?_concat]
      rfl
    rw [hlast] at hshape
    rw [if_pos hlevel, hholds.currentType, htype, Option.map_some]
    dsimp only
    rw [if_neg (by rw [hsame]; exact fun hne => hlevel.elim hne.1 hne.2), hholds.currentMfg htype,
      hmfg, Option.map_some, deref, Option.elim_some, ok_bind, hholds.mfgAt htype hmfg, ok_bind,
      hholds.modifyMfg htype hmfg
        (fun mfg => { mfg with model := mfg.model ++ [{ name := some string }] }) rfl, ok_bind]
    refine .ok (Agrees.opens hholds hshape rfl ?_ ?_ rfl ⟨?_, ?_⟩ (.inr rfl))
    · exact hholds.currentType.trans (congrArg _ htype)
    · exact (hholds.currentMfg htype).trans (congrArg _ hmfg)
    · rintro _ _ ⟨⟩ hmeta
      have hnone := hopened.noMfg i type.shape (shape_of_last htype) hmeta
      rw [TypeEntry.shape, hmfg] at hnone
      cases hnone
    · exact ⟨i, _, j, _, rfl, rfl⟩
  · rw [if_neg hlevel]
    cases s.currentType with
    | none => exact .failed
    | some p =>
      dsimp only
      rw [if_pos]
      · exact .failed
      rcases h.level with ⟨-, hd, -⟩ | hsame
      · exact huse hd
      · rw [hsame]
        exact not_or.mp hlevel

theorem status_matches (h : Agrees lag s d) (hbe : d.current = some be) (string : CStr)
    (huse : d.level = .backend → s.currentLevel ≠ .model) :
    Matches lag (s.status string)
      (if d.level = .model then
        (statusOf string).map fun status =>
          d.set (be.onLastModel fun model => { model with status := status }) .model
      else none) := by
  obtain ⟨hholds, hopened⟩ := h.current be hbe
  rw [Parser.status]
  by_cases hd : d.level = .model
  · have hsame : s.currentLevel = .model := by
      rw [← hd]
      refine h.level.resolve_left fun hback => ?_
      rw [hd] at hback
      cases hback.2.1
    rw [hd] at hopened
    obtain ⟨i, type, j, mfg, k, model, htype, hmfg, hmodel⟩ := hopened.model_entry
    rw [if_pos hd, hsame]
    dsimp only
    rw [hholds.currentModel htype hmfg, hmodel, Option.map_some, deref, Option.elim_some, ok_bind]
    cases hstatus : statusOf string with
    | none =>
      rw [hholds.modifyModel_error htype hmfg hmodel rfl]
      exact .failed
    | some status =>
      rw [hholds.modifyModel htype hmfg hmodel (fun model => { model with status := status }) rfl]
      have hnext := h.update hbe
        (shape_onLastModel (fun model => { model with status := status }) be) rfl
      rw [hd] at hnext
      exact .ok hnext
  · have hne : s.currentLevel ≠ .model := by
      rcases h.level with ⟨-, hback, -⟩ | hsame
      · exact huse hback
      · rwa [hsame]
    rw [if_neg hd]
    cases hlevel : s.currentLevel with
    | model => exact absurd hlevel hne
    | backend => exact .failed
    | mfg => exact .failed
    | desc => exact .failed

/-! ### All keywords -/

/-- The keyword uses the entity that the level names. -/
def Level.uses : Level → Keyword → Bool
  | .backend, _ => false
  | .model, .status _ => true
  | .mfg, .model _ => true
  | .model, .model _ => true
  | _, .url _ => true
  | _, .comment _ => true
  | _, _ => false

theorem Agrees.same (h : Agrees lag s d) (k : Keyword)
    (huse : d.level = .backend → s.currentLevel.uses k = false)
    (hk : ∀ level : Level, level.uses k = false → level = .backend) :
    s.currentLevel = d.level := by
  rcases h.level with ⟨-, hd, -⟩ | hsame
  · rw [hd]
    exact hk _ (huse hd)
  · exact hsame

theorem exec_matches (h : Agrees lag s d) (k : Keyword)
    (hlag : ∀ string, k = .devicetype string → lag ∨ s.currentLevel = .backend)
    (huse : d.current ≠ none → d.level = .backend → s.currentLevel.uses k = false) :
    Matches lag (s.exec k) (d.exec k) := by
  cases hbe : d.current with
  | none =>
    have hnone := (h.closed hbe).1
    cases k with
    | backend name => exact .ok (openBackend_matches h name)
    | _ =>
      simp only [Parser.exec, Document.exec, hbe, hnone]
      exact .failed
  | some be =>
    obtain ⟨hholds, hopened⟩ := h.current be hbe
    have hb := hholds.backend
    replace huse := huse (by rw [hbe]; exact Option.some_ne_none be)
    cases k with
    | backend name => exact .ok (openBackend_matches h name)
    | version string =>
      simp only [Parser.exec, Document.exec, hbe, hb]
      rw [hholds.modifyBackend { be with version := some string } rfl rfl]
      exact .ok (h.update hbe rfl rfl)
    | status string =>
      simp only [Parser.exec, Document.exec, hbe, hb]
      refine status_matches h hbe string fun hd hlevel => ?_
      have hused := huse hd
      rw [hlevel] at hused
      cases hused
    | new string =>
      simp only [Parser.exec, Document.exec, hbe, hb]
      cases hnew : newOf string with
      | none =>
        rw [Parser.modifyBackend, modifyAt_error hholds.getElem? rfl]
        exact .failed
      | some new =>
        simp only [Option.elim_some, Option.map_some]
        rw [hholds.modifyBackend { be with new := new } rfl rfl]
        exact .ok (h.update hbe rfl rfl)
    | manpage string =>
      simp only [Parser.exec, Document.exec, hbe, hb]
      rw [hholds.modifyBackend { be with manpage := some string } rfl rfl]
      exact .ok (h.update hbe rfl rfl)
    | devicetype string =>
      simp only [Parser.exec, Document.exec, hbe, hb]
      exact devicetype_matches h hbe string (hlag string rfl)
    | desc string =>
      simp only [Parser.exec, Document.exec, hbe, hb]
      exact desc_matches h hbe string
    | mfg string =>
      simp only [Parser.exec, Document.exec, hbe, hb]
      exact mfg_matches h hbe string
    | model string =>
      simp only [Parser.exec, Document.exec, hbe, hb]
      refine model_matches h hbe string fun hd => ⟨fun hlevel => ?_, fun hlevel => ?_⟩
      · have hused := huse hd
        rw [hlevel] at hused
        cases hused
      · have hused := huse hd
        rw [hlevel] at hused
        cases hused
    | interface string =>
      simp only [Parser.exec, Document.exec, hbe, hb]
      exact ofModel_matches h hbe _
    | scsi vendor product kind =>
      simp only [Parser.exec, Document.exec, hbe, hb]
      exact ofModel_matches h hbe _
    | usbid vendor product =>
      simp only [Parser.exec, Document.exec, hbe, hb]
      exact ofModel_matches h hbe _
    | url string =>
      simp only [Parser.exec, Document.exec, hbe, hb]
      refine change_matches h hbe (h.same (.url string) huse fun level hused => ?_) _
      cases level with
      | backend => rfl
      | _ => cases hused
    | comment string =>
      simp only [Parser.exec, Document.exec, hbe, hb]
      refine change_matches h hbe (h.same (.comment string) huse fun level hused => ?_) _
      cases level with
      | backend => rfl
      | _ => cases hused

end SaneBackends.SaneDesc

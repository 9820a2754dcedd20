import SaneBackends.DllBackends

/-!
# Names of devices in the dll backend

A name that `sane_get_devices` gives a device leads back to it when it is opened, and
opening any name calls a backend that is in the list and has been initialised, or fails;
the name of the dll backend itself is the exception.
-/

namespace SaneBackends

open LabelledRun

/-! ### Names -/

theorem cutAt_append {p : SaneByte → Bool} {front back : CStr} {c : SaneByte}
    (hfront : ∀ b ∈ front, p b = false) (hc : p c = true) :
    cutAt p (front ++ c :: back) = some (front, back) := by
  induction front with
  | nil => rw [List.nil_append, cutAt, if_pos hc]
  | cons b front ih =>
    have hb := hfront b List.mem_cons_self
    rw [List.cons_append, cutAt, if_neg (by rw [hb]; exact Bool.false_ne_true),
      ih fun d hd => hfront d (List.mem_cons_of_mem _ hd)]
    rfl

/-- A backend without a colon in its name is found in the names of its devices. -/
theorem splitName_plain {be dev : CStr} (hbe : colon ∉ be) :
    splitName (be ++ colon :: dev) = (be, dev) := by
  have hfront : ∀ b ∈ be, (b == colon) = false := by
    intro b hb
    apply beq_false_of_ne
    rintro rfl
    exact hbe hb
  rw [splitName, cutAt_append hfront (beq_self_eq_true colon)]
  rfl

/-- With a colon in it, a part of it goes to the name of the device. -/
theorem splitName_colon {be dev : CStr} (hbe : colon ∈ be) :
    (splitName (be ++ colon :: dev)).2 ≠ dev := by
  obtain ⟨front, back, rfl, hfront⟩ := List.eq_append_cons_of_mem hbe
  rw [List.append_assoc, List.cons_append, splitName_plain hfront]
  intro hlen
  have := congrArg List.length hlen
  rw [List.length_append, List.length_cons] at this
  omega

theorem matches_iff (a : DllAlias) (be dev : CStr) :
    a.matches be dev = true ↔ a.oldname = be ++ colon :: dev := by
  simp only [DllAlias.matches, Bool.and_eq_true, decide_eq_true_eq, beq_iff_eq]
  constructor
  · rintro ⟨⟨⟨hlen, hfront⟩, hcolon⟩, hback⟩
    have hdrop := List.drop_eq_getElem_cons hlen
    rw [List.getElem?_eq_getElem hlen, Option.some_inj] at hcolon
    rw [← List.take_append_drop be.length a.oldname, hfront, hdrop, hcolon, hback]
  · intro hold
    rw [hold]
    refine ⟨⟨⟨?_, ?_⟩, ?_⟩, ?_⟩
    · rw [List.length_append, List.length_cons]
      omega
    · exact List.take_left
    · rw [List.getElem?_append_right le_rfl, Nat.sub_self]
      rfl
    · rw [← List.drop_drop, List.drop_left]
      rfl

/-! ### The list of backends -/

/-- No two backends have the same name, and none is the dll backend. -/
structure BackendsOk (backends : List DllBackend) : Prop where
  distinct : (backends.map (·.name)).Nodup
  noDll : dllName ∉ backends.map (·.name)

theorem BackendsOk.of_names {bs bs' : List DllBackend} (h : BackendsOk bs)
    (hnames : bs'.map (·.name) = bs.map (·.name)) : BackendsOk bs' :=
  ⟨hnames ▸ h.distinct, hnames ▸ h.noDll⟩

/-- A backend of this name is in the list and has been initialised. -/
def Initialised (backends : List DllBackend) (name : CStr) : Prop :=
  ∃ be ∈ backends, be.name = name ∧ be.inited = true

theorem loadBackend_name (code : BackendCode) (be : DllBackend) :
    (loadBackend code be).2.name = be.name := by
  unfold loadBackend
  split <;> rfl

theorem loadOnce_name (code : BackendCode) (be : DllBackend) :
    (loadOnce code be).2.name = be.name := by
  unfold loadOnce
  split_ifs
  · rfl
  · exact loadBackend_name code be

theorem callInit_name (code : BackendCode) (be : DllBackend) :
    (callInit code be).2.name = be.name := by
  unfold callInit
  split_ifs <;> rfl

theorem ensureInited_name (code : BackendCode) (be : DllBackend) :
    (ensureInited code be).2.name = be.name := by
  unfold ensureInited initBackend
  split_ifs
  · rfl
  · exact loadOnce_name code be
  · exact (callInit_name code _).trans (loadOnce_name code be)

theorem callInit_good {code : BackendCode} {be : DllBackend}
    (h : (callInit code be).1 = .good) : (callInit code be).2.inited = true := by
  unfold callInit at h ⊢
  split_ifs at h ⊢ with hstatus hmajor
  · exact absurd h hstatus
  · rfl

theorem ensureInited_good {code : BackendCode} {be : DllBackend}
    (h : (ensureInited code be).1 = .good) : (ensureInited code be).2.inited = true := by
  unfold ensureInited initBackend at h ⊢
  split_ifs at h ⊢ with hinited hstatus
  · exact hinited
  · exact absurd h hstatus
  · exact callInit_good h

theorem ensureInited_of_inited {code : BackendCode} {be : DllBackend} (h : be.inited = true) :
    ensureInited code be = (.good, be) := if_pos h

theorem backendDevices_name (code : BackendCode) (localOnly : Bool) (aliases : List DllAlias)
    (be : DllBackend) : (backendDevices code localOnly aliases be).2.name = be.name := by
  unfold backendDevices
  dsimp only
  split_ifs <;> exact ensureInited_name code be

/-- A backend is moved to the front of the list, or a new one is put there. -/
theorem addBackend_list (memory : DllMemory) (name : CStr) (backends : List DllBackend) :
    (addBackend memory name backends).2.2.Perm backends ∨
      name ≠ dllName ∧ name ∉ backends.map (·.name) ∧
        (addBackend memory name backends).2.2 = ⟨name, false, false, []⟩ :: backends := by
  unfold addBackend
  by_cases hdll : name = dllName
  · rw [if_pos hdll]
    exact .inl (List.Perm.refl _)
  · rw [if_neg hdll]
    cases hfind : backends.find? (·.name == name) with
    | some be =>
      obtain ⟨hname, before, behind, rfl, hbefore⟩ := List.find?_eq_some_iff_append.mp hfind
      have herase : (before ++ be :: behind).eraseP (·.name == name) = before ++ behind := by
        rw [List.eraseP_append_right _ fun b hb => by simpa using hbefore b hb,
          List.eraseP_cons_of_pos (by exact hname)]
      simp only [herase]
      exact .inl List.perm_middle.symm
    | none =>
      have hnew : name ∉ backends.map (·.name) := by
        intro hmem
        obtain ⟨b, hb, hbname⟩ := List.mem_map.mp hmem
        exact absurd (beq_iff_eq.mpr hbname) (List.find?_eq_none.mp hfind b hb)
      simp only
      split_ifs
      · exact .inl (List.Perm.refl _)
      · exact .inl (List.Perm.refl _)
      · exact .inr ⟨hdll, hnew, rfl⟩

theorem addBackend_ok {memory : DllMemory} {name : CStr} {backends : List DllBackend}
    (h : BackendsOk backends) : BackendsOk (addBackend memory name backends).2.2 := by
  rcases addBackend_list memory name backends with hperm | ⟨hdll, hnew, heq⟩
  · have hnames := hperm.map (·.name)
    exact ⟨hnames.nodup_iff.mpr h.distinct, fun hmem => h.noDll (hnames.mem_iff.mp hmem)⟩
  · rw [heq]
    refine ⟨List.nodup_cons.mpr ⟨hnew, h.distinct⟩, ?_⟩
    intro hmem
    rcases List.mem_cons.mp hmem with hname | hmem
    · exact hdll hname.symm
    · exact h.noDll hmem

/-- No backend is lost. -/
theorem mem_addBackend {memory : DllMemory} {name : CStr} {backends : List DllBackend}
    {be : DllBackend} (h : be ∈ backends) : be ∈ (addBackend memory name backends).2.2 := by
  rcases addBackend_list memory name backends with hperm | ⟨-, -, heq⟩
  · exact hperm.mem_iff.mpr h
  · rw [heq]
    exact List.mem_cons_of_mem _ h

/-- The entry of a backend that is in the list is found. -/
theorem searchBackend_of_mem {backends : List DllBackend} {be : DllBackend}
    (h : BackendsOk backends) (hmem : be ∈ backends)
    (hfirst : be.name = [] → backends.head?.map (·.name) = some []) :
    ∃ i, searchBackend backends be.name = some i ∧ backends[i]? = some be := by
  have hsame : ∀ b ∈ backends, b.name = be.name → b = be :=
    fun b hb hname => List.inj_on_of_nodup_map h.distinct hb hmem hname
  unfold searchBackend
  split_ifs with hname hnone
  · subst hnone
    cases hmem
  · obtain ⟨b, hb, hbname⟩ := Option.map_eq_some_iff.mp (hfirst hname)
    refine ⟨0, rfl, ?_⟩
    rw [← List.head?_eq_getElem?, hb, hsame b (List.mem_of_mem_head? hb) (hbname.trans hname.symm)]
  · cases hfind : backends.findIdx? (·.name == be.name) with
    | none =>
      have := List.findIdx?_eq_none_iff.mp hfind be hmem
      simp at this
    | some i =>
      obtain ⟨hi, hbname, -⟩ := List.findIdx?_eq_some_iff_getElem.mp hfind
      refine ⟨i, rfl, ?_⟩
      rw [List.getElem?_eq_getElem hi, hsame _ (List.getElem_mem hi) (beq_iff_eq.mp hbname)]

/-- Unless it is the dll backend, a backend is found or added, or there is no memory. -/
theorem locateBackend_cases {memory : DllMemory} {name : CStr} {backends : List DllBackend}
    (hname : name ≠ dllName) :
    (locateBackend memory name backends).1 ≠ .good ∨
      ∃ i be, (locateBackend memory name backends).2.1 = some i ∧
        (locateBackend memory name backends).2.2[i]? = some be := by
  unfold locateBackend
  cases hsearch : searchBackend backends name with
  | some i =>
    right
    unfold searchBackend at hsearch
    split_ifs at hsearch with hnil hnone
    · cases hsearch
      obtain ⟨b, bs, rfl⟩ := List.exists_cons_of_ne_nil hnone
      exact ⟨0, b, rfl, rfl⟩
    · obtain ⟨hi, -⟩ := List.findIdx?_eq_some_iff_getElem.mp hsearch
      exact ⟨i, _, rfl, List.getElem?_eq_getElem hi⟩
  | none =>
    unfold addBackend
    simp only
    rw [if_neg hname]
    cases backends.find? (·.name == name) with
    | some be => exact .inr ⟨0, be, rfl, rfl⟩
    | none =>
      simp only
      split_ifs
      · exact .inl nofun
      · exact .inl nofun
      · exact .inr ⟨0, _, rfl, rfl⟩

/-- The dll backend is not in the list and is not added, and that counts as a success. -/
theorem locateBackend_dll {memory : DllMemory} {backends : List DllBackend}
    (h : BackendsOk backends) :
    locateBackend memory dllName backends = (.good, none, backends) := by
  have hsearch : searchBackend backends dllName = none := by
    unfold searchBackend
    rw [if_neg (by decide)]
    apply List.findIdx?_eq_none_iff.mpr
    intro b hb
    apply beq_false_of_ne
    intro hname
    exact h.noDll (hname ▸ List.mem_map_of_mem hb)
  rw [locateBackend, hsearch]
  exact if_pos rfl

theorem locateBackend_ok {memory : DllMemory} {name : CStr} {backends : List DllBackend}
    (h : BackendsOk backends) : BackendsOk (locateBackend memory name backends).2.2 := by
  unfold locateBackend
  split
  · exact h
  · exact addBackend_ok h

theorem mem_locateBackend {memory : DllMemory} {name : CStr} {backends : List DllBackend}
    {be : DllBackend} (h : be ∈ backends) : be ∈ (locateBackend memory name backends).2.2 := by
  unfold locateBackend
  split
  · exact h
  · exact mem_addBackend h

/-! ### Opening -/

theorem callOpen_snd (code : BackendCode) (memory : DllMemory) (be : DllBackend) (dev : CStr) :
    (callOpen code memory be dev).2 = (ensureInited code be).2 := by
  unfold callOpen
  dsimp only
  split_ifs <;> rfl

/-- A backend is called after it has been initialised, and otherwise the call fails. -/
theorem callOpen_cases (code : BackendCode) (memory : DllMemory) (be : DllBackend) (dev : CStr) :
    ((callOpen code memory be dev).1.dispatched = none ∧
        (callOpen code memory be dev).1.status ≠ .good) ∨
      ((callOpen code memory be dev).1.dispatched = some ((ensureInited code be).2, dev) ∧
        (ensureInited code be).2.inited = true) := by
  unfold callOpen
  dsimp only
  by_cases hinited : (ensureInited code be).1 = .good
  · rw [if_neg (not_not.mpr hinited)]
    exact .inr ⟨rfl, ensureInited_good hinited⟩
  · rw [if_pos hinited]
    exact .inl ⟨rfl, hinited⟩

/-- What `sane_open` does with the name: `beName` and `devName` are its parts. -/
theorem dllOpen_cases (code : BackendCode) (memory : DllMemory) {fullName beName devName : CStr}
    {s : DllState} (hnames : splitName (resolveName s.aliases fullName) = (beName, devName)) :
    ((locateBackend memory beName s.backends).1 ≠ .good ∧
      dllOpen code memory fullName s = .ok (⟨(locateBackend memory beName s.backends).1, none⟩,
        ⟨(locateBackend memory beName s.backends).2.2, s.aliases⟩)) ∨
    ((locateBackend memory beName s.backends).1 = .good ∧
      (∀ i, (locateBackend memory beName s.backends).2.1 = some i →
        (locateBackend memory beName s.backends).2.2[i]? = none) ∧
      dllOpen code memory fullName s = .error .missingBackend) ∨
    ∃ i be, (locateBackend memory beName s.backends).2.1 = some i ∧
      (locateBackend memory beName s.backends).2.2[i]? = some be ∧
      dllOpen code memory fullName s = .ok ((callOpen code memory be devName).1,
        ⟨(locateBackend memory beName s.backends).2.2.set i (ensureInited code be).2,
          s.aliases⟩) := by
  unfold dllOpen
  rw [hnames]
  dsimp only
  split_ifs with hstatus
  · exact .inl ⟨hstatus, rfl⟩
  · right
    rw [not_not] at hstatus
    cases hplace : (locateBackend memory beName s.backends).2.1 with
    | none => exact .inl ⟨hstatus, nofun, rfl⟩
    | some i =>
      cases hbe : (locateBackend memory beName s.backends).2.2[i]? with
      | none =>
        left
        refine ⟨hstatus, ?_, ?_⟩
        · intro j hj
          cases hj
          exact hbe
        · simp only [Option.bind_some, hbe]
          rfl
      | some be =>
        right
        refine ⟨i, be, rfl, hbe, ?_⟩
        simp only [Option.bind_some, hbe, Option.map_some]
        rw [callOpen_snd]

/-- Opening changes no name in the list and loses no backend that has been initialised. -/
theorem dllOpen_keeps {code : BackendCode} {memory : DllMemory} {fullName : CStr}
    {s s' : DllState} {r : DllOpened} (h : BackendsOk s.backends)
    (hopen : dllOpen code memory fullName s = .ok (r, s')) :
    BackendsOk s'.backends ∧ s'.aliases = s.aliases ∧
      ∀ name, Initialised s.backends name → Initialised s'.backends name := by
  cases hnames : splitName (resolveName s.aliases fullName) with | mk beName devName =>
  have hlocated := @locateBackend_ok memory beName s.backends h
  rcases dllOpen_cases code memory hnames with ⟨-, heq⟩ | ⟨-, -, heq⟩ | ⟨i, be, -, hbe, heq⟩
  · rw [heq] at hopen
    cases hopen
    refine ⟨hlocated, rfl, ?_⟩
    rintro name ⟨b, hb, hname, hinited⟩
    exact ⟨b, mem_locateBackend hb, hname, hinited⟩
  · rw [heq] at hopen
    cases hopen
  · rw [heq] at hopen
    cases hopen
    obtain ⟨hi, hget⟩ := List.getElem?_eq_some_iff.mp hbe
    have hname : (ensureInited code be).2.name = be.name := ensureInited_name code be
    refine ⟨hlocated.of_names ?_, rfl, ?_⟩
    · rw [List.map_set, hname, ← hget]
      have hself := @List.set_getElem_self _
        ((locateBackend memory beName s.backends).2.2.map (·.name)) _ (by simpa using hi)
      rwa [List.getElem_map] at hself
    · rintro name ⟨b, hb, hbname, hinited⟩
      have hmem := @mem_locateBackend memory beName s.backends b hb
      rcases eq_or_ne b be with rfl | hne
      · refine ⟨b, ?_, hbname, hinited⟩
        rw [ensureInited_of_inited hinited]
        exact List.mem_set hi _
      · obtain ⟨j, hj, hjb⟩ := List.mem_iff_getElem.mp hmem
        refine ⟨b, ?_, hbname, hinited⟩
        apply List.mem_iff_getElem?.mpr
        refine ⟨j, ?_⟩
        rw [List.getElem?_set_ne, List.getElem?_eq_getElem hj, hjb]
        rintro rfl
        exact hne (hjb.symm.trans hget)

theorem getDevices_keeps {code : BackendCode} {localOnly : Bool} {s : DllState}
    (h : BackendsOk s.backends) :
    BackendsOk (dllGetDevices code localOnly s).2.backends ∧
      ∀ name, Initialised s.backends name →
        Initialised (dllGetDevices code localOnly s).2.backends name := by
  constructor
  · apply h.of_names
    rw [dllGetDevices, List.map_map, List.map_map]
    apply List.map_congr_left
    intro be _
    exact backendDevices_name code localOnly s.aliases be
  · rintro name ⟨b, hb, hname, hinited⟩
    refine ⟨b, ?_, hname, hinited⟩
    rw [dllGetDevices, List.map_map]
    refine List.mem_map.mpr ⟨b, hb, ?_⟩
    rw [Function.comp_apply, backendDevices, ensureInited_of_inited hinited]
    rfl

/-- Opening a name is safe: the call fails, or it has called a backend that is in the list
    and has been initialised. -/
def OpensSafely (code : BackendCode) (memory : DllMemory) (fullName : CStr) (s : DllState) :
    Prop :=
  ∃ r s', dllOpen code memory fullName s = .ok (r, s') ∧
    (r.dispatched = none → r.status ≠ .good) ∧
    ∀ be dev, r.dispatched = some (be, dev) → be ∈ s'.backends ∧ be.inited = true

theorem opensSafely_iff (code : BackendCode) (memory : DllMemory) (fullName : CStr)
    {s : DllState} (h : BackendsOk s.backends) :
    OpensSafely code memory fullName s ↔
      (splitName (resolveName s.aliases fullName)).1 ≠ dllName := by
  cases hnames : splitName (resolveName s.aliases fullName) with | mk beName devName =>
  constructor
  · rintro ⟨r, s', hopen, -⟩ rfl
    rw [dllOpen, hnames, locateBackend_dll h] at hopen
    cases hopen
  · intro hname
    rcases dllOpen_cases code memory hnames with
      ⟨hstatus, heq⟩ | ⟨hstatus, hnone, -⟩ | ⟨i, be, -, hbe, heq⟩
    · exact ⟨_, _, heq, fun _ => hstatus, nofun⟩
    · rcases @locateBackend_cases memory beName s.backends hname with hbad | ⟨i, be, hi, hbe⟩
      · exact absurd hstatus hbad
      · rw [hnone i hi] at hbe
        cases hbe
    · obtain ⟨hi, -⟩ := List.getElem?_eq_some_iff.mp hbe
      rcases callOpen_cases code memory be devName with ⟨hnone, hstatus⟩ | ⟨hcalled, hinited⟩
      · refine ⟨_, _, heq, fun _ => hstatus, ?_⟩
        intro b dev hb
        rw [hnone] at hb
        cases hb
      · refine ⟨_, _, heq, ?_, ?_⟩
        · intro hnone
          rw [hcalled] at hnone
          cases hnone
        · intro b dev hb
          rw [hcalled] at hb
          cases hb
          exact ⟨List.mem_set hi _, hinited⟩

theorem DllOp.exec_ok {s s' : DllState} {op : DllOp} (h : BackendsOk s.backends)
    (hexec : op.exec s = some s') : BackendsOk s'.backends := by
  cases op with
  | addBackend memory name =>
    cases hexec
    exact addBackend_ok h
  | addAlias memory line =>
    cases hexec
    unfold SaneBackends.addAlias
    split
    · split_ifs <;> exact h
    · exact h
  | getDevices code localOnly =>
    cases hexec
    exact (getDevices_keeps h).1
  | openDevice code memory fullName =>
    rw [DllOp.exec] at hexec
    split at hexec
    · rename_i r s'' hopen
      cases hexec
      exact (dllOpen_keeps h hopen).1
    · cases hexec

theorem dllRun_ok {preloaded : List CStr} {ops : List DllOp} {s : DllState}
    (hdistinct : preloaded.Nodup) (hdll : dllName ∉ preloaded)
    (hrun : DllRun (.initial preloaded) ops s) : BackendsOk s.backends := by
  have hnames : (DllState.initial preloaded).backends.map (·.name) = preloaded := by
    rw [DllState.initial, List.map_map]
    exact List.map_id _
  refine hrun.invariant (I := fun s => BackendsOk s.backends) ?_ fun _ _ _ => DllOp.exec_ok
  exact ⟨hnames.symm ▸ hdistinct, hnames.symm ▸ hdll⟩

/-- The calls leave the aliases as they are and lose no backend. -/
theorem calls_keep {s s' : DllState} {calls : List DllOp} (h : BackendsOk s.backends)
    (hcalls : ∀ op ∈ calls, op.IsCall) (hrun : DllRun s calls s') :
    BackendsOk s'.backends ∧ s'.aliases = s.aliases ∧
      ∀ name, Initialised s.backends name → Initialised s'.backends name := by
  have hinv := hrun.history (I := fun is s' => (∀ op ∈ is, op.IsCall) → BackendsOk s'.backends ∧
    s'.aliases = s.aliases ∧ ∀ name, Initialised s.backends name → Initialised s'.backends name)
  refine hinv ?_ ?_ hcalls
  · exact fun _ => ⟨h, rfl, fun _ hname => hname⟩
  · intro is u op u' ih hexec hall
    obtain ⟨hok, haliases, hkeep⟩ := ih fun op hop => hall op (List.mem_append_left _ hop)
    cases op with
    | addBackend memory name => exact (hall _ (List.mem_append_right _ List.mem_cons_self)).elim
    | addAlias memory line => exact (hall _ (List.mem_append_right _ List.mem_cons_self)).elim
    | getDevices code localOnly =>
      cases hexec
      obtain ⟨hok', hkeep'⟩ := @getDevices_keeps code localOnly u hok
      exact ⟨hok', haliases, fun name hname => hkeep' name (hkeep name hname)⟩
    | openDevice code memory fullName =>
      rw [DllOp.exec] at hexec
      split at hexec
      · rename_i r u'' hopen
        cases hexec
        obtain ⟨hok', haliases', hkeep'⟩ := dllOpen_keeps hok hopen
        exact ⟨hok', haliases'.trans haliases, fun name hname => hkeep' name (hkeep name hname)⟩
      · cases hexec

/-! ### Listing -/

/-- No two aliases give the same new name. -/
def AliasesDistinct (aliases : List DllAlias) : Prop :=
  aliases.Pairwise fun a b => a.newname.isSome → a.newname ≠ b.newname

theorem alias_unique {aliases : List DllAlias} (h : AliasesDistinct aliases) {a b : DllAlias}
    {newname : CStr} (ha : a ∈ aliases) (hb : b ∈ aliases) (hanew : a.newname = some newname)
    (hbnew : b.newname = some newname) : a = b := by
  induction aliases with
  | nil => cases ha
  | cons x xs ih =>
    obtain ⟨hx, hxs⟩ := List.pairwise_cons.mp h
    rcases List.mem_cons.mp ha with hax | ha'
    · rcases List.mem_cons.mp hb with hbx | hb'
      · rw [hax, hbx]
      · exact absurd (hanew.trans hbnew.symm) (hax ▸ hx b hb' (hax ▸ hanew ▸ rfl))
    · rcases List.mem_cons.mp hb with hbx | hb'
      · exact absurd (hbnew.trans hanew.symm) (hbx ▸ hx a ha' (hbx ▸ hbnew ▸ rfl))
      · exact ih hxs ha' hb'

theorem listDevice_origin {aliases : List DllAlias} {be : CStr} {dev : DllDevice} {e : DllEntry}
    (hlist : listDevice aliases be dev = some e) : e.backend = be ∧ e.device = dev := by
  unfold listDevice at hlist
  split at hlist
  · obtain ⟨newname, -, rfl⟩ := Option.map_eq_some_iff.mp hlist
    exact ⟨rfl, rfl⟩
  · cases hlist
    exact ⟨rfl, rfl⟩

/-- The name of a device that is listed resolves to the backend and the name it comes from. -/
theorem resolveName_listed {aliases : List DllAlias} {be : CStr} {dev : DllDevice} {e : DllEntry}
    (hdistinct : AliasesDistinct aliases) (hlist : listDevice aliases be dev = some e)
    (hdiffer : e.listed.name = be ++ colon :: dev.name →
      ∀ a ∈ aliases, a.newname ≠ some e.listed.name) :
    resolveName aliases e.listed.name = be ++ colon :: dev.name := by
  unfold listDevice at hlist
  cases hfind : aliases.find? (·.matches be dev.name) with
  | some a =>
    rw [hfind] at hlist
    obtain ⟨newname, hnew, rfl⟩ := Option.map_eq_some_iff.mp hlist
    have hmatch := List.find?_some hfind
    have hold := (matches_iff a be dev.name).mp hmatch
    unfold resolveName
    cases hsearch : aliases.find? (·.newname == some newname) with
    | none =>
      have := List.find?_eq_none.mp hsearch a (List.mem_of_find?_eq_some hfind)
      exact absurd (beq_iff_eq.mpr hnew) this
    | some b =>
      have hbnew := List.find?_some hsearch
      have hsame := alias_unique hdistinct (List.mem_of_find?_eq_some hfind)
        (List.mem_of_find?_eq_some hsearch) hnew (beq_iff_eq.mp hbnew)
      rw [← hsame]
      exact hold
  | none =>
    rw [hfind] at hlist
    cases hlist
    have hnone : aliases.find? (·.newname == some (be ++ colon :: dev.name)) = none := by
      apply List.find?_eq_none.mpr
      intro a ha hnew
      exact hdiffer rfl a ha (beq_iff_eq.mp hnew)
    rw [resolveName, hnone]

/-- A device is listed for a backend that has been initialised. -/
theorem getDevices_listed {code : BackendCode} {localOnly : Bool} {s : DllState} {e : DllEntry}
    (he : e ∈ (dllGetDevices code localOnly s).1) :
    ∃ be dev, listDevice s.aliases be dev = some e ∧
      Initialised (dllGetDevices code localOnly s).2.backends be := by
  obtain ⟨visit, hvisit, hentry⟩ := List.mem_flatMap.mp he
  obtain ⟨be, hbe, rfl⟩ := List.mem_map.mp hvisit
  have hname := backendDevices_name code localOnly s.aliases be
  have hmem : (backendDevices code localOnly s.aliases be).2 ∈
      (dllGetDevices code localOnly s).2.backends := List.mem_map_of_mem hvisit
  unfold backendDevices at hentry hmem
  dsimp only at hentry hmem
  split_ifs at hentry hmem with hstatus
  · cases hentry
  · unfold listDevices at hentry
    dsimp only at hentry
    split at hentry
    · obtain ⟨dev, -, hlist⟩ := List.mem_filterMap.mp hentry
      refine ⟨_, dev, hlist, _, hmem, rfl, ensureInited_good (not_not.mp hstatus)⟩
    · cases hentry

/-- Opening a name calls the backend `be`, which is in the list and has been initialised,
    with the name `dev`. -/
def OpensAs (s : DllState) (be dev fullName : CStr) : Prop :=
  ∀ code memory, ∃ status b s', dllOpen code memory fullName s =
    .ok (⟨status, some (b, dev)⟩, s') ∧ b.name = be ∧ b ∈ s'.backends ∧ b.inited = true

/-- The name of a backend can be given in a name: it has no colon, and an empty one is the
    name of the first backend. -/
def DllState.Addressable (s : DllState) (be : CStr) : Prop :=
  colon ∉ be ∧ (be = [] → s.backends.head?.map (·.name) = some [])

/-- The backend that has been called is the one that has been located. -/
theorem dllOpen_dispatched {code : BackendCode} {memory : DllMemory}
    {fullName beName devName dev : CStr} {s s' : DllState} {r : DllOpened} {b : DllBackend}
    (hnames : splitName (resolveName s.aliases fullName) = (beName, devName))
    (hopen : dllOpen code memory fullName s = .ok (r, s')) (hr : r.dispatched = some (b, dev)) :
    dev = devName ∧ ∃ i be, (locateBackend memory beName s.backends).2.1 = some i ∧
      (locateBackend memory beName s.backends).2.2[i]? = some be ∧ be.name = b.name := by
  rcases dllOpen_cases code memory hnames with
    ⟨-, heq⟩ | ⟨-, -, heq⟩ | ⟨i, be, hi, hbe, heq⟩
  · rw [heq] at hopen
    cases hopen
    cases hr
  · rw [heq] at hopen
    cases hopen
  · rw [heq] at hopen
    cases hopen
    rcases callOpen_cases code memory be devName with ⟨hnone, -⟩ | ⟨hcalled, -⟩
    · rw [hnone] at hr
      cases hr
    · rw [hcalled] at hr
      cases hr
      exact ⟨rfl, i, be, hi, hbe, (ensureInited_name code be).symm⟩

theorem callOpen_inited {code : BackendCode} {memory : DllMemory} {be : DllBackend} {dev : CStr}
    (h : be.inited = true) :
    (callOpen code memory be dev).1 = ⟨(callOpen code memory be dev).1.status, some (be, dev)⟩ := by
  unfold callOpen
  rw [ensureInited_of_inited h]
  rfl

theorem opensAs_iff {s : DllState} {be dev fullName : CStr} (h : BackendsOk s.backends)
    (hinit : Initialised s.backends be)
    (hresolve : resolveName s.aliases fullName = be ++ colon :: dev) :
    OpensAs s be dev fullName ↔ s.Addressable be := by
  obtain ⟨b, hb, rfl, hinited⟩ := hinit
  constructor
  · intro hopens
    obtain ⟨status, b', s', hopen, hname, -⟩ :=
      hopens ⟨fun _ => .inval, fun _ => (.inval, 0), fun _ _ => (.inval, none), fun _ _ => .inval⟩
        ⟨true, true, true, true⟩
    have hcolon : colon ∉ b.name := by
      intro hmem
      obtain ⟨hdev, -⟩ := dllOpen_dispatched (Prod.mk.eta.symm) hopen rfl
      rw [hresolve] at hdev
      exact splitName_colon hmem hdev.symm
    refine ⟨hcolon, ?_⟩
    intro hnil
    have hnames : splitName (resolveName s.aliases fullName) = (b.name, dev) :=
      hresolve ▸ splitName_plain hcolon
    obtain ⟨-, i, be, hi, hbe, hbename⟩ := dllOpen_dispatched hnames hopen rfl
    have hlocate : locateBackend ⟨true, true, true, true⟩ b.name s.backends =
        (.good, some 0, s.backends) := by
      rw [locateBackend, searchBackend, if_pos hnil, if_neg (List.ne_nil_of_mem hb)]
    rw [hlocate] at hi hbe
    cases hi
    rw [List.head?_eq_getElem?, hbe, Option.map_some, hbename, hname, hnil]
  · rintro ⟨hcolon, hfirst⟩ code memory
    have hnames : splitName (resolveName s.aliases fullName) = (b.name, dev) :=
      hresolve ▸ splitName_plain hcolon
    obtain ⟨i, hsearch, hget⟩ := searchBackend_of_mem h hb hfirst
    obtain ⟨hi, -⟩ := List.getElem?_eq_some_iff.mp hget
    have hlocate : locateBackend memory b.name s.backends = (.good, some i, s.backends) := by
      rw [locateBackend, hsearch]
    refine ⟨(callOpen code memory b dev).1.status, b,
      ⟨s.backends.set i (callOpen code memory b dev).2, s.aliases⟩, ?_, rfl, ?_, hinited⟩
    · unfold dllOpen
      rw [hnames, ← callOpen_inited hinited]
      simp only [hlocate, Option.bind_some, hget, Option.map_some]
      rfl
    · rw [callOpen_snd, ensureInited_of_inited hinited]
      exact List.mem_set hi _

/-- Every device that is listed is opened by its name, at any later time, if and only if the
    name of its backend can be given in a name; and opening a name is safe if and only if it
    is not resolved to a device of the dll backend itself. -/
theorem dll_names {preloaded : List CStr} {ops : List DllOp} {s : DllState}
    (hpreloaded : preloaded.Nodup) (hdll : dllName ∉ preloaded)
    (hrun : DllRun (.initial preloaded) ops s) :
    (∀ code localOnly calls s', AliasesDistinct s.aliases →
      (∀ e ∈ (dllGetDevices code localOnly s).1,
        e.listed.name = e.backend ++ colon :: e.device.name →
          ∀ a ∈ s.aliases, a.newname ≠ some e.listed.name) →
      (∀ op ∈ calls, DllOp.IsCall op) → DllRun (dllGetDevices code localOnly s).2 calls s' →
      ∀ e ∈ (dllGetDevices code localOnly s).1,
        (OpensAs s' e.backend e.device.name e.listed.name ↔ s'.Addressable e.backend)) ∧
    ∀ code memory fullName, OpensSafely code memory fullName s ↔
      (splitName (resolveName s.aliases fullName)).1 ≠ dllName := by
  have hok := dllRun_ok hpreloaded hdll hrun
  refine ⟨?_, fun code memory fullName => opensSafely_iff code memory fullName hok⟩
  intro code localOnly calls s' hdistinct hdiffer hcalls hlater e he
  obtain ⟨be, dev, hlist, hinit⟩ := getDevices_listed he
  obtain ⟨hok', haliases, hkeep⟩ := calls_keep (getDevices_keeps hok).1 hcalls hlater
  obtain ⟨rfl, rfl⟩ := listDevice_origin hlist
  have hresolve := resolveName_listed hdistinct hlist (hdiffer e he)
  have haliases' : s'.aliases = s.aliases := haliases
  exact opensAs_iff hok' (hkeep _ hinit) (haliases' ▸ hresolve)

/-- Backends that all have the device `d`. -/
def BackendCode.oneDevice : BackendCode where
  load _ := .found [.init, .getDevs, .openDevice]
  init _ := (.good, 0x01000000)
  getDevices _ _ := (.good, some [⟨ascii ['d'], .null, .null, .null⟩])
  openDevice _ _ := .good

/-- The line `alias x a:d` for the device `d` of the backend `a`. -/
theorem dll_names_alias :
    ∃ s, DllRun (.initial []) [.addBackend ⟨true, true, true, true⟩ (ascii ['a']),
        .addAlias ⟨true, true, true, true⟩
          (ascii ['a', 'l', 'i', 'a', 's', ' ', 'x', ' ', 'a', ':', 'd'])] s ∧
      OpensAs (dllGetDevices .oneDevice true s).2 (ascii ['a']) (ascii ['d']) (ascii ['x']) := by
  have hrun : DllRun (.initial []) [.addBackend ⟨true, true, true, true⟩ (ascii ['a']),
      .addAlias ⟨true, true, true, true⟩
        (ascii ['a', 'l', 'i', 'a', 's', ' ', 'x', ' ', 'a', ':', 'd'])]
      ⟨[⟨ascii ['a'], false, false, []⟩], [⟨ascii ['a', ':', 'd'], some (ascii ['x'])⟩]⟩ :=
    (Run.nil.snoc rfl).snoc rfl
  refine ⟨_, hrun, ?_⟩
  have hall := (dll_names List.nodup_nil (List.not_mem_nil) hrun).1 .oneDevice true [] _
    (List.pairwise_singleton _ _) (by decide) (List.forall_mem_nil _) Run.nil
  refine (hall ⟨ascii ['a'], ⟨ascii ['d'], .null, .null, .null⟩,
    ⟨ascii ['x'], .null, .null, .null⟩⟩ ?_).mpr ⟨by decide, nofun⟩
  exact List.mem_singleton.mpr rfl

/-- The name of the dll backend itself: an entry that is missing is followed. -/
theorem dll_names_dll :
    ¬ OpensSafely .oneDevice ⟨true, true, true, true⟩ dllName (.initial []) := by
  rintro ⟨r, s', hopen, -⟩
  have herror : dllOpen .oneDevice ⟨true, true, true, true⟩ dllName (.initial []) =
      .error .missingBackend := by decide
  rw [herror] at hopen
  cases hopen

end SaneBackends

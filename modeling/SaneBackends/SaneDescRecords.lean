import SaneBackends.PriorityInsert
import SaneBackends.SaneDesc
import SaneBackends.ThreeWay

/-!
# The model lists of `sane-desc`

`string_compare` compares keys: at each position of a string stands its character or, for a digit,
the number that begins there, and all digits have the same place among the characters.  So it is a
total preorder, and the list of models is sorted.  It holds the models of the best status as long as
a new model meets one of its own identity first.
-/

namespace SaneBackends.SaneDesc

open LabelledRun PriorityInsert ThreeWay

/-! ### The order of strings -/

/-- What stands at a position: a place among the characters and a number. -/
def token (s : CStr) : Int ×ₗ Int :=
  match s with
  | [] => toLex (0, 0)
  | b :: bs => if isDigit b then toLex (48, atoi (b :: bs)) else toLex ((toUpper b).toInt, 0)

/-- What stands at the positions of a string, with its NUL. -/
def tokens : CStr → List (Int ×ₗ Int)
  | [] => [toLex (0, 0)]
  | b :: bs => if b = 0 then [toLex (0, 0)] else token (b :: bs) :: tokens bs

/-- The keys of strings, in their order. -/
def SortKey : Type := Nat ×ₗ List (Int ×ₗ Int)

instance : LinearOrder SortKey := inferInstanceAs (LinearOrder (Nat ×ₗ List (Int ×ₗ Int)))

/-- A missing string is behind all others. -/
def sortKey : Option CStr → SortKey
  | some s => toLex (0, tokens s)
  | none => toLex (1, [])

theorem charCompare_eq (a b : SaneByte) :
    charCompare a b = threeWay (toUpper a).toInt (toUpper b).toInt := rfl

theorem toInt_digit {b : SaneByte} (h : isDigit b = true) :
    48 ≤ (toUpper b).toInt ∧ (toUpper b).toInt ≤ 57 := by
  revert b
  decide

theorem toInt_other {b : SaneByte} (h : isDigit b = false) :
    (toUpper b).toInt < 48 ∨ 57 < (toUpper b).toInt := by
  revert b
  decide

theorem toInt_zero {b : SaneByte} : (toUpper b).toInt = 0 ↔ b = 0 := by
  revert b
  decide

/-- The characters of two strings are compared as what stands there. -/
theorem compare_token (a b : SaneByte) (as bs : CStr) :
    (if isDigit a ∧ isDigit b then numCompare (a :: as) (b :: bs) else charCompare a b) =
      threeWay (token (a :: as)) (token (b :: bs)) := by
  rw [token, token, charCompare_eq]
  cases ha : isDigit a with
  | true =>
    have hplace := toInt_digit ha
    cases hb : isDigit b with
    | true =>
      rw [if_pos ⟨rfl, rfl⟩, if_pos rfl, if_pos rfl, threeWay_snd]
      rfl
    | false =>
      have hother := toInt_other hb
      rw [if_neg fun h => Bool.false_ne_true h.2, if_pos rfl, if_neg Bool.false_ne_true,
        threeWay_fst (by omega)]
      exact threeWay_congr (by omega) (by omega)
  | false =>
    have hplace := toInt_other ha
    rw [if_neg fun h => Bool.false_ne_true h.1, if_neg Bool.false_ne_true]
    cases hb : isDigit b with
    | true =>
      have hother := toInt_digit hb
      rw [if_pos rfl, threeWay_fst (by omega)]
      exact threeWay_congr (by omega) (by omega)
    | false =>
      rw [if_neg Bool.false_ne_true]
      by_cases hsame : (toUpper a).toInt = (toUpper b).toInt
      · rw [hsame, threeWay_snd, threeWay_eq_zero.mpr rfl, threeWay_eq_zero.mpr rfl]
      · rw [threeWay_fst hsame]

theorem token_zero (bs : CStr) : token (0 :: bs) = toLex (0, 0) := rfl

theorem token_ne_end {b : SaneByte} (hb : b ≠ 0) (bs : CStr) :
    token (b :: bs) ≠ toLex (0, 0) := by
  intro h
  rw [token] at h
  cases hd : isDigit b with
  | true =>
    rw [hd, if_pos rfl] at h
    have hplace : (48 : Int) = 0 := congrArg (fun x => (ofLex x).1) h
    exact absurd hplace (by decide)
  | false =>
    rw [hd, if_neg Bool.false_ne_true] at h
    exact hb ((toInt_zero).mp (congrArg (fun x => (ofLex x).1) h))

/-- The last comparison, where at least one of the strings ends. -/
theorem compare_end (s t : CStr) (h : s.headD 0 = 0 ∨ t.headD 0 = 0) :
    charCompare (s.headD 0) (t.headD 0) = threeWay (tokens s) (tokens t) := by
  have hempty : ∀ s : CStr, s.headD 0 = 0 → tokens s = [toLex (0, 0)] := by
    intro s hs
    cases s with
    | nil => rfl
    | cons b bs => exact if_pos hs
  have hmore : ∀ s : CStr, s.headD 0 ≠ 0 →
      ∃ rest, tokens s = token (s.headD 0 :: s.tail) :: rest := by
    intro s hs
    cases s with
    | nil => exact absurd rfl hs
    | cons b bs => exact ⟨tokens bs, if_neg hs⟩
  by_cases hs : s.headD 0 = 0
  · rw [hempty s hs]
    by_cases ht : t.headD 0 = 0
    · rw [hempty t ht, hs, ht, threeWay_eq_zero.mpr rfl]
      rfl
    · obtain ⟨rest, hrest⟩ := hmore t ht
      have hcompare := compare_token 0 (t.headD 0) [] t.tail
      rw [if_neg fun h => absurd h.1 (by decide), token_zero] at hcompare
      rw [hs, hcompare, hrest, threeWay_cons, if_pos]
      rw [ne_eq, threeWay_eq_zero]
      exact (token_ne_end ht _).symm
  · obtain ⟨rest, hrest⟩ := hmore s hs
    have ht := h.resolve_left hs
    have hcompare := compare_token (s.headD 0) 0 s.tail []
    rw [if_neg fun h => absurd h.2 (by decide), token_zero] at hcompare
    rw [hempty t ht, ht, hcompare, hrest, threeWay_cons, if_pos]
    rw [ne_eq, threeWay_eq_zero]
    exact token_ne_end hs _

theorem compareChars_eq (s t : CStr) : compareChars s t = threeWay (tokens s) (tokens t) := by
  induction s generalizing t with
  | nil =>
    rw [← compare_end [] t (.inl rfl)]
    cases t <;> rfl
  | cons a as ih =>
    cases t with
    | nil => exact compare_end (a :: as) [] (.inr rfl)
    | cons b bs =>
      by_cases hmore : a ≠ 0 ∧ b ≠ 0
      · rw [compareChars, if_pos hmore, tokens, tokens, if_neg hmore.1, if_neg hmore.2,
          threeWay_cons, ← ih bs, ← compare_token]
      · rw [compareChars, if_neg hmore]
        refine compare_end (a :: as) (b :: bs) ?_
        rwa [not_and_or, not_not, not_not] at hmore

/-- `string_compare` compares the keys of the strings. -/
theorem stringCompare_eq (s t : Option CStr) :
    stringCompare s t = threeWay (sortKey s) (sortKey t) := by
  have hmissing : ∀ s : CStr, threeWay (sortKey (some s)) (sortKey none) = -1 ∧
      threeWay (sortKey none) (sortKey (some s)) = 1 := fun s =>
    ⟨threeWay_fst (α := Nat) (by decide) (tokens s) [],
      threeWay_fst (α := Nat) (by decide) [] (tokens s)⟩
  cases s with
  | none =>
    cases t with
    | none => exact (threeWay_eq_zero.mpr rfl).symm
    | some t => exact (hmissing t).2.symm
  | some s =>
    cases t with
    | none => exact (hmissing s).1.symm
    | some t => exact (compareChars_eq s t).trans (threeWay_snd (α := Nat) 0 _ _).symm

theorem stringCompare_nonpos {s t : Option CStr} :
    stringCompare s t ≤ 0 ↔ sortKey s ≤ sortKey t := by
  rw [stringCompare_eq, threeWay_nonpos]

theorem stringCompare_eq_zero {s t : Option CStr} :
    stringCompare s t = 0 ↔ sortKey s = sortKey t := by
  rw [stringCompare_eq, threeWay_eq_zero]

/-! ### Models -/

/-- Two entries for the same model. -/
def SameModel (a b : ModelRecord) : Prop :=
  stringCompare a.name b.name = 0 ∧ stringCompare a.interface b.interface = 0 ∧
    stringCompare a.usbVendorId b.usbVendorId = 0 ∧
    stringCompare a.usbProductId b.usbProductId = 0

instance (a b : ModelRecord) : Decidable (SameModel a b) :=
  inferInstanceAs (Decidable (_ ∧ _ ∧ _ ∧ _))

/-- The records for which there is no better one of the same model. -/
def preferred (records : List ModelRecord) : List ModelRecord :=
  records.filter fun a =>
    ∀ b ∈ records, SameModel b a → calcPriority b.status ≤ calcPriority a.status

/-- The first record with the name of the new one is for the same model and, unless the priorities
    are equal, better or the only one for this model. -/
def Unshadowed (records : List ModelRecord) (m : ModelRecord) : Prop :=
  ∀ r ∈ records, SameModel r m → calcPriority r.status = calcPriority m.status ∨
    ∃ f, records.find? (fun x => stringCompare x.name m.name = 0) = some f ∧ SameModel f m ∧
      (calcPriority m.status < calcPriority r.status ∨
        records.countP (fun x => SameModel x m) = 1)

def nameKey (r : ModelRecord) : SortKey := sortKey r.name

/-- The identity of a model. -/
def modelKey (r : ModelRecord) : SortKey × SortKey × SortKey × SortKey :=
  (sortKey r.name, sortKey r.interface, sortKey r.usbVendorId, sortKey r.usbProductId)

def statusPriority (r : ModelRecord) : Nat := calcPriority r.status

theorem sameModel_iff {a b : ModelRecord} : SameModel a b ↔ modelKey a = modelKey b := by
  rw [SameModel, stringCompare_eq_zero, stringCompare_eq_zero, stringCompare_eq_zero,
    stringCompare_eq_zero, modelKey, modelKey, Prod.mk.injEq, Prod.mk.injEq, Prod.mk.injEq]

theorem nameKey_eq {a b : ModelRecord} (h : modelKey a = modelKey b) : nameKey a = nameKey b :=
  congrArg Prod.fst h

theorem updateModelRecordList_eq (records : List ModelRecord) (model : ModelEntry)
    (be : BackendEntry) : updateModelRecordList records model be =
      insertBest nameKey modelKey statusPriority (createModelRecord model be) records := by
  induction records with
  | nil => rfl
  | cons r rest ih =>
    have hsame := sameModel_iff (a := createModelRecord model be) (b := r)
    rw [updateModelRecordList, insertBest, ih]
    exact if_congr stringCompare_nonpos (if_congr hsame rfl rfl) rfl

theorem preferred_eq (records : List ModelRecord) :
    preferred records = best modelKey statusPriority records := by
  refine List.filter_congr fun a _ => decide_eq_decide.mpr ?_
  exact forall₂_congr fun b _ => imp_congr sameModel_iff Iff.rfl

theorem fits_of_unshadowed {records : List ModelRecord} {m : ModelRecord}
    (h : Unshadowed records m) : Fits nameKey modelKey statusPriority records m := by
  have hname : (fun x : ModelRecord => decide (stringCompare x.name m.name = 0)) =
      fun x => decide (nameKey x = nameKey m) :=
    funext fun x => decide_eq_decide.mpr stringCompare_eq_zero
  have hmodel : (fun x : ModelRecord => decide (SameModel x m)) =
      fun x => decide (modelKey x = modelKey m) :=
    funext fun x => decide_eq_decide.mpr sameModel_iff
  intro r hr hsame
  refine (h r hr ((sameModel_iff).mpr hsame)).imp_right ?_
  rintro ⟨f, hfind, hfirst, hcase⟩
  rw [hname] at hfind
  rw [hmodel] at hcase
  exact ⟨f, hfind, (sameModel_iff).mp hfirst, hcase⟩

/-! ### Runs -/

/-- The records of the models that are inserted. -/
def recordsOf (ms : List (ModelEntry × BackendEntry)) : List ModelRecord :=
  ms.map fun m => createModelRecord m.1 m.2

/-- A run of insertions, in lists where the new model is not shadowed. -/
def Inserted (ms : List (ModelEntry × BackendEntry)) (records : List ModelRecord) : Prop :=
  Run (fun records m records' => Unshadowed records (createModelRecord m.1 m.2) ∧
    updateModelRecordList records m.1 m.2 = records') [] ms records

variable {ms : List (ModelEntry × BackendEntry)} {records : List ModelRecord}

theorem Inserted.run (h : Inserted ms records) :
    Run (fun records m records' => Fits nameKey modelKey statusPriority records m ∧
      insertBest nameKey modelKey statusPriority m records = records')
      [] (recordsOf ms) records := by
  refine h.history (I := fun ms records => Run _ [] (recordsOf ms) records) .nil ?_
  rintro ms records ⟨model, be⟩ records' hrun ⟨hfits, rfl⟩
  rw [recordsOf, List.map_append, List.map_singleton, ← recordsOf, updateModelRecordList_eq]
  exact hrun.snoc ⟨fits_of_unshadowed hfits, rfl⟩

/-- The list is sorted, it holds the models with the best status, and the order of the insertions
    does not matter. -/
theorem updateModelRecordList_preferred (ms : List (ModelEntry × BackendEntry))
    (records : List ModelRecord) (h : Inserted ms records) :
    records.Pairwise (fun a b => stringCompare a.name b.name ≤ 0) ∧
      records.Perm (preferred (recordsOf ms)) ∧
      ∀ ms' records', ms'.Perm ms → Inserted ms' records' → records'.Perm records := by
  have hbest : ∀ {ms records}, Inserted ms records → records.Perm (preferred (recordsOf ms)) :=
    fun h => preferred_eq _ ▸ run_best nameKey_eq h.run
  have hsorted : records.Pairwise (nameKey · ≤ nameKey ·) :=
    run_sorted (h.run.mono fun _ _ _ hstep => hstep.2)
  refine ⟨hsorted.imp stringCompare_nonpos.mpr, hbest h, fun ms' records' hperm h' => ?_⟩
  have hsame : (preferred (recordsOf ms')).Perm (preferred (recordsOf ms)) := by
    rw [preferred_eq, preferred_eq]
    exact best_perm (hperm.map _)
  exact (hbest h').trans (hsame.trans (hbest h).symm)

/-- A model without USB ids. -/
def plainModel (status : StatusEntry) : ModelEntry × BackendEntry :=
  ({ name := some (ascii ['S', 'c', 'a', 'n', ' ', '6', '0', '0'])
     interface := some (ascii ['S', 'C', 'S', 'I'])
     status }, {})

/-- A good model replaces an untested one. -/
theorem updateModelRecordList_preferred_good :
    [createModelRecord (plainModel .good).1 {}].Perm
      (preferred (recordsOf [plainModel .untested, plainModel .good])) := by
  have hrun : Inserted ([] ++ [plainModel .untested] ++ [plainModel .good])
      [createModelRecord (plainModel .good).1 {}] := by
    refine .snoc (.snoc .nil ⟨fun _ hr => (nomatch hr), rfl⟩) ⟨fun r hr _ => .inr ?_, rfl⟩
    rw [List.mem_singleton.mp hr]
    exact ⟨_, rfl, by decide, .inr rfl⟩
  exact (updateModelRecordList_preferred _ _ hrun).2.1

/-- Two untested models of two backends, of which a good one replaces the first only. -/
theorem updateModelRecordList_keeps_worse :
    ¬ ∀ (ms : List (ModelEntry × BackendEntry)) (records : List ModelRecord),
      Run (fun records m records' => updateModelRecordList records m.1 m.2 = records')
        [] ms records →
      records.Perm (preferred (recordsOf ms)) := by
  intro h
  have hperm := h ([] ++ [plainModel .untested] ++ [plainModel .untested] ++
    [plainModel .good]) _ (.snoc (.snoc (.snoc .nil rfl) rfl) rfl)
  exact absurd hperm.length_eq (by decide)

end SaneBackends.SaneDesc

import SaneBackends.RoundRobin
import SaneBackends.LabelledRun
import SaneBackends.WireState

/-!
# The handle table of `saned`

`saned` numbers the devices it has opened by their place in a table.  A free place is
searched round robin from the last one given out, and the table grows when the search
is left.  It is never left when the last handle given out was 0: with all handles in
use `get_free_handle` goes on for ever.
-/

namespace SaneBackends

open RoundRobin LabelledRun

variable {β : Type}

/-- An entry of the table; `β` are the handles of the backends. -/
structure Handle (β : Type) where
  inuse : Bool
  scanning : Bool
  docancel : Bool
  handle : Option β
deriving DecidableEq, Repr

/-- An entry after `memset`. -/
def Handle.zero : Handle β := ⟨false, false, false, none⟩

/-- `num_handles` and `handle`, with the static variable of `get_free_handle`.  The
    outcomes of `malloc` and `realloc` are a script; after its end they succeed. -/
structure HandleTable (β : Type) where
  numHandles : Nat
  handle : Ptr (List (Handle β))
  lastHandleChecked : Int
  mallocs : List Bool
deriving DecidableEq, Repr

/-- At the start of `saned`. -/
def HandleTable.initial (mallocs : List Bool) : HandleTable β := ⟨0, .null, -1, mallocs⟩

def ALLOC_INCREMENT : Nat := 16

/-- `handle[h].inuse`, true for an index outside of the table. -/
def inuseAt (hs : List (Handle β)) (h : Nat) : Bool := hs[h]?.elim true Handle.inuse

/-- The `do … while` loop of `get_free_handle`, started at `last_handle_checked + 1`. -/
def HandleTable.findFree (t : HandleTable β) (fuel : Nat) : Except Fault (Option (Option Nat)) :=
  if t.numHandles = 0 then .ok (some none)
  else
    match t.handle with
    | .null => .error .nullPointer
    | .wild => .error .wildPointer
    | .block hs =>
        .ok (search (inuseAt hs) t.numHandles t.lastHandleChecked fuel
          (t.lastHandleChecked + 1).toNat)

/-- The handle is taken: its entry is cleared and marked. -/
def HandleTable.taken (t : HandleTable β) (h : Nat) : HandleTable β :=
  { t with
    lastHandleChecked := h
    handle :=
      match t.handle with
      | .block hs => .block (hs.set h { Handle.zero with inuse := true })
      | p => p }

/-- The table when there is memory for more handles. -/
def HandleTable.grown (t : HandleTable β) : HandleTable β where
  numHandles := t.numHandles + ALLOC_INCREMENT
  handle :=
    match t.handle with
    | .block hs => .block (hs ++ List.replicate ALLOC_INCREMENT .zero)
    | _ => .block (List.replicate ALLOC_INCREMENT .zero)
  lastHandleChecked := t.numHandles - 1
  mallocs := t.mallocs.tail

/-- The table when there is none: the pointer is lost. -/
def HandleTable.lost (t : HandleTable β) : HandleTable β where
  numHandles := t.numHandles + ALLOC_INCREMENT
  handle := .null
  lastHandleChecked := t.numHandles - 1
  mallocs := t.mallocs.tail

/-- `get_free_handle`.  Without a result `fuel` was not enough, for the loop or for the
    calls of itself. -/
def getFreeHandle : Nat → HandleTable β → Except Fault (Option (Int × HandleTable β))
  | 0, _ => .ok none
  | fuel + 1, t => do
      match ← t.findFree fuel with
      | none => return none
      | some (some h) => return some (h, t.taken h)
      | some none =>
          if t.mallocs.headD true then getFreeHandle fuel t.grown
          else return some (-1, t.lost)

/-! ### Requests -/

/-- `handle[h]`. -/
def HandleTable.entry (t : HandleTable β) (h : Nat) : Except Fault (Handle β) :=
  match t.handle with
  | .null => .error .nullPointer
  | .wild => .error .wildPointer
  | .block hs =>
      match hs[h]? with
      | some e => .ok e
      | none => .error .outOfBounds

/-- `handle[h] = e`. -/
def HandleTable.put (t : HandleTable β) (h : Nat) (e : Handle β) : HandleTable β :=
  { t with
    handle :=
      match t.handle with
      | .block hs => .block (hs.set h e)
      | p => p }

/-- `decode_handle`, after the word has been read from the wire; `good` is the status of
    the wire. -/
def decodeHandle (t : HandleTable β) (good : Bool) (h : SaneWord) : Except Fault Int :=
  if !good || t.numHandles ≤ h.toNat then .ok (-1)
  else do
    let e ← t.entry h.toNat
    if e.inuse then return h.toInt else return -1

def closeHandle (t : HandleTable β) (h : Int) : Except Fault (HandleTable β) :=
  if 0 ≤ h then do
    let e ← t.entry h.toNat
    if e.inuse then return t.put h.toNat { e with inuse := false } else return t
  else .ok t

/-- The requests that change the table. -/
inductive HandleOp (β : Type) where
  /-- `SANE_NET_OPEN`, after `sane_open` has returned a device. -/
  | open (device : β)
  /-- `SANE_NET_CLOSE` with the word that stands for the handle. -/
  | close (good : Bool) (h : SaneWord)

/-- The table, and the handles that clients have been given and have not closed. -/
structure SanedDevices (β : Type) where
  table : HandleTable β
  opened : List (Nat × β)
deriving DecidableEq, Repr

/-- The part of `process_request` that deals with the table. -/
def HandleOp.run (fuel : Nat) : HandleOp β → SanedDevices β →
    Except Fault (Option (SanedDevices β))
  | .open device, s => do
      match ← getFreeHandle fuel s.table with
      | none => return none
      | some (h, t) =>
          if h < 0 then return some { s with table := t }
          else
            let e ← t.entry h.toNat
            return some ⟨t.put h.toNat { e with handle := some device },
              (h.toNat, device) :: s.opened⟩
  | .close good word, s => do
      let h ← decodeHandle s.table good word
      let t ← closeHandle s.table h
      return some ⟨t, s.opened.filter fun d => (d.1 : Int) ≠ h⟩

/-! ### The table as a whole -/

/-- A table from which no pointer has been lost. -/
def HandleTable.Ok (t : HandleTable β) : Prop :=
  (t.numHandles = 0 ∧ t.handle = .null ∧ t.lastHandleChecked = -1) ∨
    ∃ hs, ∃ last : Nat, t.handle = .block hs ∧ hs.length = t.numHandles ∧
      t.lastHandleChecked = last ∧ last < t.numHandles

/-- The entries, for every index. -/
def HandleTable.get (t : HandleTable β) (h : Nat) : Handle β :=
  match t.handle with
  | .block hs => hs[h]?.getD .zero
  | _ => .zero

def HandleTable.inuse (t : HandleTable β) (h : Nat) : Bool := (t.get h).inuse

theorem HandleTable.initial_ok (mallocs : List Bool) :
    (HandleTable.initial mallocs : HandleTable β).Ok := .inl ⟨rfl, rfl, rfl⟩

theorem HandleTable.inuse_of_le {t : HandleTable β} (ht : t.Ok) {h : Nat}
    (hle : t.numHandles ≤ h) : t.inuse h = false := by
  rcases ht with ⟨-, hnull, -⟩ | ⟨hs, last, hblock, hlen, -⟩
  · simp [HandleTable.inuse, HandleTable.get, hnull, Handle.zero]
  · simp [HandleTable.inuse, HandleTable.get, hblock, List.getElem?_eq_none (hlen.trans_le hle),
      Handle.zero]

theorem inuseAt_eq {t : HandleTable β} {hs : List (Handle β)} (hblock : t.handle = .block hs)
    {h : Nat} (hlt : h < hs.length) : inuseAt hs h = t.inuse h := by
  simp [inuseAt, HandleTable.inuse, HandleTable.get, hblock, List.getElem?_eq_getElem hlt]

theorem entry_eq {t : HandleTable β} {h : Nat} {hs : List (Handle β)}
    (hblock : t.handle = .block hs) (hlt : h < hs.length) : t.entry h = .ok (t.get h) := by
  simp [HandleTable.entry, HandleTable.get, hblock, List.getElem?_eq_getElem hlt]

/-- Changing an entry leaves the others alone. -/
theorem get_put {t : HandleTable β} {hs : List (Handle β)} (hblock : t.handle = .block hs)
    {h : Nat} (hlt : h < hs.length) (e : Handle β) (i : Nat) :
    (t.put h e).get i = if i = h then e else t.get i := by
  simp only [HandleTable.put, HandleTable.get, hblock, List.getElem?_set]
  by_cases hih : i = h
  · subst hih
    simp [hlt]
  · rw [if_neg (fun hhi => hih hhi.symm), if_neg hih]

theorem put_ok {t : HandleTable β} (ht : t.Ok) (h : Nat) (e : Handle β) : (t.put h e).Ok := by
  rcases ht with ⟨h₁, h₂, h₃⟩ | ⟨hs, last, hblock, hlen, hlast, hlt⟩
  · exact .inl ⟨h₁, by simp [HandleTable.put, h₂], h₃⟩
  · exact .inr ⟨hs.set h e, last, by simp [HandleTable.put, hblock],
      (List.length_set ..).trans hlen, hlast, hlt⟩

theorem get_grown {t : HandleTable β} (ht : t.Ok) (i : Nat) : t.grown.get i = t.get i := by
  have hzeros : ∀ k : Nat, (List.replicate ALLOC_INCREMENT (Handle.zero : Handle β))[k]?.getD
      Handle.zero = Handle.zero := by
    intro k
    rw [List.getElem?_replicate]
    split_ifs <;> rfl
  rcases ht with ⟨-, hnull, -⟩ | ⟨hs, last, hblock, hlen, -⟩
  · simp only [HandleTable.grown, HandleTable.get, hnull, hzeros]
  · simp only [HandleTable.grown, HandleTable.get, hblock]
    by_cases hi : i < hs.length
    · rw [List.getElem?_append_left hi]
    · have hnone : hs[i]? = none := List.getElem?_eq_none (by omega)
      rw [List.getElem?_append_right (by omega), hzeros, hnone]
      rfl

/-- A table that has grown, up to the static variable, which is -1 after the first time. -/
theorem grown_block {t : HandleTable β} (ht : t.Ok) :
    ∃ hs, t.grown.handle = .block hs ∧ hs.length = t.numHandles + ALLOC_INCREMENT ∧
      (t.grown.lastHandleChecked + 1).toNat = t.numHandles := by
  have hstart : (t.grown.lastHandleChecked + 1).toNat = t.numHandles := by
    simp [HandleTable.grown]
  rcases ht with ⟨hzero, hnull, -⟩ | ⟨hs, last, hblock, hlen, -⟩
  · exact ⟨List.replicate ALLOC_INCREMENT .zero, by simp [HandleTable.grown, hnull],
      by simp [hzero], hstart⟩
  · exact ⟨hs ++ List.replicate ALLOC_INCREMENT .zero, by simp [HandleTable.grown, hblock],
      by simp [hlen], hstart⟩

/-! ### One call of `get_free_handle` -/

theorem findFree_mono {t : HandleTable β} {fuel fuel' : Nat} {r : Option Nat}
    (h : t.findFree fuel = .ok (some r)) (hle : fuel ≤ fuel') :
    t.findFree fuel' = .ok (some r) := by
  unfold HandleTable.findFree at h ⊢
  split_ifs at h ⊢
  · exact h
  · cases hp : t.handle with
    | null => rw [hp] at h; cases h
    | wild => rw [hp] at h; cases h
    | block hs =>
      rw [hp] at h
      simp only [Except.ok.injEq] at h ⊢
      exact search_mono h hle

/-- With more fuel the result is the same. -/
theorem getFreeHandle_mono {t : HandleTable β} {fuel fuel' : Nat} {r : Int × HandleTable β}
    (h : getFreeHandle fuel t = .ok (some r)) (hle : fuel ≤ fuel') :
    getFreeHandle fuel' t = .ok (some r) := by
  induction fuel generalizing t fuel' with
  | zero => cases h
  | succ fuel ih =>
    cases fuel' with
    | zero => omega
    | succ fuel' =>
      rw [getFreeHandle] at h ⊢
      cases hfind : t.findFree fuel with
      | error e => rw [hfind] at h; cases h
      | ok found =>
        rw [hfind] at h
        cases found with
        | none => cases h
        | some found =>
          rw [findFree_mono hfind (by omega : fuel ≤ fuel')]
          cases found with
          | some i => exact h
          | none =>
            simp only [bind, Except.bind] at h ⊢
            split_ifs at h ⊢
            · exact ih h (by omega)
            · exact h

/-- The call returns, with this result. -/
def Gives (t : HandleTable β) (r : Int × HandleTable β) : Prop :=
  ∃ fuel, getFreeHandle fuel t = .ok (some r)

theorem Gives.unique {t : HandleTable β} {r r' : Int × HandleTable β} (h : Gives t r)
    (h' : Gives t r') : r = r' := by
  obtain ⟨fuel, hrun⟩ := h
  obtain ⟨fuel', hrun'⟩ := h'
  have hmax := getFreeHandle_mono hrun (le_max_left fuel fuel')
  rw [getFreeHandle_mono hrun' (le_max_right fuel fuel')] at hmax
  cases hmax
  rfl

/-- The handle was not in use and is now; all others keep their flag and their backend
    handle. -/
structure Fresh (t : HandleTable β) (r : Int × HandleTable β) : Prop where
  nonneg : 0 ≤ r.1
  free : t.inuse r.1.toNat = false
  marked : r.2.inuse r.1.toNat = true
  others : ∀ i, i ≠ r.1.toNat → r.2.get i = t.get i
  ok : r.2.Ok
  stored : r.1.toNat < r.2.numHandles

theorem fresh_taken {t u : HandleTable β} {hs : List (Handle β)} {h : Nat}
    (hblock : u.handle = .block hs) (hlen : hs.length = u.numHandles) (hlt : h < u.numHandles)
    (hget : ∀ i, u.get i = t.get i) (hfree : t.inuse h = false) : Fresh t (h, u.taken h) := by
  have hput := get_put (t := u) hblock (hlen ▸ hlt) { Handle.zero with inuse := true }
  refine ⟨Int.natCast_nonneg h, hfree, ?_, fun i hi => ?_, ?_, hlt⟩
  · have hget' : (u.taken h).get h = _ := hput h
    rw [HandleTable.inuse, Int.toNat_natCast, hget', if_pos rfl]
  · have hget' : (u.taken h).get i = _ := hput i
    rw [Int.toNat_natCast] at hi
    rw [hget', if_neg hi, hget]
  · exact .inr ⟨hs.set h { Handle.zero with inuse := true }, h,
      by simp only [HandleTable.taken, hblock], (List.length_set ..).trans hlen, rfl, hlt⟩

/-- A table that has just grown has a free handle where the search starts. -/
theorem grown_gives {t : HandleTable β} (ht : t.Ok) (fuel : Nat) :
    getFreeHandle (fuel + 2) t.grown = .ok (some (t.numHandles, t.grown.taken t.numHandles)) ∧
      Fresh t (t.numHandles, t.grown.taken t.numHandles) := by
  obtain ⟨hs, hblock, hlen, hstart⟩ := grown_block ht
  have hnum : t.grown.numHandles = t.numHandles + 16 := rfl
  have hfree := HandleTable.inuse_of_le ht (le_refl t.numHandles)
  have hinuse : t.grown.inuse t.numHandles = false := by
    rw [HandleTable.inuse, get_grown ht]
    exact hfree
  have hused : inuseAt hs t.numHandles = false := by
    rw [inuseAt_eq hblock (by rw [hlen, ALLOC_INCREMENT]; omega), hinuse]
  have hwrap : wrap t.grown.numHandles t.numHandles = t.numHandles := if_neg (by omega)
  have hfind : t.grown.findFree (fuel + 1) = .ok (some (some t.numHandles)) := by
    rw [HandleTable.findFree, if_neg (by omega), hblock]
    simp only [hstart, search, hwrap, hused, Bool.false_eq_true, if_false]
  refine ⟨?_, fresh_taken hblock (hlen.trans rfl) (by omega) (get_grown ht) hfree⟩
  rw [getFreeHandle, hfind]
  rfl

/-- The search is left only if all handles but the last one given out are in use. -/
def HandleTable.NeedsMemory (t : HandleTable β) : Prop :=
  t.numHandles = 0 ∨
    (0 < t.lastHandleChecked ∧
      ∀ i < t.numHandles, (i : Int) ≠ t.lastHandleChecked → t.inuse i = true)

/-- The search comes to an end, and memory it needs is there. -/
def HandleTable.CanGive (t : HandleTable β) : Prop :=
  ¬ (t.lastHandleChecked = 0 ∧ ∀ i < t.numHandles, t.inuse i = true) ∧
    (t.NeedsMemory → t.mallocs.headD true = true)

/-- How the loop of `get_free_handle` ends. -/
theorem findFree_cases {t : HandleTable β} (ht : t.Ok) :
    (∃ fuel h, t.findFree fuel = .ok (some (some h)) ∧ Fresh t (h, t.taken h) ∧
      ¬ t.NeedsMemory ∧ ∃ i < t.numHandles, t.inuse i = false) ∨
    ((∃ fuel, t.findFree fuel = .ok (some none)) ∧ t.NeedsMemory ∧ t.lastHandleChecked ≠ 0) ∨
    ((∀ fuel, t.findFree fuel = .ok none) ∧ t.lastHandleChecked = 0 ∧
      ∀ i < t.numHandles, t.inuse i = true) := by
  rcases ht with ⟨hzero, -, hlast⟩ | ⟨hs, last, hblock, hlen, hlast, hlt⟩
  · exact .inr (.inl ⟨⟨0, by rw [HandleTable.findFree, if_pos hzero]⟩, .inl hzero, by omega⟩)
  · have hfind : ∀ fuel, t.findFree fuel =
        .ok (search (inuseAt hs) t.numHandles last fuel (last + 1)) := by
      intro fuel
      rw [HandleTable.findFree, if_neg (by omega), hblock, hlast]
      rfl
    have hused : ∀ i < t.numHandles, inuseAt hs i = t.inuse i :=
      fun i hi => inuseAt_eq hblock (hlen ▸ hi)
    have hfound : ∀ fuel i, search (inuseAt hs) t.numHandles last fuel (last + 1) =
        some (some i) → i < t.numHandles ∧ t.inuse i = false := by
      intro fuel i hr
      obtain ⟨hi, hfree⟩ := search_found (by omega) hr
      exact ⟨hi, (hused i hi).symm.trans hfree⟩
    by_cases h0 : last = 0
    · subst h0
      by_cases hall : ∀ i < t.numHandles, t.inuse i = true
      · refine .inr (.inr ⟨fun fuel => ?_, hlast, hall⟩)
        rw [hfind, search_diverges (by omega) (by simp) fun i hi => (hused i hi).trans (hall i hi)]
      · push Not at hall
        obtain ⟨j, hj, hfree⟩ := hall
        have hfree' : t.inuse j = false := by simpa using hfree
        obtain ⟨r, hr⟩ := @search_ends_of_free _ _ _ (0 + 1) ((0 : Nat) : Int) _ hj
          ((hused j hj).trans hfree') (le_refl _)
        cases r with
        | none => exact absurd hr (search_not_left (le_refl _))
        | some i =>
          obtain ⟨hi, hfree⟩ := hfound _ i hr
          refine .inl ⟨_, i, by rw [hfind, hr], fresh_taken hblock hlen hi (fun _ => rfl) hfree,
            ?_, j, hj, hfree'⟩
          rintro (hzero | ⟨hpos, -⟩)
          · omega
          · omega
    · have hne : wrap t.numHandles (last + 1) ≠ last := by
        unfold wrap
        split_ifs <;> omega
      obtain ⟨r, hr⟩ := @search_ends (inuseAt hs) _ _ (last + 1) _ (Nat.pos_of_ne_zero h0) hlt
        (le_refl _)
      cases r with
      | some i =>
        obtain ⟨hi, hfree⟩ := hfound _ i hr
        have hil := search_found_ne (Nat.pos_of_ne_zero h0) hlt hne hr
        refine .inl ⟨_, i, by rw [hfind, hr], fresh_taken hblock hlen hi (fun _ => rfl) hfree,
          ?_, i, hi, hfree⟩
        rintro (hzero | ⟨-, hothers⟩)
        · omega
        · rw [hothers i hi (by omega)] at hfree
          cases hfree
      | none =>
        refine .inr (.inl ⟨⟨_, by rw [hfind, hr]⟩, .inr ⟨by omega, fun i hi hil => ?_⟩, by omega⟩)
        rw [← hused i hi]
        refine search_left hlt hr hi ?_
        unfold wrap
        split_ifs <;> omega

/-- The search that never ends. -/
theorem getFreeHandle_diverges {t : HandleTable β} (ht : t.Ok) (hlast : t.lastHandleChecked = 0)
    (hall : ∀ i < t.numHandles, t.inuse i = true) (fuel : Nat) :
    getFreeHandle fuel t = .ok none := by
  cases fuel with
  | zero => rfl
  | succ fuel =>
    rcases findFree_cases ht with ⟨-, -, -, -, -, i, hi, hfree⟩ | ⟨-, -, hne⟩ | ⟨hfind, -, -⟩
    · rw [hall i hi] at hfree
      cases hfree
    · exact absurd hlast hne
    · rw [getFreeHandle, hfind]
      rfl

/-- A call returns a fresh handle exactly when the search comes to an end and memory it
    needs is there. -/
theorem gives_fresh_iff {t : HandleTable β} (ht : t.Ok) :
    (∃ r, Gives t r ∧ Fresh t r) ↔ t.CanGive := by
  rcases findFree_cases ht with ⟨fuel, h, hfind, hfresh, hmem, i, hi, hfree⟩ |
    ⟨⟨fuel, hfind⟩, hmem, hlast⟩ | ⟨-, hlast, hall⟩
  · refine ⟨fun _ => ⟨?_, fun hneeds => absurd hneeds hmem⟩,
      fun _ => ⟨_, ⟨fuel + 1, by rw [getFreeHandle, hfind]; rfl⟩, hfresh⟩⟩
    rintro ⟨-, hall⟩
    rw [hall i hi] at hfree
    cases hfree
  · by_cases hok : t.mallocs.headD true = true
    · obtain ⟨hrun, hfresh⟩ := grown_gives ht fuel
      have hfind' := findFree_mono hfind (by omega : fuel ≤ fuel + 2)
      refine ⟨fun _ => ⟨fun h => hlast h.1, fun _ => hok⟩, fun _ => ⟨_, ⟨fuel + 3, ?_⟩, hfresh⟩⟩
      rw [getFreeHandle, hfind']
      simp only [bind, Except.bind, hok, if_true]
      exact hrun
    · constructor
      · rintro ⟨r, hgives, hfresh⟩
        have hlost : Gives t (-1, t.lost) := by
          refine ⟨fuel + 1, ?_⟩
          rw [getFreeHandle, hfind]
          simp only [bind, Except.bind, hok]
          rfl
        rw [hgives.unique hlost] at hfresh
        exact absurd hfresh.nonneg (by simp)
      · rintro ⟨-, hneeds⟩
        exact absurd (hneeds hmem) hok
  · constructor
    · rintro ⟨r, ⟨fuel, hrun⟩, -⟩
      rw [getFreeHandle_diverges ht hlast hall] at hrun
      cases hrun
    · rintro ⟨hno, -⟩
      exact absurd ⟨hlast, hall⟩ hno

/-! ### Whole runs -/

/-- The table says what the clients know of it. -/
structure SanedDevices.Consistent (s : SanedDevices β) : Prop where
  ok : s.table.Ok
  nodup : (s.opened.map Prod.fst).Nodup
  inuse_iff : ∀ i, s.table.inuse i = true ↔ i ∈ s.opened.map Prod.fst
  backend : ∀ d ∈ s.opened, (s.table.get d.1).handle = some d.2

def HandleOp.Allowed (s : SanedDevices β) : HandleOp β → Prop
  | .open _ => s.table.CanGive
  | .close _ _ => True

/-- A request that `saned` answers. -/
def HandleOp.Step (s : SanedDevices β) (op : HandleOp β) (s' : SanedDevices β) : Prop :=
  op.Allowed s ∧ ∃ fuel, op.run fuel s = .ok (some s')

theorem HandleTable.Ok.block {t : HandleTable β} (ht : t.Ok) {h : Nat} (hlt : h < t.numHandles) :
    ∃ hs, t.handle = .block hs ∧ h < hs.length := by
  rcases ht with ⟨hzero, -, -⟩ | ⟨hs, last, hblock, hlen, -⟩
  · omega
  · exact ⟨hs, hblock, hlen ▸ hlt⟩

theorem open_step {s s' : SanedDevices β} {device : β} (hs : s.Consistent)
    (h : HandleOp.Step s (.open device) s') : s'.Consistent := by
  obtain ⟨hallowed, fuel, hrun⟩ := h
  obtain ⟨r, hgives, hfresh⟩ := (gives_fresh_iff hs.ok).mpr hallowed
  cases hget : getFreeHandle fuel s.table with
  | error e => rw [HandleOp.run, hget] at hrun; cases hrun
  | ok given =>
    rw [HandleOp.run, hget] at hrun
    cases given with
    | none => cases hrun
    | some given =>
      obtain rfl := hgives.unique ⟨fuel, hget⟩
      obtain ⟨h, t⟩ := r
      obtain ⟨hnonneg, hfree, hmarked, hothers, htable, hstored⟩ := hfresh
      obtain ⟨block, hblock, hlt⟩ := htable.block hstored
      simp only [bind, Except.bind, if_neg (not_lt.mpr hnonneg), entry_eq hblock hlt] at hrun
      cases hrun
      have hput := get_put hblock hlt { t.get h.toNat with handle := some device }
      have hnew : h.toNat ∉ s.opened.map Prod.fst := by
        intro hmem
        rw [(hs.inuse_iff _).mpr hmem] at hfree
        cases hfree
      refine ⟨put_ok htable _ _, List.nodup_cons.mpr ⟨hnew, hs.nodup⟩, fun i => ?_, fun d hd => ?_⟩
      · rw [HandleTable.inuse, hput, List.map_cons, List.mem_cons]
        split_ifs with hi
        · exact ⟨fun _ => .inl hi, fun _ => hmarked⟩
        · rw [hothers i hi, or_iff_right hi]
          exact hs.inuse_iff i
      · rw [hput]
        rcases List.mem_cons.mp hd with rfl | hd
        · rw [if_pos rfl]
        · have hne : d.1 ≠ h.toNat := by
            intro heq
            exact hnew (heq ▸ List.mem_map_of_mem hd)
          rw [if_neg hne, hothers d.1 hne]
          exact hs.backend d hd

/-- What `decode_handle` returns: -1, or the number of a handle in use. -/
theorem decodeHandle_cases {t : HandleTable β} (ht : t.Ok) {good : Bool} {word : SaneWord} {h : Int}
    (hdec : decodeHandle t good word = .ok h) :
    h = -1 ∨ word.toNat < t.numHandles ∧ h = word.toInt ∧ t.inuse word.toNat = true := by
  unfold decodeHandle at hdec
  split_ifs at hdec with hbad
  · cases hdec
    exact .inl rfl
  · have hgood : good = true ∧ word.toNat < t.numHandles := by simpa using hbad
    have hlt := hgood.2
    obtain ⟨hs, hblock, hlen⟩ := ht.block hlt
    simp only [bind, Except.bind, entry_eq hblock hlen] at hdec
    split_ifs at hdec with hinuse
    · cases hdec
      exact .inr ⟨hlt, rfl, hinuse⟩
    · cases hdec
      exact .inl rfl

theorem close_step {s s' : SanedDevices β} {good : Bool} {word : SaneWord} (hs : s.Consistent)
    (h : HandleOp.Step s (.close good word) s') : s'.Consistent := by
  obtain ⟨-, fuel, hrun⟩ := h
  cases hdec : decodeHandle s.table good word with
  | error e => rw [HandleOp.run, hdec] at hrun; cases hrun
  | ok h =>
    rw [HandleOp.run, hdec] at hrun
    simp only [bind, Except.bind] at hrun
    by_cases hneg : h < 0
    · -- no handle is closed, and no client has this number
      have hkeep : s.opened.filter (fun d => (d.1 : Int) ≠ h) = s.opened := by
        apply List.filter_eq_self.mpr
        intro d _
        simp only [decide_eq_true_eq]
        omega
      rw [closeHandle, if_neg (by omega)] at hrun
      simp only [hkeep] at hrun
      cases hrun
      exact hs
    · obtain ⟨hlt, rfl, hinuse⟩ := (decodeHandle_cases hs.ok hdec).resolve_left (by omega)
      have hnat : word.toInt.toNat = word.toNat := by
        rw [BitVec.toInt_eq_toNat_cond] at hneg ⊢
        split_ifs at hneg ⊢ <;> omega
      obtain ⟨block, hblock, hlen⟩ := hs.ok.block hlt
      have hinuse' : (s.table.get word.toNat).inuse = true := hinuse
      simp only [closeHandle, if_pos (not_lt.mp hneg), hnat, entry_eq hblock hlen, bind,
        Except.bind, hinuse', if_true] at hrun
      cases hrun
      have hput := get_put hblock hlen { s.table.get word.toNat with inuse := false }
      have hmem : ∀ d : Nat × β, d ∈ s.opened.filter (fun d => (d.1 : Int) ≠ word.toInt) ↔
          d ∈ s.opened ∧ d.1 ≠ word.toNat := by
        intro d
        rw [List.mem_filter, decide_eq_true_iff]
        refine and_congr_right fun _ => not_congr ?_
        omega
      refine ⟨put_ok hs.ok _ _, (hs.nodup.sublist (List.filter_sublist.map _)), fun i => ?_,
        fun d hd => ?_⟩
      · rw [HandleTable.inuse, hput]
        split_ifs with hi
        · refine ⟨fun h => absurd h (by simp), fun h => ?_⟩
          obtain ⟨d, hd, rfl⟩ := List.mem_map.mp h
          exact absurd hi ((hmem d).mp hd).2
        · change s.table.inuse i = true ↔ _
          rw [hs.inuse_iff i]
          constructor
          · intro h
            obtain ⟨d, hd, rfl⟩ := List.mem_map.mp h
            exact List.mem_map_of_mem ((hmem d).mpr ⟨hd, hi⟩)
          · intro h
            obtain ⟨d, hd, rfl⟩ := List.mem_map.mp h
            exact List.mem_map_of_mem ((hmem d).mp hd).1
      · obtain ⟨hd, hne⟩ := (hmem d).mp hd
        rw [hput, if_neg hne]
        exact hs.backend d hd

theorem HandleOp.step_consistent {s s' : SanedDevices β} {op : HandleOp β} (hs : s.Consistent)
    (h : HandleOp.Step s op s') : s'.Consistent := by
  cases op with
  | «open» device => exact open_step hs h
  | close good word => exact close_step hs h

/-- At the start of `saned` nothing is open. -/
def SanedDevices.initial (mallocs : List Bool) : SanedDevices β := ⟨.initial mallocs, []⟩

theorem SanedDevices.initial_consistent (mallocs : List Bool) :
    (SanedDevices.initial mallocs : SanedDevices β).Consistent where
  ok := HandleTable.initial_ok mallocs
  nodup := List.nodup_nil
  inuse_iff i := ⟨fun h => absurd h (by simp [SanedDevices.initial, HandleTable.initial,
    HandleTable.inuse, HandleTable.get, Handle.zero]), fun h => absurd h List.not_mem_nil⟩
  backend d hd := absurd hd List.not_mem_nil

/-- After every run of requests, as long as no search goes on for ever and no memory is
    missing: the numbers of the open devices are different and are those in use, each
    with its own backend handle, and the next call gives out a fresh handle exactly if
    its search comes to an end and memory it needs is there. -/
theorem free_handles_fresh {mallocs : List Bool} {ops : List (HandleOp β)} {s : SanedDevices β}
    (hrun : Run HandleOp.Step (SanedDevices.initial mallocs) ops s) :
    (s.opened.map Prod.fst).Nodup ∧
      (∀ i, s.table.inuse i = true ↔ i ∈ s.opened.map Prod.fst) ∧
      (∀ d ∈ s.opened, (s.table.get d.1).handle = some d.2) ∧
      ((∃ r, Gives s.table r ∧ Fresh s.table r) ↔ s.table.CanGive) := by
  have hs : s.Consistent := hrun.invariant (SanedDevices.initial_consistent mallocs)
    fun _ _ _ => HandleOp.step_consistent
  exact ⟨hs.nodup, hs.inuse_iff, hs.backend, gives_fresh_iff hs.ok⟩

/-- A first device is opened, with handle 0. -/
theorem free_handles_fresh_first :
    ∃ s, (HandleOp.open ()).run 3 (.initial []) = .ok (some s) ∧
      (s.opened.map Prod.fst).Nodup ∧ ∃ r, Gives s.table r ∧ Fresh s.table r := by
  have hfirst : (HandleOp.open ()).run 3 (.initial []) = .ok (some
      ⟨⟨16, .block (⟨true, false, false, some ()⟩ :: List.replicate 15 .zero), 0, []⟩,
        [(0, ())]⟩) := by decide
  refine ⟨_, hfirst, ?_⟩
  have hallowed : (HandleOp.open ()).Allowed (.initial []) :=
    ⟨fun h => absurd h.1 (by decide), fun _ => rfl⟩
  obtain ⟨hnodup, -, -, hiff⟩ :=
    free_handles_fresh (.snoc .nil ⟨hallowed, 3, hfirst⟩)
  refine ⟨hnodup, hiff.mpr ⟨fun h => ?_, fun _ => rfl⟩⟩
  exact absurd (h.2 1 (by decide)) (by decide)

/-- The state after some requests. -/
def runHandleOps (fuel : Nat) : List (HandleOp β) → SanedDevices β →
    Except Fault (Option (SanedDevices β))
  | [], s => .ok (some s)
  | op :: ops, s => do
      match ← op.run fuel s with
      | none => return none
      | some s => runHandleOps fuel ops s

/-- Sixteen devices are opened, the first of them is closed and another one opened in its
    place: the next call of `get_free_handle` does not return. -/
theorem free_handle_diverges :
    ∃ s : SanedDevices Unit,
      runHandleOps 20 (List.replicate 16 (.open ()) ++ [.close true 0, .open ()]) (.initial []) =
        .ok (some s) ∧
      ∀ fuel, getFreeHandle fuel s.table = .ok none := by
  refine ⟨⟨⟨16, .block (List.replicate 16 ⟨true, false, false, some ()⟩), 0, []⟩,
    (0, ()) :: ((List.range 15).map fun i => (15 - i, ()))⟩, by decide +kernel, ?_⟩
  refine getFreeHandle_diverges (.inr ⟨_, 0, rfl, rfl, rfl, by decide⟩) rfl ?_
  decide

end SaneBackends

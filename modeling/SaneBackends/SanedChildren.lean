import SaneBackends.LabelledRun
import Mathlib.Data.List.Perm.Basic
import Mathlib.Tactic.SplitIfs

/-!
# The children of `saned`

The parent process keeps a list of the children that serve clients and a counter of all
children; the child that announces the service is known by its own variable.  The counter
goes up only when that child is started, and the loop that unlinks a child ends in front
of the last one of the list.
-/

namespace SaneBackends

open LabelledRun

/-- `children`, `numchildren` and `avahi_pid`; `clients` are the children of clients that
    have been started and not reaped. -/
structure ChildTable where
  children : List Nat
  numChildren : Int
  avahiPid : Option Nat
  clients : List Nat
deriving DecidableEq, Repr

def ChildTable.initial : ChildTable := ⟨[], 0, none, []⟩

/-- `add_child`, for a child that has been forked; `memory` is the outcome of `malloc`. -/
def ChildTable.addChild (s : ChildTable) (pid : Nat) (memory : Bool) : ChildTable :=
  { s with
    children := if memory then pid :: s.children else s.children
    clients := pid :: s.clients }

/-- `saned_avahi`, in the parent. -/
def ChildTable.startAvahi (s : ChildTable) (pid : Nat) : ChildTable :=
  { s with avahiPid := some pid, numChildren := s.numChildren + 1 }

/-- The loop over the list; it ends at a node without a successor. -/
def unlinkChild (ret : Nat) : List Nat → Option (List Nat)
  | [] => none
  | [_] => none
  | c :: d :: cs =>
      if c = ret then some (d :: cs) else (unlinkChild ret (d :: cs)).map (c :: ·)

/-- `wait_child`, when `waitpid` has returned the process `ret`. -/
def ChildTable.waitChild (s : ChildTable) (ret : Nat) : ChildTable :=
  if s.avahiPid = some ret then { s with avahiPid := none, numChildren := s.numChildren - 1 }
  else
    match unlinkChild ret s.children with
    | some cs =>
        { s with
          children := cs
          numChildren := s.numChildren - 1
          clients := s.clients.erase ret }
    | none => { s with clients := s.clients.erase ret }

/-- The loop of `bail_out`, in which `waitpid` returns these processes. -/
def ChildTable.bailOut (s : ChildTable) : List Nat → Option ChildTable
  | [] => if 0 < s.numChildren then none else some s
  | ret :: rets => if 0 < s.numChildren then (s.waitChild ret).bailOut rets else some s

/-- All children that are alive. -/
def ChildTable.live (s : ChildTable) : List Nat := s.avahiPid.toList ++ s.clients

inductive ChildEvent where
  | fork (pid : Nat) (memory : Bool)
  | avahi (pid : Nat)
  | reap (pid : Nat)
deriving DecidableEq, Repr

/-- A new child has a number of its own, and only a child that is alive is reaped. -/
def ChildEvent.Step (s : ChildTable) (e : ChildEvent) (s' : ChildTable) : Prop :=
  match e with
  | .fork pid memory => pid ∉ s.live ∧ s' = s.addChild pid memory
  | .avahi pid => s.avahiPid = none ∧ pid ∉ s.live ∧ s' = s.startAvahi pid
  | .reap pid => pid ∈ s.live ∧ s' = s.waitChild pid

/-- The child has got a node in the list. -/
def ChildEvent.stored : ChildEvent → Bool
  | .fork _ memory => memory
  | _ => false

/-- The counter and the list are right, and `bail_out` would return at once exactly if
    all children have been reaped. -/
structure ChildTable.Right (s : ChildTable) : Prop where
  count : s.numChildren = s.live.length
  list : s.children.Perm s.clients
  bailOut : s.bailOut [] = some s ↔ s.live = []

/-! ### What the events keep -/

theorem unlinkChild_ne_nil {ret : Nat} {cs cs' : List Nat} (h : unlinkChild ret cs = some cs') :
    cs' ≠ [] := by
  match cs, h with
  | c :: d :: cs, h =>
    rw [unlinkChild] at h
    split_ifs at h with hret
    · cases h
      exact List.cons_ne_nil _ _
    · obtain ⟨rest, -, rfl⟩ := Option.map_eq_some_iff.mp h
      exact List.cons_ne_nil _ _

/-- The counter never counts a client; once a client has been stored, the list is never
    empty again. -/
structure ChildTable.Inv (es : List ChildEvent) (s : ChildTable) : Prop where
  count : s.numChildren ≤ s.avahiPid.toList.length
  stored : es.any ChildEvent.stored = true → s.children ≠ []
  unstored : es.any ChildEvent.stored = false →
    s.children = [] ∧ s.numChildren = s.avahiPid.toList.length

theorem any_stored_snoc (es : List ChildEvent) (e : ChildEvent) :
    (es ++ [e]).any ChildEvent.stored = (es.any ChildEvent.stored || e.stored) := by
  simp

theorem waitChild_inv {es : List ChildEvent} {s : ChildTable} (h : s.Inv es) (ret : Nat) :
    (s.waitChild ret).Inv es := by
  obtain ⟨hcount, hstored, hunstored⟩ := h
  unfold ChildTable.waitChild
  split_ifs with havahi
  · rw [havahi] at hcount hunstored
    refine ⟨?_, hstored, fun hes => ⟨(hunstored hes).1, ?_⟩⟩
    · simp only [Option.toList_some, List.length_singleton, Option.toList_none,
        List.length_nil] at hcount ⊢
      omega
    · have heq := (hunstored hes).2
      simp only [Option.toList_some, List.length_singleton, Option.toList_none,
        List.length_nil] at heq ⊢
      omega
  · cases hunlink : unlinkChild ret s.children with
    | none => exact ⟨hcount, hstored, hunstored⟩
    | some cs =>
      refine ⟨?_, fun _ => unlinkChild_ne_nil hunlink, fun hes => ?_⟩
      · simp only []
        omega
      · rw [(hunstored hes).1] at hunlink
        cases hunlink

theorem ChildTable.Inv.step {es : List ChildEvent} {s s' : ChildTable} {e : ChildEvent}
    (h : s.Inv es) (hstep : e.Step s s') : s'.Inv (es ++ [e]) := by
  cases e with
  | fork pid memory =>
    obtain ⟨-, rfl⟩ := hstep
    cases memory with
    | true =>
      refine ⟨h.count, fun _ => List.cons_ne_nil _ _, fun hes => ?_⟩
      rw [any_stored_snoc, ChildEvent.stored, Bool.or_true] at hes
      cases hes
    | false =>
      have hsame : (es ++ [ChildEvent.fork pid false]).any ChildEvent.stored = es.any ChildEvent.stored :=
        (any_stored_snoc ..).trans (Bool.or_false _)
      exact ⟨h.count, fun hes => h.stored (hsame ▸ hes), fun hes => h.unstored (hsame ▸ hes)⟩
  | avahi pid =>
    obtain ⟨hnone, -, rfl⟩ := hstep
    have hsame : (es ++ [ChildEvent.avahi pid]).any ChildEvent.stored = es.any ChildEvent.stored :=
      (any_stored_snoc ..).trans (Bool.or_false _)
    obtain ⟨hcount, hstored, hunstored⟩ := h
    rw [hnone] at hcount hunstored
    refine ⟨?_, fun hes => hstored (hsame ▸ hes), fun hes => ⟨(hunstored (hsame ▸ hes)).1, ?_⟩⟩
    · simp only [ChildTable.startAvahi, Option.toList_some, List.length_singleton,
        Option.toList_none, List.length_nil] at hcount ⊢
      omega
    · have heq := (hunstored (hsame ▸ hes)).2
      simp only [ChildTable.startAvahi, Option.toList_some, List.length_singleton,
        Option.toList_none, List.length_nil] at heq ⊢
      omega
  | reap pid =>
    obtain ⟨-, rfl⟩ := hstep
    have hsame : (es ++ [ChildEvent.reap pid]).any ChildEvent.stored = es.any ChildEvent.stored :=
      (any_stored_snoc ..).trans (Bool.or_false _)
    obtain ⟨hcount, hstored, hunstored⟩ := waitChild_inv h pid
    exact ⟨hcount, fun hes => hstored (hsame ▸ hes), fun hes => hunstored (hsame ▸ hes)⟩

/-- After every run of forks and reaps the books are right exactly if no client has been
    stored so far and none is alive. -/
theorem children_right_iff {es : List ChildEvent} {s : ChildTable}
    (hrun : Run ChildEvent.Step .initial es s) :
    s.Right ↔ es.any ChildEvent.stored = false ∧ s.clients = [] := by
  have hinv := hrun.history (I := fun es s => s.Inv es)
    ⟨Int.le_refl _, (nomatch ·), fun _ => ⟨rfl, rfl⟩⟩ fun _ _ _ _ => ChildTable.Inv.step
  have hlive : s.live.length = s.avahiPid.toList.length + s.clients.length :=
    List.length_append
  constructor
  · rintro ⟨hcount, hlist, -⟩
    have hno : es.any ChildEvent.stored = false := by
      by_contra hstored
      have hne := hinv.stored (by simpa using hstored)
      have hlen : s.clients.length ≠ 0 := by
        rw [← hlist.length_eq]
        exact fun hnil => hne (List.eq_nil_of_length_eq_zero hnil)
      have hle := hinv.count
      omega
    refine ⟨hno, ?_⟩
    rw [(hinv.unstored hno).1] at hlist
    exact List.nil_perm.mp hlist
  · rintro ⟨hno, hclients⟩
    obtain ⟨hchildren, hnum⟩ := hinv.unstored hno
    rw [hclients, List.length_nil, Nat.add_zero] at hlive
    refine ⟨by rw [hnum, hlive], by rw [hchildren, hclients], ?_⟩
    have hreturns : s.bailOut [] = some s ↔ ¬ 0 < s.numChildren := by
      rw [ChildTable.bailOut]
      split_ifs with hpos
      · exact ⟨(nomatch ·), fun h => absurd hpos h⟩
      · exact ⟨fun _ => hpos, fun _ => rfl⟩
    rw [hreturns, hnum, ← hlive, ← List.length_eq_zero_iff]
    omega

/-- A client that cannot be stored comes and goes while the service is announced. -/
theorem children_right_unstored :
    (((ChildTable.initial.startAvahi 7).addChild 8 false).waitChild 8).Right := by
  have hrun : Run ChildEvent.Step .initial [.avahi 7, .fork 8 false, .reap 8]
      (((ChildTable.initial.startAvahi 7).addChild 8 false).waitChild 8) :=
    ((Run.nil.snoc ⟨rfl, by decide, rfl⟩).snoc ⟨by decide, rfl⟩).snoc ⟨by decide, rfl⟩
  exact (children_right_iff hrun).mpr ⟨rfl, rfl⟩

/-- Two clients are started, and the first of them ends: it stays in the list, nothing
    has been counted, and `bail_out` does not wait for the other one. -/
theorem children_wrong :
    ∃ s, Run ChildEvent.Step .initial [.fork 8 true, .fork 9 true, .reap 8] s ∧
      s.live = [9] ∧ s.children = [9, 8] ∧ s.numChildren = 0 ∧ s.bailOut [9] = some s := by
  refine ⟨_, ((Run.nil.snoc ⟨by decide, rfl⟩).snoc ⟨by decide, rfl⟩).snoc ⟨by decide, rfl⟩, ?_⟩
  decide

end SaneBackends

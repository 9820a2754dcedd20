import SaneBackends.BjnpUri

/-!
# The text of a URI

A URI is `method://host[:port][/args]`.  `split_uri` returns its parts when there is no port
in front of arguments, and keeps to its buffers when no arguments without a port are too
long for theirs: behind a port the start of the arguments is not found, and their length is
not checked.
-/

namespace SaneBackends.BjnpUri

open Overwrite BjnpTable

/-! ### The form of a URI -/

/-- A name (or an IPv4 address), or a literal address between brackets. -/
inductive UriHost where
  | name (h : CStr)
  | literal (h : CStr)

namespace UriHost

def value : UriHost → CStr
  | name h => h
  | literal h => h

def text : UriHost → CStr
  | name h => h
  | literal h => 0x5b :: h ++ [0x5d]

def WellFormed : UriHost → Prop
  | name h => h ≠ [] ∧ h.head? ≠ some 0x5b ∧ ∀ b ∈ h, b ≠ 0 ∧ b ≠ slash ∧ b ≠ colon
  | literal h => ∀ b ∈ h, b ≠ 0 ∧ b ≠ 0x5d

/-- The length limit of the source, which counts the opening bracket. -/
def Taken : UriHost → Prop
  | name h => h.length < BJNP_HOST_MAX
  | literal h => h.length + 1 < BJNP_HOST_MAX

instance (host : UriHost) : Decidable host.Taken :=
  match host with
  | name _ => inferInstanceAs (Decidable (_ < _))
  | literal _ => inferInstanceAs (Decidable (_ < _))

end UriHost

structure UriText where
  method : CStr
  host : UriHost
  port : Option CStr
  args : Option CStr
  method_ok : ∀ b ∈ method, b ≠ 0 ∧ b ≠ colon
  host_ok : host.WellFormed
  port_ok : ∀ p ∈ port, p ≠ [] ∧ ∀ b ∈ p, b ≠ 0 ∧ b ≠ slash
  args_ok : ∀ a ∈ args, ∀ b ∈ a, b ≠ 0

namespace UriText

variable (u : UriText)

/-- What stands behind the host. -/
def tail : CStr :=
  (match u.port with
    | none => []
    | some p => colon :: p) ++
  match u.args with
  | none => []
  | some a => slash :: a

def text : CStr := u.method ++ (colon :: slash :: slash :: (u.host.text ++ u.tail))

/-- Every part fits in its buffer with a NUL. -/
structure Fits : Prop where
  method : u.method.length < BJNP_METHOD_MAX
  host : u.host.value.length < BJNP_HOST_MAX
  port : (u.port.getD []).length < BJNP_PORT_MAX
  args : (u.args.getD []).length < BJNP_ARGS_MAX

end UriText

/-- The buffers hold the parts of `u`; a part that is absent is empty. -/
structure UriBuffers.Holds (buffers : UriBuffers) (u : UriText) : Prop where
  method : cString buffers.method = u.method
  host : cString buffers.host = u.host.value
  port : cString buffers.port = u.port.getD []
  args : cString buffers.args = u.args.getD []

/-- Every buffer has its size and ends in it. -/
structure UriBuffers.Terminated (buffers : UriBuffers) : Prop extends buffers.Sized where
  method_ends : 0 ∈ buffers.method
  host_ends : 0 ∈ buffers.host
  port_ends : 0 ∈ buffers.port
  args_ends : 0 ∈ buffers.args

/-! ### Splitting the text -/

section Splitting

variable {u : UriText}

theorem tail_head (u : UriText) : ∀ x ∈ u.tail.head?, x = slash ∨ x = colon := by
  intro x hx
  unfold UriText.tail at hx
  cases hport : u.port with
  | none =>
    cases hargs : u.args with
    | none => simp [hport, hargs] at hx
    | some a =>
      simp [hport, hargs] at hx
      exact .inl hx.symm
  | some p =>
    simp [hport] at hx
    exact .inr hx.symm

/-- The host is found when it is not too long. -/
theorem splitHost_text (u : UriText) :
    splitHost (u.host.text ++ u.tail) =
      if u.host.Taken then some (u.host.value, u.tail.head?, u.tail.tail) else none := by
  have htail := tail_head u
  have hok := u.host_ok
  cases hhost : u.host with
  | name h =>
    rw [hhost] at hok
    obtain ⟨hne, hfirst, hh⟩ := hok
    have hpos : h.length ≠ 0 := fun h0 => hne (List.length_eq_zero_iff.mp h0)
    have hname := splitHost_name hfirst (fun b hb => (hh b hb).2) htail
    rw [UriHost.text, hname]
    by_cases htaken : (UriHost.name h).Taken
    · rw [if_pos htaken, if_neg]
      · rfl
      · rintro (h0 | hlong)
        · exact hpos h0
        · exact absurd htaken (not_lt.mpr hlong)
    · rw [if_neg htaken, if_pos (.inr (not_lt.mp htaken))]
  | literal h =>
    rw [hhost] at hok
    have hbracket : ∀ b ∈ (0x5b :: h : CStr), b ≠ 0x5d := by
      intro b hb
      rcases List.mem_cons.mp hb with rfl | hb
      · decide
      · exact (hok b hb).2
    have hliteral := @splitHost_literal (0x5b :: h) u.tail rfl hbracket
    have htext : (UriHost.literal h).text ++ u.tail = 0x5b :: h ++ 0x5d :: u.tail := by
      simp [UriHost.text]
    have htaken : literalTaken (0x5b :: h) u.tail ↔ (UriHost.literal h).Taken := by
      refine and_iff_right ?_
      cases htl : u.tail with
      | nil => exact .inr (.inr rfl)
      | cons x l =>
        rcases htail x (by rw [htl]; rfl) with rfl | rfl
        · exact .inr (.inl rfl)
        · exact .inl rfl
    rw [htext, hliteral]
    by_cases ht : (UriHost.literal h).Taken
    · rw [if_pos ht, if_pos (htaken.mpr ht)]
      rfl
    · rw [if_neg ht, if_neg (fun h => ht (htaken.mp h))]

/-- What `split_uri` makes of a URI whose method and host are not too long. -/
def splitTail (u : UriText) : Except Fault (Option Uri) :=
  match u.port, u.args with
  | none, none => .ok (some ⟨u.method, u.host.value, [], []⟩)
  | none, some a =>
    if a.length ≥ BJNP_ARGS_MAX then .error .outOfBounds
    else .ok (some ⟨u.method, u.host.value, [], a⟩)
  | some p, args =>
    if p.length ≥ BJNP_PORT_MAX then .ok none
    -- the arguments are read from the start of the port
    else .ok (some ⟨u.method, u.host.value, p, if args.isSome then p else []⟩)

/-- The port ends at the slash; `start` stays in front of it. -/
theorem splitPort_text {p x : CStr} (hp : ∀ b ∈ p, b ≠ slash) (hx : ∀ b ∈ x.head?, b = slash) :
    splitPort (some colon) (p ++ x) =
      if p.length = 0 ∨ p.length ≥ BJNP_PORT_MAX then none
      else some (p, if x = [] then none else some slash, p) := by
  have hpiece := @piece_eq p x (· ≠ slash) (fun b hb => decide_eq_true (hp b hb))
    (fun b hb => decide_eq_false (not_not.mpr (hx b hb)))
  have hmem : slash ∈ p ++ x ↔ ¬x = [] := by
    cases x with
    | nil =>
      rw [List.append_nil]
      exact iff_of_false (fun h => hp _ h rfl) (not_not.mpr rfl)
    | cons b x =>
      have hb : b = slash := hx b rfl
      exact iff_of_true (by simp [hb]) (List.cons_ne_nil b x)
  unfold splitPort
  rw [if_neg (not_not.mpr rfl), hpiece.1]
  by_cases hnil : x = []
  · rw [if_pos hnil, if_neg (fun h => hmem.mp h hnil)]
  · rw [if_neg hnil, if_pos (hmem.mpr hnil)]

theorem splitUri_text (hlen : u.text.length < 1024) :
    BjnpTable.splitUri u.text =
      if u.method.length < BJNP_METHOD_MAX ∧ u.host.Taken then splitTail u else .ok none := by
  have hsize : BJNP_METHOD_MAX = 16 := rfl
  have hpiece := @piece_eq u.method (colon :: slash :: slash :: (u.host.text ++ u.tail))
    (· ≠ colon) (fun b hb => decide_eq_true (u.method_ok b hb).2) (by rintro _ ⟨rfl⟩; rfl)
  unfold BjnpTable.splitUri
  rw [if_neg (not_le.mpr hlen)]
  unfold UriText.text
  rw [hpiece.1, hpiece.2]
  have hmark : (colon :: slash :: slash :: (u.host.text ++ u.tail)).take 3 =
      [colon, slash, slash] := rfl
  have hrest : (colon :: slash :: slash :: (u.host.text ++ u.tail)).drop 3 =
      u.host.text ++ u.tail := rfl
  by_cases hmethod : u.method.length < BJNP_METHOD_MAX
  case neg =>
    rw [if_pos (.inr (by omega)), if_neg (fun h => hmethod h.1)]
  have hgo : ¬((colon :: slash :: slash :: (u.host.text ++ u.tail)).take 3 ≠
      [colon, slash, slash] ∨ u.method.length > BJNP_METHOD_MAX - 1) := by
    rintro (h | h)
    · exact h hmark
    · omega
  rw [if_neg hgo, hrest, splitHost_text]
  by_cases htaken : u.host.Taken
  case neg => rw [if_neg htaken, if_neg (fun h => htaken h.2)]
  rw [if_pos htaken, if_pos ⟨hmethod, htaken⟩]
  unfold splitTail UriText.tail
  cases hport : u.port with
  | none =>
    cases hargs : u.args with
    | none => rfl
    | some a => rfl
  | some p =>
    obtain ⟨hne, hp⟩ := u.port_ok p hport
    have hpos : p.length ≠ 0 := fun h => hne (List.length_eq_zero_iff.mp h)
    have hsplit : ∀ x : CStr, (∀ b ∈ x.head?, b = slash) →
        splitPort (some colon) (p ++ x) = if p.length ≥ BJNP_PORT_MAX then none
          else some (p, if x = [] then none else some slash, p) := by
      intro x hx
      rw [splitPort_text (fun b hb => (hp b hb).2) hx]
      by_cases hlong : p.length ≥ BJNP_PORT_MAX
      · rw [if_pos hlong, if_pos (.inr hlong)]
      · rw [if_neg hlong, if_neg (by rintro (h | h); exacts [hpos h, hlong h])]
    have hshort : p.length < BJNP_PORT_MAX → ¬p.length ≥ BJNP_ARGS_MAX := by
      have h64 : BJNP_PORT_MAX = 64 := rfl
      have h128 : BJNP_ARGS_MAX = 128 := rfl
      omega
    cases hargs : u.args with
    | none =>
      have h := hsplit [] (by simp)
      rw [List.append_nil] at h
      simp only [List.append_nil, List.head?_cons, List.tail_cons, h]
      by_cases hlong : p.length ≥ BJNP_PORT_MAX
      · rw [if_pos hlong, if_pos hlong]
      · rw [if_neg hlong, if_neg hlong]
        rfl
    | some a =>
      have h := hsplit (slash :: a) (by rintro _ ⟨rfl⟩; rfl)
      simp only [List.cons_append, List.head?_cons, List.tail_cons, h]
      by_cases hlong : p.length ≥ BJNP_PORT_MAX
      · rw [if_pos hlong, if_pos hlong]
      · rw [if_neg hlong, if_neg hlong]
        dsimp only
        rw [if_neg (List.cons_ne_nil _ _), if_neg (not_not.mpr rfl),
          if_neg (hshort (not_le.mp hlong))]
        rfl

/-! ### The text of a string -/

/-- A host that is found has the form of one. -/
theorem exists_host {t h st : CStr} {nx : Option SaneByte} (ht : ∀ b ∈ t, b ≠ 0)
    (hsplit : splitHost t = some (h, nx, st)) :
    ∃ (host : UriHost) (d : CStr), host.WellFormed ∧ t = host.text ++ d ∧ nx = d.head? ∧
      st = d.tail ∧ ∀ x ∈ d.head?, x = slash ∨ x = colon := by
  rcases host_cases t with ⟨hfirst, hmem⟩ | ⟨w, d, rfl, hfirst, hw⟩ | ⟨w, d, rfl, hfirst, hw, hd⟩
  · rw [splitHost_unclosed hfirst hmem] at hsplit
    cases hsplit
  · rw [splitHost_literal hfirst hw] at hsplit
    by_cases htaken : literalTaken w d
    · rw [if_pos htaken] at hsplit
      cases hsplit
      obtain ⟨w', rfl⟩ : ∃ w', w = 0x5b :: w' := List.head?_eq_some_iff.mp hfirst
      refine ⟨.literal w', d, ?_, by simp [UriHost.text], rfl, rfl, ?_⟩
      · exact fun b hb => ⟨ht b (by simp [hb]), hw b (List.mem_cons_of_mem _ hb)⟩
      · intro x hx
        rcases htaken.1 with h | h | rfl
        · rw [h] at hx
          exact .inr (Option.some.inj hx).symm
        · rw [h] at hx
          exact .inl (Option.some.inj hx).symm
        · cases hx
    · rw [if_neg htaken] at hsplit
      cases hsplit
  · rw [splitHost_name hfirst hw hd] at hsplit
    by_cases hbad : w.length = 0 ∨ w.length ≥ BJNP_HOST_MAX
    · rw [if_pos hbad] at hsplit
      cases hsplit
    · rw [if_neg hbad] at hsplit
      cases hsplit
      refine ⟨.name h, d, ⟨?_, hfirst, ?_⟩, rfl, rfl, rfl, hd⟩
      · rintro rfl
        exact hbad (.inl rfl)
      · exact fun b hb => ⟨ht b (List.mem_append_left _ hb), hw b hb⟩

/-- A port that is found ends at the slash or at the end. -/
theorem exists_port {q p st : CStr} {nx : Option SaneByte}
    (hsplit : splitPort (some colon) q = some (p, nx, st)) :
    p ≠ [] ∧ (∀ b ∈ p, b ≠ slash) ∧ (q = p ∨ ∃ a, q = p ++ slash :: a) := by
  by_cases hmem : slash ∈ q
  · obtain ⟨w, a, rfl, hw⟩ := List.eq_append_cons_of_mem hmem
    have hwd : ∀ b ∈ w, b ≠ slash := fun b hb h => hw (h ▸ hb)
    rw [splitPort_text hwd (by rintro _ ⟨rfl⟩; rfl)] at hsplit
    by_cases hbad : w.length = 0 ∨ w.length ≥ BJNP_PORT_MAX
    · rw [if_pos hbad] at hsplit
      cases hsplit
    · rw [if_neg hbad] at hsplit
      cases hsplit
      refine ⟨?_, hwd, .inr ⟨a, rfl⟩⟩
      rintro rfl
      exact hbad (.inl rfl)
  · have hq : ∀ b ∈ q, b ≠ slash := fun b hb h => hmem (h ▸ hb)
    have h := splitPort_text hq (show ∀ b ∈ ([] : CStr).head?, b = slash by simp)
    rw [List.append_nil] at h
    rw [h] at hsplit
    by_cases hbad : q.length = 0 ∨ q.length ≥ BJNP_PORT_MAX
    · rw [if_pos hbad] at hsplit
      cases hsplit
    · rw [if_neg hbad] at hsplit
      cases hsplit
      refine ⟨?_, hq, .inl rfl⟩
      rintro rfl
      exact hbad (.inl rfl)

/-- A string that does not fail is the text of a URI. -/
theorem exists_text {s : CStr} (hs : ∀ b ∈ s, b ≠ 0) (hlen : s.length < 1024)
    (hsplit : BjnpTable.splitUri s ≠ .ok none) : ∃ u : UriText, u.text = s := by
  unfold BjnpTable.splitUri at hsplit
  rw [if_neg (not_le.mpr hlen)] at hsplit
  dsimp only at hsplit
  split_ifs at hsplit with hbad
  · exact absurd rfl hsplit
  have hcut : s.takeWhile (· ≠ colon) ++ s.dropWhile (· ≠ colon) = s :=
    List.takeWhile_append_dropWhile
  have hm : ∀ b ∈ s.takeWhile (· ≠ colon), b ≠ 0 ∧ b ≠ colon := by
    intro b hb
    have hp := List.mem_takeWhile_imp hb
    exact ⟨hs b ((List.takeWhile_sublist _).subset hb), by simpa using hp⟩
  generalize s.takeWhile (· ≠ colon) = m at *
  generalize s.dropWhile (· ≠ colon) = d at *
  subst hcut
  obtain ⟨t, rfl⟩ : ∃ t, d = colon :: slash :: slash :: t := by
    rw [not_or, not_not] at hbad
    refine ⟨d.drop 3, ?_⟩
    rw [← List.take_append_drop 3 d, hbad.1]
    rfl
  have ht : ∀ b ∈ t, b ≠ 0 := fun b hb => hs b (by simp [hb])
  cases hhost : splitHost t with
  | none =>
    exact absurd (by simp [hhost]) hsplit
  | some pieces =>
    obtain ⟨h, nx, st⟩ := pieces
    obtain ⟨host, d, hok, rfl, rfl, rfl, hd⟩ := exists_host ht hhost
    cases d with
    | nil =>
      refine ⟨⟨m, host, none, none, hm, hok, by simp, by simp⟩, ?_⟩
      simp [UriText.text, UriText.tail]
    | cons x d =>
      rcases hd x rfl with rfl | rfl
      · refine ⟨⟨m, host, none, some d, hm, hok, by simp, ?_⟩, ?_⟩
        · rintro _ ⟨rfl⟩ b hb
          exact ht b (by simp [hb])
        · simp [UriText.text, UriText.tail]
      · cases hport : splitPort (some colon) d with
        | none => exact absurd (by simp [hhost, hport]) hsplit
        | some pieces =>
          obtain ⟨p, nx, st⟩ := pieces
          obtain ⟨hne, hp, hq⟩ := exists_port hport
          have hpq : ∀ b ∈ p, b ≠ 0 := by
            intro b hb
            rcases hq with rfl | ⟨a, rfl⟩
            · exact ht b (by simp [hb])
            · exact ht b (by simp [hb])
          have hpok : ∀ q ∈ some p, q ≠ [] ∧ ∀ b ∈ q, b ≠ 0 ∧ b ≠ slash := by
            rintro _ ⟨rfl⟩
            exact ⟨hne, fun b hb => ⟨hpq b hb, hp b hb⟩⟩
          rcases hq with rfl | ⟨a, rfl⟩
          · refine ⟨⟨m, host, some d, none, hm, hok, hpok, by simp⟩, ?_⟩
            simp [UriText.text, UriText.tail]
          · refine ⟨⟨m, host, some p, some a, hm, hok, hpok, ?_⟩, ?_⟩
            · rintro _ ⟨rfl⟩ b hb
              exact ht b (by simp [hb])
            · simp [UriText.text, UriText.tail]

end Splitting

/-! ### When the parts come back -/

/-- `split_uri` on the string `s` keeps to its blocks, ends every buffer it fills, and gives the
    parts of a URI that fits. -/
def Splits (copy rest : List SaneByte) (buffers : UriBuffers) (s : CStr) : Prop :=
  ∃ out, splitUri copy (s ++ 0 :: rest) buffers = .ok out ∧
    (∀ b ∈ out, b.Terminated) ∧
    ∀ u : UriText, u.text = s → u.Fits → ∃ b, out = some b ∧ b.Holds u

/-- Without a port the arguments fit; behind a port they repeat the port, or are too long
    anyway; and a literal address that fits is taken. -/
structure UriText.Harmless (u : UriText) : Prop where
  bare : u.method.length < BJNP_METHOD_MAX → u.host.Taken → u.port = none →
    (u.args.getD []).length < BJNP_ARGS_MAX
  behind_port : u.method.length < BJNP_METHOD_MAX → u.host.Taken → ∀ p a, u.port = some p →
    u.args = some a → p.length < BJNP_PORT_MAX → a.length < BJNP_ARGS_MAX → a = p
  literal : u.Fits → u.host.Taken

section Parts

variable {copy rest : List SaneByte} {buffers : UriBuffers} {s : CStr} {u : UriText} {v : Uri}

theorem store_holds (hv : Nonzero v) :
    cString (buffers.store v).method = v.method ∧ cString (buffers.store v).host = v.host ∧
      cString (buffers.store v).port = v.port ∧ cString (buffers.store v).args = v.args :=
  ⟨(cString_overwrite hv.method).1, (cString_overwrite hv.host).1, (cString_overwrite hv.port).1,
    (cString_overwrite hv.args).1⟩

/-- Every piece is shorter than its buffer. -/
structure Short (v : Uri) : Prop where
  method : v.method.length < BJNP_METHOD_MAX
  host : v.host.length < BJNP_HOST_MAX
  port : v.port.length < BJNP_PORT_MAX
  args : v.args.length < BJNP_ARGS_MAX

theorem store_terminated (hsized : buffers.Sized) (hshort : Short v) (hv : Nonzero v) :
    (buffers.store v).Terminated where
  method := by
    rw [← hsized.method]
    exact length_overwrite (by simp [hsized.method]; exact hshort.method)
  host := by
    rw [← hsized.host]
    exact length_overwrite (by simp [hsized.host]; exact hshort.host)
  port := by
    rw [← hsized.port]
    exact length_overwrite (by simp [hsized.port]; exact hshort.port)
  args := by
    rw [← hsized.args]
    exact length_overwrite (by simp [hsized.args]; exact hshort.args)
  method_ends := (cString_overwrite hv.method).2
  host_ends := (cString_overwrite hv.host).2
  port_ends := (cString_overwrite hv.port).2
  args_ends := (cString_overwrite hv.args).2

/-- The arguments that `split_uri` gives back. -/
def returnedArgs (u : UriText) : CStr :=
  match u.port with
  | none => u.args.getD []
  | some p => if u.args.isSome then p else []

theorem returnedArgs_bare (h : u.port = none) : returnedArgs u = u.args.getD [] := by
  rw [returnedArgs, h]

/-- Arguments without a port can leave their buffer, and a port can be too long. -/
theorem splitTail_cases (u : UriText) :
    (u.port = none ∧ BJNP_ARGS_MAX ≤ (u.args.getD []).length ∧
      splitTail u = .error .outOfBounds) ∨
    (BJNP_PORT_MAX ≤ (u.port.getD []).length ∧ splitTail u = .ok none) ∨
    ((u.port.getD []).length < BJNP_PORT_MAX ∧ (returnedArgs u).length < BJNP_ARGS_MAX ∧
      splitTail u = .ok (some ⟨u.method, u.host.value, u.port.getD [], returnedArgs u⟩)) := by
  have h64 : BJNP_PORT_MAX = 64 := rfl
  have h128 : BJNP_ARGS_MAX = 128 := rfl
  unfold splitTail returnedArgs
  cases u.port with
  | none =>
    have hnone : ((none : Option CStr).getD []).length < BJNP_PORT_MAX := by decide
    cases u.args with
    | none => exact .inr (.inr ⟨hnone, by decide, rfl⟩)
    | some a =>
      by_cases hlong : a.length ≥ BJNP_ARGS_MAX
      · exact .inl ⟨rfl, hlong, if_pos hlong⟩
      · exact .inr (.inr ⟨hnone, not_le.mp hlong, if_neg hlong⟩)
  | some p =>
    by_cases hlong : p.length ≥ BJNP_PORT_MAX
    · exact .inr (.inl ⟨hlong, if_pos hlong⟩)
    · refine .inr (.inr ⟨not_le.mp hlong, ?_, if_neg hlong⟩)
      dsimp only
      split
      · omega
      · decide

theorem value_lt_of_taken {host : UriHost} (h : host.Taken) :
    host.value.length < BJNP_HOST_MAX := by
  cases host with
  | name w => exact h
  | literal w => exact Nat.lt_of_succ_lt h

/-- A URI that is split has parts that are not too long, and arguments as they are read. -/
theorem splitUri_some (hlen : u.text.length < 1024)
    (h : BjnpTable.splitUri u.text = .ok (some v)) :
    Short v ∧ v = ⟨u.method, u.host.value, u.port.getD [], returnedArgs u⟩ ∧
      u.method.length < BJNP_METHOD_MAX ∧ u.host.Taken := by
  rw [splitUri_text hlen] at h
  by_cases hgo : u.method.length < BJNP_METHOD_MAX ∧ u.host.Taken
  case neg =>
    rw [if_neg hgo] at h
    cases h
  rw [if_pos hgo] at h
  rcases splitTail_cases u with ⟨-, -, htail⟩ | ⟨-, htail⟩ | ⟨hport, hargs, htail⟩
  · rw [htail] at h
    cases h
  · rw [htail] at h
    cases h
  · rw [htail] at h
    cases h
    exact ⟨⟨hgo.1, value_lt_of_taken hgo.2, hport, hargs⟩, rfl, hgo⟩

/-- Where the string level faults, nothing is split. -/
theorem not_splits_of_error {e : Fault} (hcopy : copy.length = 1024) (hsized : buffers.Sized)
    (hs : ∀ b ∈ s, b ≠ 0) (h : BjnpTable.splitUri s = .error e) : ¬Splits copy rest buffers s := by
  rintro ⟨out, hout, -, -⟩
  have hrun := @splitUri_eq s rest copy buffers hcopy hsized hs
  rw [h] at hrun
  dsimp only at hrun
  rw [hrun] at hout
  cases hout

theorem harmless_of_splits (hcopy : copy.length = 1024) (hsized : buffers.Sized)
    (hs : ∀ b ∈ u.text, b ≠ 0) (hlen : u.text.length < 1024)
    (h : Splits copy rest buffers u.text) : u.Harmless := by
  have htext := splitUri_text hlen
  have hrun := @splitUri_eq u.text rest copy buffers hcopy hsized hs
  constructor
  · intro hmethod htaken hport
    by_contra hlong
    rw [if_pos ⟨hmethod, htaken⟩] at htext
    rcases splitTail_cases u with ⟨-, -, htail⟩ | ⟨hport', htail⟩ | ⟨-, hargs, htail⟩
    · exact not_splits_of_error hcopy hsized hs (htext.trans htail) h
    · rw [hport] at hport'
      exact absurd hport' (by decide)
    · rw [returnedArgs_bare hport] at hargs
      exact hlong hargs
  · intro hmethod htaken p a hport hargs hp ha
    obtain ⟨out, hout, -, hparts⟩ := h
    have hfits : u.Fits := ⟨hmethod, value_lt_of_taken htaken, by rw [hport]; exact hp,
      by rw [hargs]; exact ha⟩
    obtain ⟨b, rfl, hholds⟩ := hparts u rfl hfits
    rw [if_pos ⟨hmethod, htaken⟩] at htext
    rcases splitTail_cases u with ⟨hport', -, -⟩ | ⟨hport', -⟩ | ⟨-, -, htail⟩
    · rw [hport] at hport'
      cases hport'
    · rw [hport] at hport'
      exact absurd hp (not_lt.mpr hport')
    · rw [htext, htail] at hrun
      rw [hrun.1] at hout
      cases hout
      have hback := (@store_holds buffers _ hrun.2).2.2.2.symm.trans hholds.args
      rw [hargs] at hback
      unfold returnedArgs at hback
      rw [hport, hargs] at hback
      exact hback.symm
  · intro hfits
    obtain ⟨out, hout, -, hparts⟩ := h
    obtain ⟨b, rfl, -⟩ := hparts u rfl hfits
    by_contra htaken
    rw [htext, if_neg (fun h => htaken h.2)] at hrun
    dsimp only at hrun
    rw [hrun] at hout
    cases hout

/-- A harmless URI that fits comes back. -/
theorem returnedArgs_eq (hharmless : u.Harmless) (hfits : u.Fits) :
    returnedArgs u = u.args.getD [] := by
  have hbehind := hharmless.behind_port hfits.method (hharmless.literal hfits)
  have hport := hfits.port
  have hargs := hfits.args
  unfold returnedArgs
  cases hp : u.port with
  | none => rfl
  | some p =>
    cases ha : u.args with
    | none => rfl
    | some a =>
      rw [hp] at hport
      rw [ha] at hargs
      exact (hbehind p a hp ha hport hargs).symm

/-- The parts of every URI come back, and nothing is written outside the buffers, exactly for
    the strings that fit in the copy and are the text of harmless URIs only. -/
theorem splits_iff (hcopy : copy.length = 1024) (hsized : buffers.Sized)
    (hs : ∀ b ∈ s, b ≠ 0) :
    Splits copy rest buffers s ↔ s.length < 1024 ∧ ∀ u : UriText, u.text = s → u.Harmless := by
  constructor
  · intro h
    have hlen : s.length < 1024 := by
      by_contra hlong
      exact not_splits_of_error hcopy hsized hs (if_pos (not_lt.mp hlong)) h
    refine ⟨hlen, ?_⟩
    rintro u rfl
    exact harmless_of_splits hcopy hsized hs hlen h
  · rintro ⟨hlen, hharmless⟩
    have hrun := @splitUri_eq s rest copy buffers hcopy hsized hs
    cases hsplit : BjnpTable.splitUri s with
    | error e =>
      obtain ⟨u, rfl⟩ := exists_text hs hlen (by rw [hsplit]; exact fun h => nomatch h)
      rw [splitUri_text hlen] at hsplit
      split_ifs at hsplit with hgo
      rcases splitTail_cases u with ⟨hport, hargs, -⟩ | ⟨-, htail⟩ | ⟨-, -, htail⟩
      · exact absurd ((hharmless u rfl).bare hgo.1 hgo.2 hport) (not_lt.mpr hargs)
      · rw [htail] at hsplit
        cases hsplit
      · rw [htail] at hsplit
        cases hsplit
    | ok found =>
      rw [hsplit] at hrun
      cases found with
      | none =>
        refine ⟨none, hrun, by simp, ?_⟩
        rintro u rfl hfits
        rw [splitUri_text hlen, if_pos ⟨hfits.method, (hharmless u rfl).literal hfits⟩] at hsplit
        rcases splitTail_cases u with ⟨-, -, htail⟩ | ⟨hport, -⟩ | ⟨-, -, htail⟩
        · rw [htail] at hsplit
          cases hsplit
        · exact absurd hfits.port (not_lt.mpr hport)
        · rw [htail] at hsplit
          cases hsplit
      | some v =>
        obtain ⟨hrun, hnonzero⟩ := hrun
        refine ⟨_, hrun, ?_, ?_⟩
        · rintro _ ⟨rfl⟩
          obtain ⟨u, rfl⟩ := exists_text hs hlen (by rw [hsplit]; exact fun h => nomatch h)
          exact store_terminated hsized (splitUri_some hlen hsplit).1 hnonzero
        · rintro u rfl hfits
          obtain ⟨-, rfl, -, -⟩ := splitUri_some hlen hsplit
          obtain ⟨h₁, h₂, h₃, h₄⟩ := @store_holds buffers _ hnonzero
          exact ⟨_, rfl, h₁, h₂, h₃, h₄.trans (returnedArgs_eq (hharmless u rfl) hfits)⟩

end Parts

/-! ### Two strings -/

/-- Zeroed buffers. -/
def emptyBuffers : UriBuffers where
  method := List.replicate BJNP_METHOD_MAX 0
  host := List.replicate BJNP_HOST_MAX 0
  port := List.replicate BJNP_PORT_MAX 0
  args := List.replicate BJNP_ARGS_MAX 0

theorem emptyBuffers_sized : emptyBuffers.Sized := ⟨rfl, rfl, rfl, rfl⟩

/-- A text with one colon names no port. -/
theorem port_eq_none {u : UriText} (h : u.text.count colon = 1) : u.port = none := by
  cases hport : u.port with
  | none => rfl
  | some p =>
    have htext : u.text.count colon = u.method.count colon +
        (1 + (u.host.text.count colon + u.tail.count colon)) := by
      unfold UriText.text
      have hslash : (slash == colon) = false := rfl
      rw [List.count_append, List.count_cons_self, List.count_cons, List.count_cons, hslash,
        List.count_append]
      simp
      omega
    have htail : 1 ≤ u.tail.count colon := by
      unfold UriText.tail
      rw [hport, List.count_append, List.count_cons_self]
      omega
    omega

/-- `bjnp://h/a`. -/
theorem splits_without_port : Splits (List.replicate 1024 0) [] emptyBuffers
    (ascii ['b', 'j', 'n', 'p', ':', '/', '/', 'h', '/', 'a']) := by
  refine (splits_iff List.length_replicate emptyBuffers_sized (by decide)).mpr ⟨by decide, ?_⟩
  intro u htext
  have hport : u.port = none := port_eq_none (by rw [htext]; decide)
  have hlen : u.text.length = 10 := by rw [htext]; rfl
  have h128 : BJNP_ARGS_MAX = 128 ∧ BJNP_HOST_MAX = 128 := ⟨rfl, rfl⟩
  unfold UriText.text UriText.tail at hlen
  simp only [List.length_append, List.length_cons] at hlen
  constructor
  · intro _ _ _
    cases hargs : u.args with
    | none => decide
    | some a =>
      rw [hargs] at hlen
      simp only [List.length_cons] at hlen
      change a.length < _
      omega
  · intro _ _ p a hp
    rw [hport] at hp
    cases hp
  · intro _
    cases hhost : u.host with
    | name h =>
      rw [hhost] at hlen
      change h.length < _
      simp only [UriHost.text] at hlen
      omega
    | literal h =>
      rw [hhost] at hlen
      change h.length + 1 < _
      simp only [UriHost.text, List.length_append, List.length_cons] at hlen
      omega

/-- `bjnp://h:1/a` comes back with the arguments `1`. -/
theorem port_in_front_of_args : ¬Splits (List.replicate 1024 0) [] emptyBuffers
    (ascii ['b', 'j', 'n', 'p', ':', '/', '/', 'h', ':', '1', '/', 'a']) := by
  intro h
  let u : UriText :=
    { method := ascii ['b', 'j', 'n', 'p']
      host := .name (ascii ['h'])
      port := some (ascii ['1'])
      args := some (ascii ['a'])
      method_ok := by decide
      host_ok := ⟨by decide, by decide, by decide⟩
      port_ok := by rintro _ ⟨rfl⟩; decide
      args_ok := by rintro _ ⟨rfl⟩; decide }
  have hharmless : u.Harmless := harmless_of_splits List.length_replicate emptyBuffers_sized
    (show ∀ b ∈ u.text, b ≠ 0 by decide) (show u.text.length < 1024 by decide) h
  exact absurd (hharmless.behind_port (by decide) (by decide) _ _ rfl rfl (by decide) (by decide))
    (by decide)

end SaneBackends.BjnpUri

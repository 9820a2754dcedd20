import SaneBackends.Authorization

/-!
# The arrays of the authorization

Each string that goes into an array is cut to a length, checked or bounded by its parts, with four
exceptions: the name of the file of users, the name of the file of passwords, what `saned` gets from
a client and what `getpass` returns.
-/

namespace SaneBackends.Authorization

open FaultState SaneiConfig

/-! ### Lengths -/

theorem length_ascii (cs : List Char) : (ascii cs).length = cs.length := List.length_map _

theorem length_hex {n k : Nat} (hk : 0 < k) (h : n < 16 ^ k) : (hex n).length ≤ k := by
  rw [hex, length_ascii]
  exact (Nat.length_toDigits_le_iff (by decide) hk).mpr h

theorem length_stamp (s : Stamp) : s.text.length ≤ 40 := by
  have hpid : (hex s.pid.toNat).length ≤ 8 := length_hex (by decide) s.pid.isLt
  have htime : (hex s.time.toNat).length ≤ 16 := length_hex (by decide) s.time.isLt
  have hrandom : (hex s.random.toNat).length ≤ 16 := length_hex (by decide) s.random.isLt
  rw [Stamp.text, hexLong]
  simp only [List.length_append, List.length_replicate]
  omega

theorem length_md5Text (digest : Fin 16 → SaneByte) : (md5Text digest).length = 37 := by
  rw [md5Text, List.length_append, List.length_flatMap]
  have hbytes : (List.finRange 16).map (fun i => (hexByte (digest i)).length) =
      List.replicate 16 2 := List.ext_getElem (by simp) fun i h₁ h₂ => by
    rw [List.getElem_map, List.getElem_replicate]
    rfl
  rw [hbytes]
  rfl

theorem strstr_append (pattern s t : CStr) :
    ∃ i, strstr pattern (s ++ (pattern ++ t)) = some i := by
  induction s with
  | nil =>
    rw [List.nil_append]
    cases hp : pattern ++ t with
    | nil =>
      have hnil : pattern = [] := (List.append_eq_nil_iff.mp hp).1
      exact ⟨0, if_pos hnil⟩
    | cons b bs =>
      rw [strstr, ← hp, if_pos (List.isPrefixOf_iff_prefix.mpr (List.prefix_append pattern t))]
      exact ⟨0, rfl⟩
  | cons b s ih =>
    obtain ⟨i, hi⟩ := ih
    rw [List.cons_append, strstr]
    split
    · exact ⟨0, rfl⟩
    · rw [hi]
      exact ⟨i + 1, rfl⟩

variable {n : Nat} {a : CharArray n}

/-! ### `sanei_auth.c` -/

variable {md5 : Md5} {stack : Stack}

theorem checkPasswd_inside {randomstring : CStr} (hmark : ∃ i, strstr md5Mark randomstring = some i)
    (hlen : randomstring.length < 256) (upassword password : CStr) :
    ∃ b, checkPasswd md5 stack upassword password randomstring = .ok b := by
  rw [checkPasswd]
  split
  · obtain ⟨i, hi⟩ := hmark
    rw [hi]
    dsimp only
    have hcut := List.length_take_le 128 password
    obtain ⟨tmpstr, hsprintf, hend, -⟩ := CharArray.sprintf_eq (a := stack 512)
      (randomstring.drop (i + 5) ++ password.take 128) (by
        rw [List.length_append, List.length_drop]
        omega)
    obtain ⟨tmpstr', hsprintf', hend', -⟩ := CharArray.sprintf_eq (a := tmpstr)
      (md5Text (md5 (cString tmpstr.cells))) (by
        rw [length_md5Text]
        decide)
    rw [hsprintf, ok_bind, CharArray.string_eq hend, ok_bind, hsprintf', ok_bind,
      CharArray.string_eq hend', ok_bind]
    exact ⟨_, rfl⟩
  · exact ⟨_, rfl⟩

theorem verify_inside {md5resource : CStr} (hmark : ∃ i, strstr md5Mark md5resource = some i)
    (hlen : md5resource.length < 256) (resource username password : CStr) (lines : List CStr) :
    ∃ st, verify md5 stack resource md5resource username password lines = .ok st := by
  induction lines with
  | nil => exact ⟨_, rfl⟩
  | cons line lines ih =>
    rw [verify]
    split
    · exact ih
    · rename_i user pass res _
      split
      · obtain ⟨b, hb⟩ : ∃ b, checkPasswd md5 stack password pass md5resource = .ok b :=
          checkPasswd_inside hmark hlen password pass
        rw [hb, ok_bind]
        split
        · exact ⟨_, rfl⟩
        · exact ih
      · exact ih

/-- An answer whose strings have an end in their arrays. -/
def Credentials.Terminated (c : Credentials) : Prop :=
  c.username.Terminated ∧ c.password.Terminated

/-- A callback that keeps to its arrays. -/
def Keeps (authorize : AuthCallback) : Prop :=
  ∀ resource, ∃ c, authorize resource .cleared = .ok c ∧ c.Terminated

theorem cString_append_of_ne {s : CStr} (hs : ∀ b ∈ s, b ≠ 0) (bs : List SaneByte) :
    cString (s ++ bs) = s ++ cString bs := by
  induction s with
  | nil => rfl
  | cons b s ih =>
    rw [List.cons_append, cString_cons (hs b List.mem_cons_self),
      ih fun x hx => hs x (List.mem_cons_of_mem b hx), List.cons_append]

theorem length_cString_lt (h : a.Terminated) : (cString a.cells).length < n := by
  have hlen := (strlen_take (strlen_of_mem h)).2.2
  rwa [a.length_cells] at hlen

/-- The challenge can be found in what a callback gets. -/
theorem challenge_marked {resource rest : CStr} (hresource : ∀ b ∈ resource, b ≠ 0)
    (hcells : a.cells = resource.take 128 ++ md5Mark ++ rest) :
    ∃ i, strstr md5Mark (cString a.cells) = some i := by
  have hmark : ∀ b ∈ md5Mark, b ≠ 0 := by decide
  rw [hcells, List.append_assoc, cString_append_of_ne fun b hb => hresource b
    (List.mem_of_mem_take hb), cString_append_of_ne hmark]
  exact strstr_append md5Mark _ _

theorem saneiAuthorize_inside {authorize : Option AuthCallback}
    (hauthorize : ∀ f, authorize = some f → Keeps f) {backend : CStr} (hlen : backend.length < 250)
    (configOpen : CStr → Option (List CStr)) (stamp : Stamp) {resource : CStr}
    (hresource : ∀ b ∈ resource, b ≠ 0) :
    ∃ st, saneiAuthorize md5 stack configOpen stamp resource backend authorize = .ok st := by
  obtain ⟨filename, hsprintf, hend, -⟩ := CharArray.sprintf_eq (a := stack 256)
    (backend ++ ascii ['.', 'u', 's', 'e', 'r', 's']) (by
      rw [List.length_append, length_ascii]
      exact Nat.add_lt_add_right hlen 6)
  rw [saneiAuthorize, hsprintf, ok_bind, CharArray.string_eq hend, ok_bind]
  split
  · exact ⟨_, rfl⟩
  · rename_i lines _
    split
    · exact ⟨_, rfl⟩
    · split
      · exact ⟨_, rfl⟩
      · rename_i f
        have hcut := List.length_take_le 128 resource
        have hstamp := length_stamp stamp
        have htext : (resource.take 128 ++ md5Mark ++ stamp.text).length < 256 := by
          rw [List.length_append, List.length_append, md5Mark, length_ascii]
          change _ + 5 + _ < 256
          omega
        obtain ⟨challenge, hsprintf', hend', hcells⟩ :=
          CharArray.sprintf_eq (a := stack 256) _ htext
        obtain ⟨c, hc, husername, hpassword⟩ := hauthorize f rfl (cString challenge.cells)
        rw [hsprintf', ok_bind, CharArray.string_eq hend', ok_bind, hc, ok_bind,
          CharArray.string_eq husername, ok_bind, CharArray.string_eq hpassword, ok_bind]
        rw [List.append_assoc] at hcells
        exact verify_inside (challenge_marked hresource hcells) (length_cString_lt hend') _ _ _ _

theorem saneiAuthorize_long {backend : CStr} (hlen : 250 ≤ backend.length)
    (configOpen : CStr → Option (List CStr)) (stamp : Stamp) (resource : CStr)
    (authorize : Option AuthCallback) :
    saneiAuthorize md5 stack configOpen stamp resource backend authorize =
      .error .outOfBounds := by
  rw [saneiAuthorize, CharArray.sprintf_long]
  · rfl
  · rw [List.length_append, length_ascii]
    exact Nat.add_le_add_right hlen 6

/-! ### `auth_callback` of `saned` -/

/-- The string that a client sends. -/
def wireText (bytes : List SaneByte) : CStr := cString bytes.dropLast

/-- A request of the client arrives. -/
def Exchange.Received (x : Exchange) : Prop :=
  x.canAuthorize = true ∧ x.status = 0 ∧ x.replyStatus = 0 ∧ x.wordStatus = 0 ∧
    x.procnum = SANE_NET_AUTHORIZE ∧ x.reqStatus = 0

instance (x : Exchange) : Decidable x.Received :=
  inferInstanceAs (Decidable (_ ∧ _ ∧ _ ∧ _ ∧ _ ∧ _))

/-- A string that has been decoded has an end. -/
theorem terminate_cases (bytes : List SaneByte) :
    (terminate bytes = .null ∧ wireText bytes = []) ∨
      ∃ src, terminate bytes = .block src ∧ 0 ∈ src ∧ cString src = wireText bytes := by
  cases bytes with
  | nil => exact .inl ⟨rfl, rfl⟩
  | cons b bs =>
    have hset : (b :: bs).set bs.length 0 = (b :: bs).dropLast ++ [0] := by
      rw [List.dropLast_eq_take, List.length_cons, Nat.add_sub_cancel,
        List.set_eq_take_append_cons_drop, if_pos (by rw [List.length_cons]; omega),
        List.drop_eq_nil_of_le (by rw [List.length_cons])]
    refine .inr ⟨_, rfl, ?_, ?_⟩
    · rw [hset]
      exact List.mem_append_right _ (List.mem_singleton_self 0)
    · rw [hset, wireText]
      generalize (b :: bs).dropLast = s
      induction s with
      | nil => rfl
      | cons x s ih =>
        rw [List.cons_append]
        by_cases hx : x = 0
        · rw [hx, cString_zero, cString_zero]
        · rw [cString_cons hx, cString_cons hx, ih]

/-- The requests of the exchanges are what `sanei_w_authorization_req` decodes. -/
theorem Exchange.req_decoded (ver : Int) (prior : SaneAuthorizationReq) :
    (∀ x : Exchange, authorizationReqFormat.Valid x.message →
      DecodesAs ver (saneiWAuthorizationReq saneiCodecBin prior)
        (authorizationReqFormat.bytes x.message) x.req
        (authorizationReqFormat.memory x.message)) ∧
      DecodesFrom ver (saneiWAuthorizationReq saneiCodecBin prior) fun bs _ req =>
        ∃ message, bs = authorizationReqFormat.bytes message ∧
          ∀ x : Exchange, x.message = message → x.req = req := by
  constructor
  · exact fun x hvalid => saneiWAuthorizationReq_implements.reads prior x.message hvalid
  · refine (saneiWAuthorizationReq_implements.accepts prior).conseq ?_
    rintro bs δ req ⟨message, -, rfl, rfl, -⟩
    refine ⟨message, rfl, fun x hx => ?_⟩
    rw [Exchange.req, hx]
    rfl

theorem copyString_iff (hn : 0 < n) (bytes : List SaneByte) (hzero : a.Terminated) :
    (∃ b : CharArray n, copyString a (terminate bytes) = .ok b ∧ b.Terminated) ↔
      (wireText bytes).length < n := by
  rcases terminate_cases bytes with ⟨hnull, htext⟩ | ⟨src, hblock, hend, htext⟩
  · rw [hnull, htext]
    exact ⟨fun _ => hn, fun _ => ⟨a, rfl, hzero⟩⟩
  · rw [hblock, copyString, CharArray.strcpy_of_mem hend, htext]
    constructor
    · rintro ⟨b, hb, -⟩
      rw [← Nat.not_le]
      intro hlong
      rw [CharArray.sprintf_long hlong] at hb
      cases hb
    · intro hlen
      obtain ⟨b, hb, hend', -⟩ := CharArray.sprintf_eq (a := a) _ hlen
      exact ⟨b, hb, hend'⟩

theorem cleared_terminated : Credentials.cleared.Terminated :=
  ⟨CharArray.terminated_zero (by decide), CharArray.terminated_zero (by decide)⟩

/-- The strings of the client have to fit in their arrays. -/
theorem Saned.authCallback_iff (x : Exchange) :
    (∃ c, Saned.authCallback x = .ok c ∧ c.Terminated) ↔
      (x.Received → (wireText x.message.2.1).length < SANE_MAX_USERNAME_LEN ∧
        (wireText x.message.2.2).length < SANE_MAX_PASSWORD_LEN) := by
  by_cases hreceived : x.Received
  · have huser := copyString_iff (a := Credentials.cleared.username) (by decide) x.message.2.1
      cleared_terminated.1
    have hpass := copyString_iff (a := Credentials.cleared.password) (by decide) x.message.2.2
      cleared_terminated.2
    obtain ⟨hcan, hstatus, hreply, hword, hproc, hreq⟩ := hreceived
    rw [imp_iff_right ⟨hcan, hstatus, hreply, hword, hproc, hreq⟩, ← huser, ← hpass,
      Saned.authCallback]
    rw [if_neg (by rw [hcan]; decide), if_neg (not_not.mpr hstatus), if_neg (not_not.mpr hreply),
      if_neg (not_not.mpr hword), if_neg (not_not.mpr hproc), if_neg (not_not.mpr hreq)]
    constructor
    · rintro ⟨⟨user, pass⟩, hc, hend, hend'⟩
      rw [Exchange.req] at hc
      cases huser : copyString Credentials.cleared.username (terminate x.message.2.1) with
      | error e =>
        rw [huser] at hc
        cases hc
      | ok u =>
        rw [huser, ok_bind] at hc
        cases hpass : copyString Credentials.cleared.password (terminate x.message.2.2) with
        | error e =>
          rw [hpass] at hc
          cases hc
        | ok p =>
          rw [hpass] at hc
          cases hc
          exact ⟨⟨_, rfl, hend⟩, _, rfl, hend'⟩
    · rintro ⟨⟨user, huser, hend⟩, pass, hpass, hend'⟩
      refine ⟨⟨user, pass⟩, ?_, hend, hend'⟩
      rw [Exchange.req, huser, ok_bind, hpass]
      rfl
  · refine iff_of_true ⟨_, ?_, cleared_terminated⟩ fun h => absurd h hreceived
    rw [Saned.authCallback]
    rw [Exchange.Received] at hreceived
    split
    · rfl
    rename_i hcan
    split
    · rfl
    rename_i hstatus
    split
    · rfl
    rename_i hreply
    split
    · rfl
    rename_i hword
    split
    · rfl
    rename_i hproc
    split
    · rfl
    rename_i hreq
    exact absurd ⟨Bool.not_eq_false _ ▸ hcan, not_not.mp hstatus, not_not.mp hreply,
      not_not.mp hword, not_not.mp hproc, not_not.mp hreq⟩ hreceived

end SaneBackends.Authorization

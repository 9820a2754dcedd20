import SaneBackends.AuthorizationCallback
import SaneBackends.Md5Streaming

/-!
# Authorization over the network

`sanei_authorize` asks through the callback of `saned`, the net backend hands the challenge to the
callback of `scanimage` and relays its answer.  Between them the password itself is never sent: the
server compares the digest of the challenge and of the password in its file with the digest that
the client has computed.
-/

namespace SaneBackends.Authorization

open FaultState

def netResource (name challenge : CStr) : CStr :=
  ascii ['n', 'e', 't', ':'] ++ name ++ ascii [':'] ++ challenge

/-- `do_authorization` of the net backend: the three strings that it sends. -/
def doAuthorization (env : Scanimage.Surroundings) (md5 : Md5) (stack : Stack)
    (name challenge : CStr) : Except Fault (List SaneByte × List SaneByte × List SaneByte) := do
  let c ← Scanimage.authCallback env md5 stack (netResource name challenge) .cleared
  let username ← c.username.string
  let password ← c.password.string
  return (challenge ++ [0], username ++ [0], password ++ [0])

/-- The callback of `saned`, when the request of the client arrives. -/
def askClient (env : Scanimage.Surroundings) (md5 : Md5) (stack : Stack) (name : CStr) :
    AuthCallback := fun challenge _ => do
  let message ← doAuthorization env md5 stack name challenge
  Saned.authCallback
    { canAuthorize := true
      status := 0
      replyStatus := 0
      wordStatus := 0
      procnum := SANE_NET_AUTHORIZE
      reqStatus := 0
      message := message }

/-! ### What is compared -/

/-- The user name and the password of the client, from its file of passwords or typed in. -/
def given (env : Scanimage.Surroundings) (stack : Stack) (resource : CStr) :
    Except Fault Credentials := do
  let (_, c, queryUser) ← Scanimage.lookUp env resource (stack Scanimage.tmpSize) .cleared
  Scanimage.askUser env queryUser c

/-- The string that a callback gets. -/
def challengeText (stamp : Stamp) (resource : CStr) : CStr :=
  cString (resource.take 128 ++ md5Mark ++ stamp.text)

/-- What follows the mark. -/
def salt (challenge : CStr) : CStr := challenge.drop ((strstr md5Mark challenge).getD 0 + 5)

def response (md5 : Md5) (salt password : CStr) : CStr :=
  cString (md5Text (md5 (cString (salt ++ password))))

/-- A line of the file of users lets a client in. -/
def Accepts (md5 : Md5) (challenge resource username answer line : CStr) : Prop :=
  ∃ pass, entryOf line = some (username, pass, resource) ∧
    answer = response md5 (salt challenge) (pass.take 128)

variable {n i : Nat} {md5 : Md5} {stack : Stack} {challenge resource username password s t : CStr}
  {env : Scanimage.Surroundings}

theorem cString_cString (s : List SaneByte) : cString (cString s) = cString s :=
  cString_eq_self fun h => ne_zero_of_mem_cString h rfl

theorem length_cString_le (s : List SaneByte) : (cString s).length ≤ s.length := by
  induction s with
  | nil => exact Nat.le_refl 0
  | cons b s ih =>
    by_cases hb : b = 0
    · rw [hb, cString_zero]
      exact Nat.zero_le _
    · rw [cString_cons hb, List.length_cons, List.length_cons]
      exact Nat.succ_le_succ ih

/-- A text that is printed and read back. -/
theorem sprintf_string (a : CharArray n) (s : CStr) (h : s.length < n) :
    ∃ b : CharArray n, a.sprintf s = .ok b ∧ b.Terminated ∧ cString b.cells = cString s := by
  obtain ⟨b, hb, hend, hcells⟩ := CharArray.sprintf_eq (a := a) s h
  exact ⟨b, hb, hend, by rw [hcells, cString_append_zero]⟩

/-- No mark begins in front of the challenge. -/
theorem strstr_skip (hs : (0x24 : SaneByte) ∉ s) :
    strstr md5Mark (s ++ t) = (strstr md5Mark t).map (· + s.length) := by
  induction s with
  | nil =>
    rw [List.nil_append]
    cases strstr md5Mark t <;> rfl
  | cons b s ih =>
    obtain ⟨hb, hs⟩ := not_or.mp fun h => hs (List.mem_cons.mpr h)
    have hno : md5Mark.isPrefixOf (b :: (s ++ t)) = false := by
      rw [← Bool.not_eq_true, List.isPrefixOf_iff_prefix]
      intro h
      exact hb (List.cons_prefix_cons.mp h).1
    rw [List.cons_append, strstr, hno, if_neg Bool.false_ne_true, ih hs, Option.map_map]
    cases strstr md5Mark t <;> rfl

/-- The client finds the same salt as the server. -/
theorem salt_netResource {name : CStr} (hname : (0x24 : SaneByte) ∉ name)
    (hmark : strstr md5Mark challenge = some i) :
    strstr md5Mark (netResource name challenge) = some (i + (name.length + 5)) ∧
      salt (netResource name challenge) = salt challenge := by
  have hfront : (0x24 : SaneByte) ∉ ascii ['n', 'e', 't', ':'] ++ name ++ ascii [':'] := by
    simp only [List.mem_append, not_or]
    exact ⟨⟨by decide, hname⟩, by decide⟩
  have hlen : (ascii ['n', 'e', 't', ':'] ++ name ++ ascii [':']).length = name.length + 5 := by
    simp only [List.length_append, length_ascii, List.length_cons, List.length_nil]
    omega
  have hfound : strstr md5Mark (netResource name challenge) = some (i + (name.length + 5)) := by
    rw [netResource, strstr_skip hfront, hmark, hlen]
    rfl
  refine ⟨hfound, ?_⟩
  rw [salt, hfound, salt, hmark, Option.getD_some, Option.getD_some, netResource,
    show i + (name.length + 5) + 5 = name.length + 5 + (i + 5) by omega, ← hlen,
    ← List.drop_drop, List.drop_left]

/-! ### The server -/

theorem response_mark (md5 : Md5) (salt password : CStr) :
    (response md5 salt password).take 5 = md5Mark := by
  have hmark : ∀ b ∈ md5Mark, b ≠ 0 := by decide
  rw [response, md5Text, cString_append_of_ne hmark]
  exact List.take_left' rfl

theorem checkPasswd_eq (hmark : strstr md5Mark challenge = some i) (hlen : challenge.length < 256)
    (salt' password pass : CStr) :
    checkPasswd md5 stack (response md5 salt' password) pass challenge =
      .ok (decide
        (response md5 salt' password = response md5 (salt challenge) (pass.take 128))) := by
  have hcut := List.length_take_le 128 pass
  obtain ⟨tmpstr, hsprintf, hend, htext⟩ := sprintf_string (stack 512)
    (challenge.drop (i + 5) ++ pass.take 128) (by
      rw [List.length_append, List.length_drop]
      omega)
  obtain ⟨tmpstr', hsprintf', hend', htext'⟩ := sprintf_string tmpstr
    (md5Text (md5 (cString tmpstr.cells))) (by
      rw [length_md5Text]
      decide)
  have hsalt : salt challenge = challenge.drop (i + 5) := by rw [salt, hmark]; rfl
  rw [checkPasswd, if_pos (response_mark ..), hmark]
  dsimp only
  rw [hsprintf, ok_bind, CharArray.string_eq hend, ok_bind, hsprintf', ok_bind,
    CharArray.string_eq hend', ok_bind, htext', htext, hsalt]
  rfl

/-- The second loop finds a line that lets the client in. -/
theorem verify_eq (hmark : strstr md5Mark challenge = some i) (hlen : challenge.length < 256)
    (salt' password : CStr) (lines : List CStr) :
    ∃ st,
      verify md5 stack resource challenge username (response md5 salt' password) lines = .ok st ∧
      (st = .good ↔ ∃ line ∈ lines,
        Accepts md5 challenge resource username (response md5 salt' password) line) := by
  induction lines with
  | nil => exact ⟨_, rfl, iff_of_false (by decide) (by simp)⟩
  | cons line lines ih =>
    obtain ⟨st, hrest, hst⟩ := ih
    have hgoesOn : ¬ Accepts md5 challenge resource username (response md5 salt' password) line →
        (st = .good ↔ ∃ l ∈ line :: lines,
          Accepts md5 challenge resource username (response md5 salt' password) l) := by
      intro hno
      rw [hst]
      constructor
      · rintro ⟨l, hl, hacc⟩
        exact ⟨l, List.mem_cons_of_mem _ hl, hacc⟩
      · rintro ⟨l, hl, hacc⟩
        rcases List.mem_cons.mp hl with rfl | hl
        · exact absurd hacc hno
        · exact ⟨l, hl, hacc⟩
    rw [verify]
    cases hentry : entryOf line with
    | none =>
      refine ⟨st, hrest, hgoesOn ?_⟩
      rintro ⟨pass, h, -⟩
      rw [hentry] at h
      cases h
    | some entry =>
      obtain ⟨user, pass, res⟩ := entry
      dsimp only
      by_cases hsame : user = username ∧ res = resource
      · rw [if_pos hsame, checkPasswd_eq hmark hlen, ok_bind]
        obtain ⟨rfl, rfl⟩ := hsame
        by_cases heq : response md5 salt' password = response md5 (salt challenge) (pass.take 128)
        · rw [if_pos (decide_eq_true heq)]
          exact ⟨_, rfl, iff_of_true rfl ⟨line, List.mem_cons_self, pass, hentry, heq⟩⟩
        · rw [if_neg (by rwa [decide_eq_true_eq])]
          refine ⟨st, hrest, hgoesOn ?_⟩
          rintro ⟨pass', h, heq'⟩
          rw [hentry] at h
          cases h
          exact heq heq'
      · rw [if_neg hsame]
        refine ⟨st, hrest, hgoesOn ?_⟩
        rintro ⟨pass', h, -⟩
        rw [hentry] at h
        cases h
        exact hsame ⟨rfl, rfl⟩

/-! ### The client -/

/-- The client answers a challenge with the digest of its salt and the password. -/
theorem authCallback_answers (hhome : Scanimage.HomeFits env)
    (hpass : env.getpass.length < SANE_MAX_PASSWORD_LEN)
    (hmark : strstr md5Mark challenge = some i) :
    ∃ c c', given env stack challenge = .ok c ∧ c.Terminated ∧
      Scanimage.authCallback env md5 stack challenge .cleared = .ok c' ∧ c'.Terminated ∧
      cString c'.username.cells = cString c.username.cells ∧
      cString c'.password.cells =
        response md5 ((salt challenge).take 128) (cString c.password.cells) := by
  obtain ⟨tmp, c₀, hc₀, hlookUp⟩ :=
    Scanimage.lookUp_inside hhome challenge cleared_terminated (stack Scanimage.tmpSize)
  obtain ⟨c, hask, huser, hend⟩ :=
    @Scanimage.askUser_inside _ env hc₀ (!Scanimage.listed env challenge) fun _ => hpass
  have hsalt : salt challenge = challenge.drop (i + 5) := by rw [salt, hmark]; rfl
  have hcut : (cString c.password.cells).take (SANE_MAX_PASSWORD_LEN - 1) =
      cString c.password.cells :=
    List.take_of_length_le (Nat.le_sub_one_of_lt (length_cString_lt hend))
  have hlen := length_cString_lt hend
  have hsaltLen := List.length_take_le 128 (challenge.drop (i + 5))
  obtain ⟨tmp', hsprintf, hend', htext⟩ := sprintf_string tmp
    ((challenge.drop (i + 5)).take 128 ++ cString c.password.cells) (by
      rw [List.length_append]
      exact Nat.lt_of_le_of_lt (Nat.add_le_add hsaltLen hlen.le) (by decide))
  obtain ⟨answer, hsprintf', hend'', htext'⟩ := sprintf_string
    (CharArray.zero SANE_MAX_PASSWORD_LEN) (md5Text (md5 (cString tmp'.cells))) (by
      rw [length_md5Text]
      decide)
  refine ⟨c, { c with password := answer }, ?_, ⟨huser, hend⟩, ?_, ⟨huser, hend''⟩, rfl, ?_⟩
  · rw [given, hlookUp, ok_bind]
    exact hask
  · rw [Scanimage.authCallback, hlookUp, ok_bind]
    dsimp only
    rw [hmark]
    dsimp only
    rw [hask, ok_bind, CharArray.string_eq hend, ok_bind, hcut, hsprintf, ok_bind,
      CharArray.string_eq hend', ok_bind, hsprintf']
    rfl
  · rw [htext', htext, hsalt]
    rfl

/-- A string that has been sent is found in the array. -/
theorem copyString_sent (a : CharArray n) (h : (cString s).length < n) :
    ∃ b : CharArray n, copyString a (terminate (cString s ++ [0])) = .ok b ∧ b.Terminated ∧
      cString b.cells = cString s := by
  rcases terminate_cases (cString s ++ [0]) with ⟨hnull, -⟩ | ⟨src, hblock, hend, htext⟩
  · cases hs : cString s with
    | nil => rw [hs] at hnull; cases hnull
    | cons b bs => rw [hs] at hnull; cases hnull
  · rw [wireText, List.dropLast_concat, cString_cString] at htext
    obtain ⟨b, hb, hend', hb'⟩ := sprintf_string a _ h
    rw [hblock, copyString, CharArray.strcpy_of_mem hend, htext]
    exact ⟨b, hb, hend', hb'.trans (cString_cString s)⟩

theorem askClient_answers {name : CStr} (hhome : Scanimage.HomeFits env)
    (hpass : env.getpass.length < SANE_MAX_PASSWORD_LEN) (hname : (0x24 : SaneByte) ∉ name)
    (hmark : strstr md5Mark challenge = some i) (c₀ : Credentials) :
    ∃ c c', given env stack (netResource name challenge) = .ok c ∧ c.Terminated ∧
      askClient env md5 stack name challenge c₀ = .ok c' ∧ c'.Terminated ∧
      cString c'.username.cells = cString c.username.cells ∧
      cString c'.password.cells =
        response md5 ((salt challenge).take 128) (cString c.password.cells) := by
  obtain ⟨hfound, hsalt⟩ := salt_netResource hname hmark
  obtain ⟨c, answer, hgiven, hc, hanswer, ⟨huser, hpassword⟩, husername, hresponse⟩ :=
    @authCallback_answers _ md5 stack _ env hhome hpass hfound
  obtain ⟨username, hcopy, hend, htext⟩ :=
    copyString_sent Credentials.cleared.username (length_cString_lt huser)
  obtain ⟨password, hcopy', hend', htext'⟩ :=
    copyString_sent Credentials.cleared.password (length_cString_lt hpassword)
  refine ⟨c, ⟨username, password⟩, hgiven, hc, ?_, ⟨hend, hend'⟩, htext.trans husername, ?_⟩
  · rw [askClient, doAuthorization, hanswer, ok_bind, CharArray.string_eq huser, ok_bind,
      CharArray.string_eq hpassword, ok_bind]
    change (do
      let username ← copyString Credentials.cleared.username
        (terminate (cString answer.username.cells ++ [0]))
      let password ← copyString Credentials.cleared.password
        (terminate (cString answer.password.cells ++ [0]))
      return (⟨username, password⟩ : Credentials)) = _
    rw [hcopy, ok_bind, hcopy']
    rfl
  · rw [htext', hresponse, hsalt]

/-! ### The digest of the library -/

/-- `md5_buffer`, as the functions call it: the string may have any address, and the buffer of its
    context is not cleared. -/
def md5Buffer (unaligned : Bool) (scratch : List SaneByte) : Md5 := fun s i =>
  ((Md5.md5Buffer unaligned s scratch).toOption.getD []).getD i 0

/-- No digit is a zero byte. -/
theorem hexByte_ne_zero (x : SaneByte) : ∀ b ∈ hexByte x, b ≠ 0 := by
  have hall : ∀ x : SaneByte, (0 : SaneByte) ∉ hexByte x := by decide +kernel
  exact fun b hb hzero => hall x (hzero ▸ hb)

/-- What is compared is the checksum of the salt and the password, in hexadecimal digits. -/
theorem response_md5Buffer (unaligned : Bool) {scratch : List SaneByte}
    (hscratch : scratch.length = 128) (salt password : CStr)
    (hsmall : (salt ++ password).length < 2 ^ 32) :
    response (md5Buffer unaligned scratch) salt password =
      md5Mark ++ (Md5.digest (cString (salt ++ password))).flatMap hexByte := by
  have hlen := length_cString_le (salt ++ password)
  have hdigest : md5Buffer unaligned scratch (cString (salt ++ password)) = fun i : Fin 16 =>
      (Md5.digest (cString (salt ++ password))).getD i 0 := by
    funext i
    rw [md5Buffer, Md5.md5Buffer_eq unaligned hscratch (by omega)]
    rfl
  have htext : ∀ xs : List SaneByte, xs.length = 16 →
      (List.finRange 16).flatMap (fun i : Fin 16 => hexByte (xs.getD i 0)) =
        xs.flatMap hexByte := by
    intro xs hxs
    have hmap : (List.finRange 16).map (fun i : Fin 16 => xs.getD i 0) = xs := by
      refine List.ext_getElem (by simp [hxs]) fun i h₁ h₂ => ?_
      rw [List.getElem_map, List.getElem_finRange]
      rw [List.getD_eq_getElem?_getD, Fin.val_cast, List.getElem?_eq_getElem h₂, Option.getD_some]
    rw [← List.flatMap_map, hmap]
  have hne : ∀ b ∈ md5Mark ++ (Md5.digest (cString (salt ++ password))).flatMap hexByte, b ≠ 0 := by
    intro b hb
    rcases List.mem_append.mp hb with hmark | hdigit
    · exact (show ∀ b ∈ md5Mark, b ≠ 0 by decide) b hmark
    · obtain ⟨x, -, hx⟩ := List.mem_flatMap.mp hdigit
      exact hexByte_ne_zero x b hx
  rw [response, hdigest, md5Text, htext _ (Md5.length_digest _)]
  exact cString_eq_self fun h => hne 0 h rfl

/-- With this digest, a line lets a client in when the text that it sends is that of the password
    in the line. -/
theorem accepts_md5Buffer (unaligned : Bool) {scratch : List SaneByte}
    (hscratch : scratch.length = 128) {answer line : CStr} (hlen : challenge.length < 256) :
    Accepts (md5Buffer unaligned scratch) challenge resource username answer line ↔
      ∃ pass, entryOf line = some (username, pass, resource) ∧
        answer = md5Mark ++
          (Md5.digest (cString (salt challenge ++ pass.take 128))).flatMap hexByte := by
  have hsmall : ∀ pass : CStr, (salt challenge ++ pass.take 128).length < 2 ^ 32 := by
    intro pass
    have hcut := List.length_take_le 128 pass
    rw [List.length_append, salt, List.length_drop]
    omega
  rw [Accepts]
  simp only [response_md5Buffer unaligned hscratch _ _ (hsmall _)]

/-! ### Both ends -/

/-- A client is let in exactly if some line of the file of users names it and the resource and
    holds a password with the same digest behind the same salt; so it is let in with the password
    of such a line, whatever the stamp is. -/
theorem authorize_over_network {configOpen : CStr → Option (List CStr)} {lines : List CStr}
    {backend name : CStr} {clientStack : Stack} (stamp : Stamp) (hbackend : backend.length < 250)
    (hresource : ∀ b ∈ resource, b ≠ 0) (hshort : resource.length ≤ 88)
    (hopen : configOpen (cString (backend ++ ascii ['.', 'u', 's', 'e', 'r', 's'])) = some lines)
    (hprotected : entryFound resource lines = true) (hhome : Scanimage.HomeFits env)
    (hpass : env.getpass.length < SANE_MAX_PASSWORD_LEN) (hname : (0x24 : SaneByte) ∉ name) :
    ∃ c st, given env clientStack (netResource name (challengeText stamp resource)) = .ok c ∧
      saneiAuthorize md5 stack configOpen stamp resource backend
        (some (askClient env md5 clientStack name)) = .ok st ∧
      (st = .good ↔ ∃ line ∈ lines, Accepts md5 (challengeText stamp resource) resource
        (cString c.username.cells)
        (response md5 (salt (challengeText stamp resource)) (cString c.password.cells)) line) ∧
      (∀ line ∈ lines, entryOf line =
        some (cString c.username.cells, cString c.password.cells, resource) → st = .good) := by
  have htake : resource.take 128 = resource := List.take_of_length_le (by omega)
  have hstamp := length_stamp stamp
  have hmarkLen : md5Mark.length = 5 := rfl
  have htext : (resource.take 128 ++ md5Mark ++ stamp.text).length ≤ 133 := by
    rw [htake, List.length_append, List.length_append, hmarkLen]
    omega
  obtain ⟨filename, hsprintf, hend, hfile⟩ := sprintf_string (stack 256)
    (backend ++ ascii ['.', 'u', 's', 'e', 'r', 's']) (by
      rw [List.length_append, length_ascii]
      exact Nat.add_lt_add_right hbackend 6)
  obtain ⟨sent, hsprintf', hend', hsent⟩ := sprintf_string (stack 256)
    (resource.take 128 ++ md5Mark ++ stamp.text) (Nat.lt_of_le_of_lt htext (by decide))
  change cString sent.cells = challengeText stamp resource at hsent
  have hlen : (challengeText stamp resource).length ≤ 133 := (length_cString_le _).trans htext
  obtain ⟨i, hmark⟩ : ∃ i, strstr md5Mark (challengeText stamp resource) = some i := by
    have hne : ∀ b ∈ md5Mark, b ≠ 0 := by decide
    rw [challengeText, htake, List.append_assoc, cString_append_of_ne hresource,
      cString_append_of_ne hne]
    exact strstr_append md5Mark _ _
  have hsalt : (salt (challengeText stamp resource)).take 128 =
      salt (challengeText stamp resource) := by
    refine List.take_of_length_le ?_
    rw [salt, List.length_drop]
    omega
  obtain ⟨c, c', hgiven, ⟨-, hcend⟩, hask, ⟨huser, hpassword⟩, husername, hresponse⟩ :=
    @askClient_answers _ md5 clientStack _ env name hhome hpass hname hmark .cleared
  obtain ⟨st, hverify, hst⟩ := @verify_eq _ md5 stack _ resource (cString c.username.cells) hmark
    (by omega) (salt (challengeText stamp resource)) (cString c.password.cells) lines
  refine ⟨c, st, hgiven, ?_, hst, fun line hline hentry => hst.mpr ⟨line, hline, _, hentry, ?_⟩⟩
  · rw [saneiAuthorize, hsprintf, ok_bind, CharArray.string_eq hend, ok_bind, hfile, hopen]
    dsimp only
    rw [if_neg (by rw [hprotected]; decide), hsprintf', ok_bind, CharArray.string_eq hend', ok_bind,
      hsent, hask, ok_bind, CharArray.string_eq huser, ok_bind, CharArray.string_eq hpassword,
      ok_bind, husername, hresponse, hsalt]
    exact hverify
  · rw [List.take_of_length_le]
    exact (length_cString_lt hcend).le.trans (by decide)

/-- A user who types in a name and a password. -/
def typing : Scanimage.Surroundings where
  home := none
  stat _ := none
  acceptOnlyMd5Auth := true
  stdin := ascii ['u', '\n']
  getpass := ascii ['p']

/-- The user `u` with the password `p`, and the digest of the library. -/
theorem authorize_over_network_typed :
    ∃ c st, given typing (fun n => .zero n) (netResource (ascii ['h']) (challengeText ⟨1, 2, 3⟩
        (ascii ['t']))) = .ok c ∧
      saneiAuthorize (md5Buffer false (List.replicate 128 0)) (fun n => .zero n)
        (fun _ => some [ascii ['u', ':', 'p', ':', 't']]) ⟨1, 2, 3⟩ (ascii ['t']) (ascii ['t'])
        (some (askClient typing (md5Buffer false (List.replicate 128 0)) (fun n => .zero n)
          (ascii ['h']))) = .ok st ∧ st = .good := by
  obtain ⟨c, st, hgiven, hrun, -, hlets⟩ :=
    @authorize_over_network (md5Buffer false (List.replicate 128 0)) (fun n => .zero n)
      (ascii ['t']) typing (fun _ => some [ascii ['u', ':', 'p', ':', 't']]) _ (ascii ['t'])
      (ascii ['h']) (fun n => .zero n) ⟨1, 2, 3⟩ (by decide) (by decide) (by decide) rfl (by decide)
      (fun home h => by simp [typing] at h) (by decide) (by decide)
  refine ⟨c, st, hgiven, hrun, hlets _ List.mem_cons_self ?_⟩
  have htyped : (given typing (fun n => .zero n) (netResource (ascii ['h'])
      (challengeText ⟨1, 2, 3⟩ (ascii ['t'])))).toOption.any (fun c =>
        entryOf (ascii ['u', ':', 'p', ':', 't']) ==
          some (cString c.username.cells, cString c.password.cells, ascii ['t'])) = true := by
    decide +kernel
  rw [hgiven] at htyped
  exact beq_iff_eq.mp htyped

end SaneBackends.Authorization

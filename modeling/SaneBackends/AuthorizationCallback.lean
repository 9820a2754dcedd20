import SaneBackends.AuthorizationStrings

/-!
# The callback of `scanimage`

The user name and the password come from the file of passwords or from the user.  Lines of the file
are cut to the size of `tmp`, and fields that are too long are passed over.
-/

namespace SaneBackends.Authorization

open FaultState SaneiConfig

namespace Scanimage

variable {n : Nat} {a b : CharArray n} {text : CStr} {c : Credentials} {env : Surroundings}
  {resource : CStr} {md5 : Md5} {stack : Stack}

/-! ### Strings in arrays -/

theorem cells_of_terminated (h : a.Terminated) :
    ∃ rest, a.cells = cString a.cells ++ 0 :: rest := by
  refine ⟨a.cells.drop ((cString a.cells).length + 1), ?_⟩
  have hsplit := List.take_append_drop ((cString a.cells).length + 1) a.cells
  rw [take_length_cString h, List.append_assoc] at hsplit
  exact hsplit.symm

/-- The text without a character at its end. -/
def chompText (x : SaneByte) (s : CStr) : CStr :=
  if 0 < s.length ∧ s.getLast? = some x then s.dropLast else s

theorem chomp_eq (x : SaneByte) (h : a.Terminated) :
    ∃ b : CharArray n, chomp x a = .ok b ∧ b.Terminated ∧
      cString b.cells = chompText x (cString a.cells) := by
  rw [chomp, CharArray.string_eq h, ok_bind, chompText]
  have hlen := length_cString_lt h
  split
  · rename_i hlast
    have hpos := hlast.1
    obtain ⟨b, hset, hcells⟩ := CharArray.set_eq (a := a)
      (show (cString a.cells).length - 1 < n by omega) 0
    refine ⟨b, hset, CharArray.terminated_set (by omega) hcells, ?_⟩
    obtain ⟨rest, hrest⟩ := cells_of_terminated h
    have hb : b.cells = (cString a.cells).dropLast ++ 0 :: 0 :: rest := by
      rw [hcells]
      generalize cString a.cells = s at hrest hpos
      rw [hrest, List.set_append_left _ _ (by omega), List.set_eq_take_append_cons_drop,
        if_pos (by omega), List.drop_eq_nil_of_le (by omega), List.dropLast_eq_take,
        List.append_assoc]
      rfl
    rw [hb, cString_append_zero]
    have hne : ∀ y ∈ (cString a.cells).dropLast, y ≠ 0 := fun y hy =>
      ne_zero_of_mem_cString (List.mem_of_mem_dropLast hy)
    have hstring := cString_append hne []
    rwa [cString_append_zero] at hstring
  · exact ⟨a, rfl, h, rfl⟩

theorem storeField_eq (h : text.length < n) :
    ∃ b : CharArray n, storeField a text = .ok b ∧ b.Terminated := by
  obtain ⟨b, hput, -⟩ := CharArray.put_eq (a := a) text h.le
  obtain ⟨b', hset, hcells⟩ := CharArray.set_eq (a := b) h 0
  rw [storeField, hput, ok_bind]
  exact ⟨b', hset, CharArray.terminated_set h hcells⟩

/-! ### The file of passwords -/

/-- The lines that the loop reads. -/
def passLines : Nat → List SaneByte → List CStr
  | 0, _ => []
  | fuel + 1, stream =>
    if stream = [] then []
    else
      let line := lineOf (tmpSize - 1) stream
      chompText 0x0d (chompText 0x0a (cString line)) :: passLines fuel (stream.drop line.length)

/-- One of the lines is for the resource. -/
def hasEntry (resource : CStr) (lines : List CStr) : Bool :=
  lines.any fun line => (passEntry resource (resourceLen resource) line).isSome

theorem passEntry_lengths {len : Nat} {line user password : CStr}
    (h : passEntry resource len line = some (user, password)) :
    user.length < SANE_MAX_USERNAME_LEN ∧ password.length < SANE_MAX_PASSWORD_LEN := by
  rw [passEntry] at h
  obtain ⟨⟨user', password', res⟩, -, h⟩ := Option.bind_eq_some_iff.mp h
  dsimp only at h
  split at h
  · rename_i hfits
    cases h
    exact hfits.2.2
  · cases h

theorem passLoop_inside (hc : c.Terminated) (fuel : Nat) (tmp : CharArray tmpSize)
    (stream : List SaneByte) :
    ∃ tmp' c', c'.Terminated ∧ passLoop resource (resourceLen resource) fuel tmp stream c =
      .ok (tmp', c', !hasEntry resource (passLines fuel stream)) := by
  induction fuel generalizing tmp stream with
  | zero => exact ⟨tmp, c, hc, rfl⟩
  | succ fuel ih =>
    rw [passLoop, passLines]
    by_cases hstream : stream = []
    · rw [CharArray.fgets, if_pos hstream, if_pos hstream]
      exact ⟨tmp, c, hc, rfl⟩
    · obtain ⟨line, hend, hfgets, hline⟩ :=
        CharArray.fgets_eq (a := tmp) (by decide) hstream
      obtain ⟨line₁, hchomp₁, hend₁, htext₁⟩ := chomp_eq 0x0a hend
      obtain ⟨line₂, hchomp₂, hend₂, htext₂⟩ := chomp_eq 0x0d hend₁
      rw [hline, cString_append_zero] at htext₁
      rw [htext₁] at htext₂
      rw [if_neg hstream, hfgets, ok_bind]
      dsimp only
      rw [hchomp₁, ok_bind, hchomp₂, ok_bind, CharArray.string_eq hend₂, ok_bind, htext₂,
        hasEntry, List.any_cons]
      cases hentry : passEntry resource (resourceLen resource) (chompText 0x0d
          (chompText 0x0a (cString (lineOf (tmpSize - 1) stream)))) with
      | none => exact ih line₂ _
      | some entry =>
        obtain ⟨user, password⟩ := entry
        obtain ⟨huser, hpassword⟩ := passEntry_lengths hentry
        obtain ⟨username, hstore, hend₃⟩ := storeField_eq (a := c.username) huser
        obtain ⟨password', hstore', hend₄⟩ := storeField_eq (a := c.password) hpassword
        refine ⟨line₂, ⟨username, password'⟩, ⟨hend₃, hend₄⟩, ?_⟩
        dsimp only
        rw [hstore, ok_bind, hstore']
        rfl

/-- `"/.sane/pass"` -/
def passSuffix : CStr := ascii ['/', '.', 's', 'a', 'n', 'e', '/', 'p', 'a', 's', 's']

/-- The name of the file of passwords, empty if there is none. -/
def passFileName (env : Surroundings) : CStr :=
  match env.home with
  | none => []
  | some home => if home.length < 500 then cString (home ++ passSuffix) else []

/-- The name fits in `tmp` or is not stored there. -/
def HomeFits (env : Surroundings) : Prop :=
  ∀ home, env.home = some home → home.length < 376 ∨ 500 ≤ home.length

/-- The file of passwords has an entry for the resource. -/
def listed (env : Surroundings) (resource : CStr) : Bool :=
  if passFileName env = [] then false
  else
    match env.stat (passFileName env) with
    | none => false
    | some file =>
      if file.mode % 64 ≠ 0 then false
      else
        match file.content with
        | none => false
        | some stream => hasEntry resource (passLines (stream.length + 1) stream)

theorem passName_inside (h : HomeFits env) (tmp : CharArray tmpSize) :
    ∃ tmp', passName env tmp = .ok tmp' ∧ tmp'.Terminated ∧
      cString tmp'.cells = passFileName env := by
  obtain ⟨tmp₀, hset, hcells⟩ := CharArray.set_eq (a := tmp) (show 0 < tmpSize by decide) 0
  have hend := CharArray.terminated_set (by decide) hcells
  have hempty : cString tmp₀.cells = [] := by
    rw [hcells]
    cases htmp : tmp.cells with
    | nil => rfl
    | cons x xs => rfl
  rw [passName, hset, ok_bind, passFileName]
  cases hhome : env.home with
  | none => exact ⟨tmp₀, rfl, hend, hempty⟩
  | some home =>
    dsimp only
    split
    · have hshort := (h home hhome).resolve_right (by omega)
      obtain ⟨tmp', hsprintf, hend', hcells'⟩ := CharArray.sprintf_eq (a := tmp₀)
        (home ++ passSuffix) (by
          rw [List.length_append]
          exact Nat.add_lt_add_right hshort 11)
      exact ⟨tmp', hsprintf, hend', by rw [hcells', cString_append_zero]⟩
    · exact ⟨tmp₀, rfl, hend, hempty⟩

theorem passName_long (h : ¬ HomeFits env) (tmp : CharArray tmpSize) :
    passName env tmp = .error .outOfBounds := by
  rw [HomeFits] at h
  push Not at h
  obtain ⟨home, hhome, hlong, hshort⟩ := h
  obtain ⟨tmp₀, hset, -⟩ := CharArray.set_eq (a := tmp) (show 0 < tmpSize by decide) 0
  rw [passName, hset, ok_bind, hhome]
  dsimp only
  rw [if_pos hshort]
  refine CharArray.sprintf_long ?_
  rw [List.length_append]
  exact Nat.add_le_add_right hlong 11

theorem lookUp_inside (h : HomeFits env) (resource : CStr) (hc : c.Terminated)
    (tmp : CharArray tmpSize) :
    ∃ tmp' c', c'.Terminated ∧
      lookUp env resource tmp c = .ok (tmp', c', !listed env resource) := by
  obtain ⟨name, hname, hend, htext⟩ := passName_inside h tmp
  rw [lookUp, hname, ok_bind, CharArray.string_eq hend, ok_bind, htext, listed]
  split
  · exact ⟨name, c, hc, rfl⟩
  · cases env.stat (passFileName env) with
    | none => exact ⟨name, c, hc, rfl⟩
    | some file =>
      dsimp only
      split
      · exact ⟨name, c, hc, rfl⟩
      · cases file.content with
        | none => exact ⟨name, c, hc, rfl⟩
        | some stream => exact passLoop_inside hc _ _ _

/-! ### Asking the user -/

/-- The user is asked for the password. -/
def Asks (env : Surroundings) (resource : CStr) : Prop :=
  match strstr md5Mark resource with
  | none => env.acceptOnlyMd5Auth = false
  | some _ => listed env resource = false

theorem askUsername_inside (env : Surroundings) {username : CharArray SANE_MAX_USERNAME_LEN}
    (h : username.Terminated) (queryUser : Bool) :
    ∃ username', askUsername env queryUser username = .ok username' ∧
      username'.Terminated := by
  rw [askUsername]
  split
  · by_cases hstdin : env.stdin = []
    · rw [CharArray.fgets, if_pos hstdin]
      exact ⟨_, rfl, h⟩
    · obtain ⟨line, hend, hfgets, -⟩ := CharArray.fgets_eq (a := username) (by decide) hstdin
      rw [hfgets]
      exact ⟨line, rfl, hend⟩
  · exact ⟨_, rfl, h⟩

/-- The password that is typed in has to fit in its array. -/
theorem askUser_inside (hc : c.Terminated) {queryUser : Bool}
    (h : queryUser = true → env.getpass.length < SANE_MAX_PASSWORD_LEN) :
    ∃ c', askUser env queryUser c = .ok c' ∧ c'.Terminated := by
  obtain ⟨username, husername, hend⟩ := askUsername_inside env hc.1 queryUser
  obtain ⟨username', hchomp, hend', -⟩ := chomp_eq 0x0a hend
  rw [askUser, husername, ok_bind, hchomp, ok_bind, askPassword]
  split
  · rename_i hquery
    obtain ⟨password, hsprintf, hend'', -⟩ := CharArray.sprintf_eq (a := c.password) _ (h hquery)
    rw [hsprintf]
    exact ⟨_, rfl, hend', hend''⟩
  · exact ⟨_, rfl, hend', hc.2⟩

theorem askUser_long (hc : c.Terminated)
    (hlong : SANE_MAX_PASSWORD_LEN ≤ env.getpass.length) :
    askUser env true c = .error .outOfBounds := by
  obtain ⟨username, husername, hend⟩ := askUsername_inside env hc.1 true
  obtain ⟨username', hchomp, -⟩ := chomp_eq 0x0a hend
  rw [askUser, husername, ok_bind, hchomp, ok_bind, askPassword, if_pos rfl,
    CharArray.sprintf_long hlong]
  rfl

/-- The digest takes the place of the password. -/
theorem authCallback_inside_iff (env : Surroundings) (md5 : Md5) (stack : Stack) (resource : CStr)
    {c₀ : Credentials} (hc₀ : c₀.Terminated) :
    (∃ c, authCallback env md5 stack resource c₀ = .ok c ∧ c.Terminated) ↔
      HomeFits env ∧ (Asks env resource → env.getpass.length < SANE_MAX_PASSWORD_LEN) := by
  by_cases hhome : HomeFits env
  · obtain ⟨tmp, c, hc, hlookUp⟩ := lookUp_inside hhome resource hc₀ (stack tmpSize)
    rw [authCallback, hlookUp, ok_bind, Asks, and_iff_right hhome]
    dsimp only
    cases strstr md5Mark resource with
    | none =>
      dsimp only
      cases hmd5 : env.acceptOnlyMd5Auth with
      | true => exact iff_of_true ⟨c, rfl, hc⟩ fun h => absurd h.symm Bool.false_ne_true
      | false =>
        rw [if_neg Bool.false_ne_true, imp_iff_right rfl]
        refine ⟨fun hcall => ?_, fun hshort => askUser_inside hc fun _ => hshort⟩
        obtain ⟨c', hcall, -⟩ := hcall
        rw [← Nat.not_le]
        intro hlong
        rw [askUser_long hc hlong] at hcall
        cases hcall
    | some i =>
      dsimp only
      constructor
      · rintro ⟨c', hcall, -⟩ hasks
        rw [← Nat.not_le]
        intro hlong
        rw [hasks, Bool.not_false, askUser_long hc hlong] at hcall
        cases hcall
      · intro hshort
        have hquery : (!listed env resource) = true →
            env.getpass.length < SANE_MAX_PASSWORD_LEN := by
          rw [Bool.not_eq_true']
          exact hshort
        obtain ⟨answer, hask, huser, hpass⟩ := askUser_inside hc hquery
        have hsalt := List.length_take_le 128 (resource.drop (i + 5))
        have hcut := List.length_take_le (SANE_MAX_PASSWORD_LEN - 1)
          (cString answer.password.cells)
        obtain ⟨tmp', hsprintf, hend, -⟩ := CharArray.sprintf_eq (a := tmp)
          ((resource.drop (i + 5)).take 128 ++
            (cString answer.password.cells).take (SANE_MAX_PASSWORD_LEN - 1)) (by
            rw [List.length_append]
            exact Nat.lt_of_le_of_lt (Nat.add_le_add hsalt hcut) (by decide))
        obtain ⟨password, hsprintf', hend', -⟩ := CharArray.sprintf_eq
          (a := CharArray.zero SANE_MAX_PASSWORD_LEN)
          (md5Text (md5 (cString tmp'.cells))) (by
            rw [length_md5Text]
            decide)
        rw [hask, ok_bind, CharArray.string_eq hpass, ok_bind, hsprintf, ok_bind,
          CharArray.string_eq hend, ok_bind, hsprintf']
        exact ⟨_, rfl, huser, hend'⟩
  · rw [authCallback, lookUp, passName_long hhome]
    exact iff_of_false (fun ⟨c, hc, _⟩ => nomatch hc) fun h => hhome h.1

end Scanimage

/-! ### All arrays -/

/-- What the functions work on; the resource is the string that a block begins with. -/
structure Request where
  md5 : Md5
  stack : Stack
  configOpen : CStr → Option (List CStr)
  stamp : Stamp
  resource : List SaneByte
  backend : CStr
  exchange : Exchange
  env : Scanimage.Surroundings

/-- No function leaves an array, and what the callbacks supply has an end.  The callback of
    `scanimage` may get any strings. -/
structure Request.Inside (r : Request) : Prop where
  saned : ∃ c, Saned.authCallback r.exchange = .ok c ∧ c.Terminated
  scanimage : ∀ c₀ : Credentials, c₀.Terminated →
    ∃ c, Scanimage.authCallback r.env r.md5 r.stack (cString r.resource) c₀ = .ok c ∧ c.Terminated
  authorize : ∀ authorize : Option AuthCallback, (∀ f, authorize = some f → Keeps f) →
    ∃ st, saneiAuthorize r.md5 r.stack r.configOpen r.stamp (cString r.resource) r.backend
      authorize = .ok st

/-- The strings whose length nothing bounds are short. -/
structure Request.Fits (r : Request) : Prop where
  client : r.exchange.Received →
    (wireText r.exchange.message.2.1).length < SANE_MAX_USERNAME_LEN ∧
      (wireText r.exchange.message.2.2).length < SANE_MAX_PASSWORD_LEN
  home : Scanimage.HomeFits r.env
  typed : Scanimage.Asks r.env (cString r.resource) →
    r.env.getpass.length < SANE_MAX_PASSWORD_LEN
  backend : r.backend.length < 250

/-- The arrays of the authorization are large enough exactly for these strings. -/
theorem authorization_inside_iff (r : Request) : r.Inside ↔ r.Fits := by
  have hsaned := Saned.authCallback_iff r.exchange
  have hscanimage := fun c₀ => @Scanimage.authCallback_inside_iff r.env r.md5 r.stack
    (cString r.resource) c₀
  constructor
  · intro h
    obtain ⟨hhome, htyped⟩ :=
      (hscanimage _ cleared_terminated).mp (h.scanimage _ cleared_terminated)
    refine ⟨hsaned.mp h.saned, hhome, htyped, ?_⟩
    obtain ⟨st, hst⟩ := h.authorize none (fun f hf => nomatch hf)
    rw [← Nat.not_le]
    intro hlong
    rw [saneiAuthorize_long hlong] at hst
    cases hst
  · intro h
    exact ⟨hsaned.mpr h.client, fun c₀ hc₀ => (hscanimage c₀ hc₀).mpr ⟨h.home, h.typed⟩,
      fun authorize hkeeps =>
        saneiAuthorize_inside hkeeps h.backend _ _ fun _ => ne_zero_of_mem_cString⟩

/-- A request with a user name of 200 characters, and short strings elsewhere. -/
def longUsername : Request where
  md5 := fun _ _ => 0
  stack := .zero
  configOpen := fun _ => none
  stamp := ⟨0, 0, 0⟩
  resource := []
  backend := []
  exchange :=
    { canAuthorize := true, status := 0, replyStatus := 0, wordStatus := 0,
      procnum := SANE_NET_AUTHORIZE, reqStatus := 0,
      message := ([], List.replicate 200 0x61 ++ [0], []) }
  env := ⟨none, fun _ => none, false, [], []⟩

/-- A client can send a user name that is longer than the array of `saned`. -/
theorem authCallback_overruns :
    ∃ r : Request, r.exchange.Received ∧
      (∀ ver prior, DecodesAs ver (saneiWAuthorizationReq saneiCodecBin prior)
        (authorizationReqFormat.bytes r.exchange.message) r.exchange.req
        (authorizationReqFormat.memory r.exchange.message)) ∧
      ¬ r.Inside := by
  have hlong : (List.replicate 200 (0x61 : SaneByte) ++ [0]).length ≤ MAX_MEM := by
    rw [List.length_append, List.length_replicate]
    decide
  have hvalid : authorizationReqFormat.Valid longUsername.exchange.message :=
    ⟨⟨by decide, fun _ _ => trivial⟩, ⟨hlong, fun _ _ => trivial⟩,
      ⟨by decide, fun _ _ => trivial⟩⟩
  refine ⟨longUsername, by decide, fun ver prior =>
    (Exchange.req_decoded ver prior).1 longUsername.exchange hvalid, fun h => ?_⟩
  have hclient := (Saned.authCallback_iff longUsername.exchange).mp h.saned (by decide)
  have htext : wireText (List.replicate 200 0x61 ++ [0]) = List.replicate 200 0x61 := by
    have hne : ∀ b ∈ List.replicate 200 (0x61 : SaneByte), b ≠ 0 := fun b hb => by
      rw [List.eq_of_mem_replicate hb]
      decide
    rw [wireText, List.dropLast_concat, ← cString_append_zero _ [], cString_append hne]
  have hlength : (wireText (List.replicate 200 0x61 ++ [0])).length < 128 := hclient.1
  rw [htext, List.length_replicate] at hlength
  exact absurd hlength (by decide)

end SaneBackends.Authorization

import SaneBackends.CharArrays
import SaneBackends.NetFormats

/-!
# Authorization

`sanei_authorize` and `check_passwd` of `sanei_auth.c`, and the callbacks of `saned` and `scanimage`
that supply a user name and a password.  A file of users is the list of the lines that
`sanei_config_read` finds in it.  The MD5 digest is a parameter.
-/

namespace SaneBackends.Authorization

def SANE_MAX_USERNAME_LEN : Nat := 128

def SANE_MAX_PASSWORD_LEN : Nat := 128

def SANE_NET_AUTHORIZE : SaneWord := 9

/-- `"$MD5$"` -/
def md5Mark : CStr := ascii ['$', 'M', 'D', '5', '$']

/-- The arrays that a callback stores a user name and a password in. -/
structure Credentials where
  username : CharArray SANE_MAX_USERNAME_LEN
  password : CharArray SANE_MAX_PASSWORD_LEN

/-- After both arrays have been cleared by `memset`. -/
def Credentials.cleared : Credentials := ⟨.zero _, .zero _⟩

/-- The 16 bytes that `md5_buffer` computes. -/
abbrev Md5 := CStr → Fin 16 → SaneByte

/-- `SANE_Auth_Callback`; what the arrays hold before is given too. -/
abbrev AuthCallback := CStr → Credentials → Except Fault Credentials

/-! ### Strings -/

/-- `strstr (s, pattern)`: the distance to the pattern. -/
def strstr (pattern : CStr) : CStr → Option Nat
  | [] => if pattern = [] then some 0 else none
  | b :: bs =>
    if pattern.isPrefixOf (b :: bs) then some 0 else (strstr pattern bs).map (· + 1)

/-- The strings in front of the first colon and behind it. -/
def splitColon : CStr → Option (CStr × CStr)
  | [] => none
  | b :: bs => if b = 0x3a then some ([], bs) else (splitColon bs).map fun p => (b :: p.1, p.2)

/-- `%x` and `%lx` -/
def hex (n : Nat) : CStr := ascii (Nat.toDigits 16 n)

/-- `%08lx` -/
def hexLong (n : Nat) : CStr := List.replicate (8 - (hex n).length) 0x30 ++ hex n

/-- `%02x` -/
def hexByte (b : SaneByte) : CStr :=
  ascii [Nat.digitChar (b.toNat / 16), Nat.digitChar (b.toNat % 16)]

/-- `"$MD5$"` with the digest in hexadecimal digits. -/
def md5Text (digest : Fin 16 → SaneByte) : CStr :=
  md5Mark ++ (List.finRange 16).flatMap fun i => hexByte (digest i)

/-! ### `sanei_auth.c` -/

/-- What the arrays of a function hold before they are used. -/
abbrev Stack := (n : Nat) → CharArray n

def checkPasswd (md5 : Md5) (stack : Stack) (upassword password randomstring : CStr) :
    Except Fault Bool :=
  if upassword.take 5 = md5Mark then
    match strstr md5Mark randomstring with
    | none => .error .wildPointer
    | some i => do
      let tmpstr ← (stack 512).sprintf (randomstring.drop (i + 5) ++ password.take 128)
      let digest := md5 (← tmpstr.string)
      let tmpstr ← tmpstr.sprintf (md5Text digest)
      return upassword = (← tmpstr.string)
  else .ok (upassword = password)

/-- What tells one challenge from others: the process, the time and a random number. -/
structure Stamp where
  pid : BitVec 32
  time : BitVec 64
  random : BitVec 64

def Stamp.text (s : Stamp) : CStr := hex s.pid.toNat ++ hex s.time.toNat ++ hexLong s.random.toNat

/-- A line `user:password:resource` -/
def entryOf (line : CStr) : Option (CStr × CStr × CStr) := do
  let (user, rest) ← splitColon line
  let (password, resource) ← splitColon rest
  return (user, password, resource)

/-- The first loop of `sanei_authorize` -/
def entryFound (resource : CStr) (lines : List CStr) : Bool :=
  lines.any fun line => (entryOf line).any fun entry => entry.2.2 = resource

/-- The second loop of `sanei_authorize` -/
def verify (md5 : Md5) (stack : Stack) (resource md5resource username password : CStr) :
    List CStr → Except Fault SaneStatus
  | [] => .ok .accessDenied
  | line :: lines =>
    match entryOf line with
    | none => verify md5 stack resource md5resource username password lines
    | some (user, pass, res) =>
      if user = username ∧ res = resource then do
        if (← checkPasswd md5 stack password pass md5resource) = true then return .good
        else verify md5 stack resource md5resource username password lines
      else verify md5 stack resource md5resource username password lines

def saneiAuthorize (md5 : Md5) (stack : Stack) (configOpen : CStr → Option (List CStr))
    (stamp : Stamp) (resource backend : CStr) (authorize : Option AuthCallback) :
    Except Fault SaneStatus := do
  let passwdFilename ← (stack 256).sprintf
    (backend ++ ascii ['.', 'u', 's', 'e', 'r', 's'])
  match configOpen (← passwdFilename.string) with
  | none => return .good
  | some lines =>
    if entryFound resource lines = false then return .good
    else
      match authorize with
      | none => return .accessDenied
      | some authorize =>
        let md5resource ← (stack 256).sprintf (resource.take 128 ++ md5Mark ++ stamp.text)
        let md5resource ← md5resource.string
        let c ← authorize md5resource .cleared
        verify md5 stack resource md5resource (← c.username.string) (← c.password.string) lines

/-! ### `auth_callback` of `saned` -/

/-- What `saned` finds when it asks a client: whether it may ask, the statuses of the wire before it
    and after each step, the procedure number, and the three strings of the request as they are
    sent: resource, user name and password. -/
structure Exchange where
  canAuthorize : Bool
  status : Nat
  replyStatus : Nat
  wordStatus : Nat
  procnum : SaneWord
  reqStatus : Nat
  message : List SaneByte × List SaneByte × List SaneByte

/-- The request that `sanei_w_authorization_req` decodes. -/
def Exchange.req (x : Exchange) : SaneAuthorizationReq :=
  ⟨terminate x.message.1, terminate x.message.2.1, terminate x.message.2.2⟩

/-- `if (src) strcpy (dest, src)` -/
def copyString {n : Nat} (dest : CharArray n) : SaneString → Except Fault (CharArray n)
  | .null => .ok dest
  | .wild => .error .wildPointer
  | .block src => dest.strcpy src

namespace Saned

def authCallback (x : Exchange) : Except Fault Credentials :=
  let c := Credentials.cleared
  if x.canAuthorize = false then .ok c
  else if x.status ≠ 0 then .ok c
  else if x.replyStatus ≠ 0 then .ok c
  else if x.wordStatus ≠ 0 then .ok c
  else if x.procnum ≠ SANE_NET_AUTHORIZE then .ok c
  else if x.reqStatus ≠ 0 then .ok c
  else do
    let username ← copyString c.username x.req.username
    let password ← copyString c.password x.req.password
    return ⟨username, password⟩

end Saned

/-! ### `auth_callback` of `scanimage` -/

namespace Scanimage

/-- The file of passwords: its mode, and its contents if it can be opened. -/
structure PassFile where
  mode : Nat
  content : Option (List SaneByte)

/-- What surrounds a call: the home directory, what `stat` and `fopen` say about a name, the
    setting `accept_only_md5_auth`, the standard input and what `getpass` returns. -/
structure Surroundings where
  home : Option CStr
  stat : CStr → Option PassFile
  acceptOnlyMd5Auth : Bool
  stdin : List SaneByte
  getpass : CStr

/-- The size of `tmp`. -/
def tmpSize : Nat := 3 + 128 + SANE_MAX_USERNAME_LEN + SANE_MAX_PASSWORD_LEN

/-- `if ((strlen (s) > 0) && (s[strlen (s) - 1] == x)) s[strlen (s) - 1] = 0;` -/
def chomp {n : Nat} (x : SaneByte) (a : CharArray n) : Except Fault (CharArray n) := do
  let s ← a.string
  if 0 < s.length ∧ s.getLast? = some x then a.set (s.length - 1) 0 else return a

/-- What a line of the file of passwords brings for a resource of `len` characters. -/
def passEntry (resource : CStr) (len : Nat) (line : CStr) : Option (CStr × CStr) := do
  let (user, password, res) ← entryOf line
  if res.take len = resource.take len ∧ res.length = len ∧ user.length < SANE_MAX_USERNAME_LEN ∧
      password.length < SANE_MAX_PASSWORD_LEN then some (user, password)
  else none

/-- `strncpy (dest, src, n); dest[n] = 0;` for the `n` bytes of `src`. -/
def storeField {n : Nat} (dest : CharArray n) (src : CStr) : Except Fault (CharArray n) := do
  let dest ← dest.put src
  dest.set src.length 0

/-- The loop over the file of passwords, which reads at most `fuel` lines: `tmp`, and the
    credentials with what is still to be asked for. -/
def passLoop (resource : CStr) (len : Nat) : Nat → CharArray tmpSize → List SaneByte →
    Credentials → Except Fault (CharArray tmpSize × Credentials × Bool)
  | 0, tmp, _, c => .ok (tmp, c, true)
  | fuel + 1, tmp, stream, c => do
    match ← tmp.fgets stream with
    | none => return (tmp, c, true)
    | some (tmp, stream) =>
      let tmp ← chomp 0x0a tmp
      let tmp ← chomp 0x0d tmp
      match passEntry resource len (← tmp.string) with
      | none => passLoop resource len fuel tmp stream c
      | some (user, password) =>
        let username ← storeField c.username user
        let password ← storeField c.password password
        return (tmp, ⟨username, password⟩, false)

/-- The name of the file of passwords. -/
def passName (env : Surroundings) (tmp : CharArray tmpSize) :
    Except Fault (CharArray tmpSize) := do
  let tmp ← tmp.set 0 0
  match env.home with
  | none => return tmp
  | some home =>
    if home.length < 500 then
      tmp.sprintf (home ++ ascii ['/', '.', 's', 'a', 'n', 'e', '/', 'p', 'a', 's', 's'])
    else return tmp

/-- The part of the resource that has to be in the file. -/
def resourceLen (resource : CStr) : Nat := (strstr md5Mark resource).getD resource.length

/-- The part in front of the questions. -/
def lookUp (env : Surroundings) (resource : CStr) (tmp : CharArray tmpSize) (c : Credentials) :
    Except Fault (CharArray tmpSize × Credentials × Bool) := do
  let tmp ← passName env tmp
  let name ← tmp.string
  if name = [] then return (tmp, c, true)
  else
    match env.stat name with
    | none => return (tmp, c, true)
    | some file =>
      if file.mode % 64 ≠ 0 then return (tmp, c, true)
      else
        match file.content with
        | none => return (tmp, c, true)
        | some stream =>
          passLoop resource (resourceLen resource) (stream.length + 1) tmp stream c

def askUsername (env : Surroundings) (queryUser : Bool)
    (username : CharArray SANE_MAX_USERNAME_LEN) :
    Except Fault (CharArray SANE_MAX_USERNAME_LEN) :=
  if queryUser then do
    match ← username.fgets env.stdin with
    | none => return username
    | some (username, _) => return username
  else .ok username

def askPassword (env : Surroundings) (queryUser : Bool)
    (password : CharArray SANE_MAX_PASSWORD_LEN) :
    Except Fault (CharArray SANE_MAX_PASSWORD_LEN) :=
  if queryUser then password.sprintf env.getpass else .ok password

/-- The questions for a user name and a password. -/
def askUser (env : Surroundings) (queryUser : Bool) (c : Credentials) :
    Except Fault Credentials := do
  let username ← askUsername env queryUser c.username
  let username ← chomp 0x0a username
  let password ← askPassword env queryUser c.password
  return ⟨username, password⟩

def authCallback (env : Surroundings) (md5 : Md5) (stack : Stack) (resource : CStr)
    (c : Credentials) : Except Fault Credentials := do
  let (tmp, c, queryUser) ← lookUp env resource (stack tmpSize) c
  match strstr md5Mark resource with
  | none =>
    if env.acceptOnlyMd5Auth then return c
    else askUser env true c
  | some i =>
    let c ← askUser env queryUser c
    let tmp ← tmp.sprintf ((resource.drop (i + 5)).take 128 ++
      (← c.password.string).take (SANE_MAX_PASSWORD_LEN - 1))
    let digest := md5 (← tmp.string)
    let password ← (CharArray.zero SANE_MAX_PASSWORD_LEN).sprintf (md5Text digest)
    return { c with password }

end Scanimage

end SaneBackends.Authorization

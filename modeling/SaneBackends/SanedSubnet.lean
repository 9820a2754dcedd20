import SaneBackends.BitPrefixes
import SaneBackends.CNumbers
import SaneBackends.FaultState
import SaneBackends.WordBytes
import Mathlib.Tactic.IntervalCases

/-!
# The subnet check of saned

`check_v4_in_range` and `check_v6_in_range` of `frontend/saned.c`: whether the address of a
client belongs to a subnet of the configuration file.  The mask is built from the prefix length
with one step for each full byte and one for the bits that are left.  The second step is made
for full prefixes, too, when there is no byte left.
-/

namespace SaneBackends.SanedSubnet

open FaultState WordBytes BitPrefixes

/-! ### The prefix length -/

/-- `cidr = strtol (netmask, &end, 10)` and the sanity check on it. -/
def cidrOf (bits : Int) (netmask : CStr) : Option Int :=
  match strtol 10 netmask with
  | none => none
  | some v => if longToInt v < 0 ∨ bits < longToInt v then none else some (longToInt v)

/-- Convert a number of bits to an 8-bit bitmask. -/
def cidrtomask : List (BitVec 32) := [0x00, 0x80, 0xC0, 0xE0, 0xF0, 0xF8, 0xFC, 0xFE, 0xFF]

/-- `a[i]`. -/
def elem {α : Type} (a : List α) (i : Int) : Except Fault α :=
  if 0 ≤ i then
    match a[i.toNat]? with
    | some x => .ok x
    | none => .error .outOfBounds
  else .error .outOfBounds

/-- `a[i] = x`. -/
def setElem {α : Type} (a : List α) (i : Int) (x : α) : Except Fault (List α) :=
  if 0 ≤ i ∧ i < a.length then .ok (a.set i.toNat x) else .error .outOfBounds

/-! ### IPv4 -/

/-- `htonl` on a little-endian host. -/
def htonl (v : BitVec 32) : BitVec 32 := ofBytesBE (bytesBE v).reverse

/-- `x << n`.  What becomes of a shift by less than 0 or more than 31 bits, which C leaves
    undefined, is `beyond`. -/
def shiftLeft (beyond : Except Fault (BitVec 32)) (x : BitVec 32) (n : Int) :
    Except Fault (BitVec 32) :=
  if 0 ≤ n ∧ n < 32 then .ok (x <<< n.toNat) else beyond

/-- The loop over the full bytes: the mask, `i` and `cidr` behind it. -/
def fullBytes (beyond : Except Fault (BitVec 32)) (mask : BitVec 32) (i cidr : Int) :
    Except Fault (BitVec 32 × Int × Int) :=
  if 0 ≤ cidr then do
    let byte ← shiftLeft beyond 0xff (8 * i)
    fullBytes beyond (mask ||| byte) (i - 1) (cidr - 8)
  else .ok (mask, i, cidr)
termination_by (cidr + 8).toNat
decreasing_by omega

/-- The mask in the order of the host. -/
def maskV4 (beyond : Except Fault (BitVec 32)) (cidr : Int) : Except Fault (BitVec 32) := do
  let (mask, i, cidr) ← fullBytes beyond 0 3 (cidr - 8)
  if cidr < 0 then
    let byte ← shiftLeft beyond (← elem cidrtomask (cidr + 8)) (8 * i)
    return mask ||| byte
  else return mask

/-- `check_v4_in_range`; addresses are given by their `s_addr`, and `getaddrinfo` finds the
    address that a numeric host name stands for. -/
def checkV4InRange (beyond : Except Fault (BitVec 32)) (getaddrinfo : CStr → Option (BitVec 32))
    (sin : BitVec 32) (baseIp netmask : CStr) : Except Fault Bool :=
  match cidrOf 32 netmask with
  | none => .ok false
  | some cidr => do
    let mask ← maskV4 beyond cidr
    match getaddrinfo baseIp with
    | none => return false
    | some base => return base &&& htonl mask == sin &&& htonl mask

/-! ### IPv6 -/

/-- An address of 16 bytes. -/
structure In6Addr where
  s6Addr : List SaneByte
  length : s6Addr.length = 16
deriving DecidableEq

/-- The loop over the full bytes. -/
def fullElems (mask : List (BitVec 32)) (i cidr : Int) :
    Except Fault (List (BitVec 32) × Int × Int) :=
  if 0 ≤ cidr then do
    let mask ← setElem mask i 0xff
    fullElems mask (i + 1) (cidr - 8)
  else .ok (mask, i, cidr)
termination_by (cidr + 8).toNat
decreasing_by omega

def maskV6 (cidr : Int) : Except Fault (List (BitVec 32)) := do
  let (mask, i, cidr) ← fullElems (List.replicate 16 0) 0 (cidr - 8)
  if cidr < 0 then setElem mask i (← elem cidrtomask (cidr + 8))
  else return mask

/-- The loop that compares the addresses, with `n` bytes left from `i` on. -/
def sameBytes (mask : List (BitVec 32)) (base sin6 : List SaneByte) :
    Nat → Int → Except Fault Bool
  | 0, _ => .ok true
  | n + 1, i => do
    let b ← elem base i
    let s ← elem sin6 i
    let m ← elem mask i
    if b.setWidth 32 &&& m ≠ s.setWidth 32 &&& m then return false
    sameBytes mask base sin6 n (i + 1)

def checkV6InRange (getaddrinfo : CStr → Option In6Addr) (sin6 : In6Addr)
    (baseIp netmask : CStr) : Except Fault Bool :=
  match cidrOf 128 netmask with
  | none => .ok false
  | some cidr => do
    let mask ← maskV6 cidr
    match getaddrinfo baseIp with
    | none => return false
    | some base => sameBytes mask base.s6Addr sin6.s6Addr 16 0

/-! ### The prefix length that is read -/

/-- Every prefix length is read from its decimal notation. -/
example : ∀ p ≤ 128, cidrOf 128 (ascii (Nat.toDigits 10 p)) = some p ∧
    (p ≤ 32 → cidrOf 32 (ascii (Nat.toDigits 10 p)) = some p) := by
  decide +kernel

theorem cidrOf_bounds {bits c : Int} {netmask : CStr} (h : cidrOf bits netmask = some c) :
    0 ≤ c ∧ c ≤ bits := by
  unfold cidrOf at h
  split at h
  · cases h
  · split_ifs at h with hout
    cases h
    omega

theorem elem_eq_ok {α : Type} {a : List α} {i : Nat} (h : i < a.length) :
    elem a (i : Int) = .ok a[i] := by
  rw [elem, if_pos (Int.natCast_nonneg i), Int.toNat_natCast, List.getElem?_eq_getElem h]

/-- The table holds the masks of the prefixes of a byte. -/
theorem elem_cidrtomask {c : Nat} (hc : c ≤ 8) :
    elem cidrtomask (c : Int) = .ok ((prefixMask 8 c).setWidth 32) := by
  interval_cases c <;> rfl

/-! ### The mask of an IPv4 prefix -/

/-- One more full byte. -/
theorem prefixMask_or_full : ∀ k < 4,
    prefixMask 32 (8 * k) ||| ((0xff : BitVec 32) <<< (8 * (3 - k))) =
      prefixMask 32 (8 * (k + 1)) := by
  decide

/-- The bits that are left. -/
theorem prefixMask_or_rest : ∀ k < 4, ∀ c < 8,
    prefixMask 32 (8 * k) ||| (((prefixMask 8 c).setWidth 32 : BitVec 32) <<< (8 * (3 - k))) =
      prefixMask 32 (8 * k + c) := by
  decide

theorem shiftLeft_byte (beyond : Except Fault (BitVec 32)) (x : BitVec 32) {k : Nat}
    (hk : k < 4) : shiftLeft beyond x (8 * (3 - k : Int)) = .ok (x <<< (8 * (3 - k))) := by
  have hcount : (8 * (3 - k : Int)).toNat = 8 * (3 - k) := by omega
  rw [shiftLeft, if_pos (by omega), hcount]

/-- The loop sets all the full bytes of the prefix. -/
theorem fullBytes_eq (beyond : Except Fault (BitVec 32)) {p : Nat} (hp : p ≤ 32) {n k : Nat}
    (hn : k + n = p / 8) :
    fullBytes beyond (prefixMask 32 (8 * k)) (3 - k) ((p : Int) - 8 - 8 * k) =
      .ok (prefixMask 32 (8 * (p / 8)), 3 - (p / 8 : Nat), (p % 8 : Nat) - 8) := by
  induction n generalizing k with
  | zero =>
    obtain rfl : k = p / 8 := by omega
    rw [fullBytes, if_neg (by omega)]
    have hcidr : (p : Int) - 8 - 8 * (p / 8 : Nat) = (p % 8 : Nat) - 8 := by omega
    rw [hcidr]
  | succ n ih =>
    have hnext := ih (k := k + 1) (by omega)
    rw [fullBytes, if_pos (by omega), shiftLeft_byte beyond _ (by omega)]
    have hi : (3 : Int) - k - 1 = 3 - ((k + 1 : Nat) : Int) := by omega
    have hcidr : (p : Int) - 8 - 8 * k - 8 = p - 8 - 8 * ((k + 1 : Nat) : Int) := by omega
    change fullBytes beyond _ (3 - k - 1) (p - 8 - 8 * k - 8) = _
    rw [prefixMask_or_full k (by omega), hi, hcidr]
    exact hnext

theorem prefixMask_zero : prefixMask 32 (8 * 0) = 0 := by decide

/-- For a full prefix nothing is left for the second step, which shifts by -8 then. -/
theorem maskV4_eq (beyond : Except Fault (BitVec 32)) {p : Nat} (hp : p ≤ 32) :
    maskV4 beyond p =
      if p < 32 then .ok (prefixMask 32 p) else beyond.map fun w => prefixMask 32 32 ||| w := by
  have hloop := @fullBytes_eq beyond p hp (p / 8) 0 (by omega)
  rw [prefixMask_zero] at hloop
  have hcidr : (p : Int) - 8 - 8 * (0 : Nat) = p - 8 := by omega
  have hindex : ((p % 8 : Nat) : Int) - 8 + 8 = (p % 8 : Nat) := by omega
  rw [hcidr] at hloop
  have hstart : (3 : Int) - (0 : Nat) = 3 := rfl
  rw [hstart] at hloop
  rw [maskV4, hloop]
  change (if ((p % 8 : Nat) : Int) - 8 < 0 then _ else _) = _
  rw [if_pos (by omega), hindex, elem_cidrtomask (by omega)]
  change (shiftLeft beyond _ (8 * (3 - (p / 8 : Nat) : Int)) >>= fun byte => _) = _
  split_ifs with hlt
  · rw [shiftLeft_byte beyond _ (by omega)]
    change Except.ok (prefixMask 32 (8 * (p / 8)) ||| _) = _
    rw [prefixMask_or_rest (p / 8) (by omega) (p % 8) (by omega), Nat.div_add_mod]
  · obtain rfl : p = 32 := by omega
    cases beyond <;> rfl

/-! ### Network byte order -/

theorem htonl_htonl (v : BitVec 32) : htonl (htonl v) = v := by
  have hlen : (bytesBE v).reverse.length = 4 := rfl
  rw [htonl, htonl, bytesBE_ofBytesBE hlen, List.reverse_reverse, ofBytesBE_bytesBE]

theorem htonl_and (u v : BitVec 32) : htonl (u &&& v) = htonl u &&& htonl v := by
  simp only [htonl, bytesBE, List.reverse_cons, List.reverse_nil, List.nil_append,
    List.cons_append, ofBytesBE, wordBE]
  apply BitVec.eq_of_getLsbD_eq
  intro i hi
  interval_cases i <;> simp

/-- Words in network order can be compared in the order of the host. -/
theorem and_htonl_eq_iff {u v m : BitVec 32} :
    u &&& htonl m = v &&& htonl m ↔ htonl u &&& m = htonl v &&& m := by
  have himage : ∀ u : BitVec 32, htonl (u &&& htonl m) = htonl u &&& m := by
    intro u
    rw [htonl_and, htonl_htonl]
  constructor
  · intro h
    rw [← himage, ← himage, h]
  · intro h
    rw [← himage, ← himage] at h
    rw [← htonl_htonl (u &&& htonl m), h, htonl_htonl]

/-- The check of an IPv4 address. -/
theorem checkV4InRange_eq {beyond : Except Fault (BitVec 32)}
    {getaddrinfo : CStr → Option (BitVec 32)} {sin base : BitVec 32} {baseIp netmask : CStr}
    {p : Nat} (hp : cidrOf 32 netmask = some (p : Int)) (hbase : getaddrinfo baseIp = some base) :
    checkV4InRange beyond getaddrinfo sin baseIp netmask =
        .ok (decide (SamePrefix p (htonl base) (htonl sin))) ↔
      p < 32 ∨ ∃ w, beyond = .ok w := by
  have hbounds := cidrOf_bounds hp
  have hsame : ∀ n, (base &&& htonl (prefixMask 32 n) == sin &&& htonl (prefixMask 32 n)) =
      decide (SamePrefix n (htonl base) (htonl sin)) := by
    intro n
    rw [Bool.eq_iff_iff, beq_iff_eq, decide_eq_true_iff, and_htonl_eq_iff,
      and_prefixMask_eq_iff]
  rw [checkV4InRange, hp]
  dsimp only
  rw [maskV4_eq beyond (by omega), hbase]
  split_ifs with hlt
  · refine ⟨fun _ => .inl hlt, fun _ => ?_⟩
    exact congrArg Except.ok (hsame p)
  · obtain rfl : p = 32 := by omega
    have hfull : prefixMask 32 32 = BitVec.allOnes 32 := by decide
    cases beyond with
    | error e =>
      constructor
      · intro h
        cases h
      · rintro (h | ⟨w, h⟩)
        · exact absurd h (Nat.lt_irrefl 32)
        · cases h
    | ok w =>
      refine ⟨fun _ => .inr ⟨w, rfl⟩, fun _ => ?_⟩
      have hor : prefixMask 32 32 ||| w = prefixMask 32 32 := by
        rw [hfull]
        exact BitVec.allOnes_or
      change Except.ok (base &&& htonl (prefixMask 32 32 ||| w) ==
        sin &&& htonl (prefixMask 32 32 ||| w)) = _
      rw [hor, hsame]

/-! ### The mask of an IPv6 prefix -/

/-- The mask with `k` full bytes. -/
def fullMask (k : Nat) : List (BitVec 32) := List.replicate k 0xff ++ List.replicate (16 - k) 0

/-- The mask of a prefix. -/
def prefixElems (p : Nat) : List (BitVec 32) :=
  (List.range 16).map fun k => (prefixMask 8 (p - 8 * k)).setWidth 32

/-- One more full byte. -/
theorem setElem_full : ∀ k < 16, setElem (fullMask k) (k : Int) 0xff = .ok (fullMask (k + 1)) := by
  decide

/-- The bits that are left. -/
theorem setElem_rest : ∀ k < 16, ∀ c < 8,
    setElem (fullMask k) (k : Int) ((prefixMask 8 c).setWidth 32) =
      .ok (prefixElems (8 * k + c)) := by
  decide +kernel

theorem fullElems_eq {p : Nat} (hp : p ≤ 128) {n k : Nat} (hn : k + n = p / 8) :
    fullElems (fullMask k) k ((p : Int) - 8 - 8 * k) =
      .ok (fullMask (p / 8), (p / 8 : Nat), (p % 8 : Nat) - 8) := by
  induction n generalizing k with
  | zero =>
    obtain rfl : k = p / 8 := by omega
    rw [fullElems, if_neg (by omega)]
    have hcidr : (p : Int) - 8 - 8 * (p / 8 : Nat) = (p % 8 : Nat) - 8 := by omega
    rw [hcidr]
  | succ n ih =>
    have hnext := ih (k := k + 1) (by omega)
    rw [fullElems, if_pos (by omega), setElem_full k (by omega)]
    have hcidr : (p : Int) - 8 - 8 * k - 8 = p - 8 - 8 * ((k + 1 : Nat) : Int) := by omega
    change fullElems _ (k + 1) (p - 8 - 8 * k - 8) = _
    rw [hcidr]
    exact hnext

/-- For a full prefix the second step stores behind the mask. -/
theorem maskV6_eq {p : Nat} (hp : p ≤ 128) :
    maskV6 p = if p < 128 then .ok (prefixElems p) else .error .outOfBounds := by
  have hloop := @fullElems_eq p hp (p / 8) 0 (by omega)
  have hcidr : (p : Int) - 8 - 8 * (0 : Nat) = p - 8 := by omega
  have hindex : ((p % 8 : Nat) : Int) - 8 + 8 = (p % 8 : Nat) := by omega
  rw [hcidr] at hloop
  change fullElems (List.replicate 16 0) 0 (p - 8) = _ at hloop
  rw [maskV6, hloop]
  change (if ((p % 8 : Nat) : Int) - 8 < 0 then _ else _) = _
  rw [if_pos (by omega), hindex, elem_cidrtomask (by omega)]
  change setElem (fullMask (p / 8)) _ _ = _
  split_ifs with hlt
  · rw [setElem_rest (p / 8) (by omega) (p % 8) (by omega), Nat.div_add_mod]
  · obtain rfl : p = 128 := by omega
    rfl

/-! ### The comparison of IPv6 addresses -/

/-- The bytes are compared under their masks. -/
theorem sameBytes_eq {mask : List (BitVec 32)} {base sin6 : List SaneByte} {n i : Nat}
    (hmask : i + n ≤ mask.length) (hbase : i + n ≤ base.length) (hsin6 : i + n ≤ sin6.length) :
    ∃ b, sameBytes mask base sin6 n i = .ok b ∧
      (b = true ↔ ∀ k, i ≤ k → k < i + n →
        (base.getD k 0).setWidth 32 &&& mask.getD k 0 =
          (sin6.getD k 0).setWidth 32 &&& mask.getD k 0) := by
  induction n generalizing i with
  | zero => exact ⟨true, rfl, fun _ k h₁ h₂ => absurd h₂ (by omega), fun _ => rfl⟩
  | succ n ih =>
    obtain ⟨b, hb, hiff⟩ := ih (i := i + 1) (by omega) (by omega) (by omega)
    have hget : ∀ {α : Type} (l : List α) (d : α) (h : i < l.length), l[i] = l.getD i d := by
      intro α l d h
      rw [List.getD_eq_getElem?_getD, List.getElem?_eq_getElem h, Option.getD_some]
    have hstep : sameBytes mask base sin6 (n + 1) i =
        if (base.getD i 0).setWidth 32 &&& mask.getD i 0 ≠
          (sin6.getD i 0).setWidth 32 &&& mask.getD i 0 then .ok false
        else sameBytes mask base sin6 n ((i + 1 : Nat) : Int) := by
      rw [sameBytes, elem_eq_ok (show i < base.length by omega),
        elem_eq_ok (show i < sin6.length by omega), elem_eq_ok (show i < mask.length by omega),
        hget base 0, hget sin6 0, hget mask 0]
      rfl
    rw [hstep]
    split_ifs with hne
    · refine ⟨false, rfl, fun h => absurd h Bool.false_ne_true, fun h => ?_⟩
      exact absurd (h i (Nat.le_refl i) (by omega)) hne
    · refine ⟨b, hb, ?_⟩
      rw [hiff]
      constructor
      · intro h k h₁ h₂
        by_cases hk : k = i
        · subst hk
          exact not_not.mp hne
        · exact h k (by omega) (by omega)
      · exact fun h k h₁ h₂ => h k (by omega) (by omega)

theorem setWidth_and_eq_iff {a b m : SaneByte} :
    a.setWidth 32 &&& (m.setWidth 32 : BitVec 32) = b.setWidth 32 &&& m.setWidth 32 ↔
      a &&& m = b &&& m := by
  rw [← BitVec.setWidth_and, ← BitVec.setWidth_and]
  constructor
  · intro h
    have hback := congrArg (BitVec.setWidth 8) h
    simpa using hback
  · intro h
    rw [h]

/-- The check of an IPv6 address. -/
theorem checkV6InRange_eq {getaddrinfo : CStr → Option In6Addr} {sin6 base : In6Addr}
    {baseIp netmask : CStr} {p : Nat} (hp : cidrOf 128 netmask = some (p : Int))
    (hbase : getaddrinfo baseIp = some base) :
    checkV6InRange getaddrinfo sin6 baseIp netmask =
        .ok (decide (SameBits p base.s6Addr sin6.s6Addr)) ↔ p < 128 := by
  have hbounds := cidrOf_bounds hp
  have hb := base.length
  have hs := sin6.length
  rw [checkV6InRange, hp]
  dsimp only
  rw [maskV6_eq (by omega), hbase]
  split_ifs with hlt
  · refine ⟨fun _ => hlt, fun _ => ?_⟩
    have hlen : (prefixElems p).length = 16 := by
      rw [prefixElems, List.length_map, List.length_range]
    obtain ⟨b, hrun, hiff⟩ := @sameBytes_eq (prefixElems p) base.s6Addr sin6.s6Addr 16 0
      (by omega) (by omega) (by omega)
    change sameBytes (prefixElems p) base.s6Addr sin6.s6Addr 16 0 = _
    refine Eq.trans hrun (congrArg Except.ok ?_)
    rw [Bool.eq_iff_iff, decide_eq_true_iff, hiff, sameBits_iff]
    have hmask : ∀ k < 16, (prefixElems p).getD k 0 = (prefixMask 8 (p - 8 * k)).setWidth 32 := by
      intro k hk
      rw [List.getD_eq_getElem?_getD, prefixElems, List.getElem?_map, List.getElem?_range hk]
      rfl
    constructor
    · intro h k
      by_cases hk : k < 16
      · have hbyte := h k (Nat.zero_le k) (by omega)
        rw [hmask k hk, setWidth_and_eq_iff, and_prefixMask_eq_iff] at hbyte
        exact hbyte
      · intro i hi
        omega
    · intro h k _ hk
      rw [hmask k (by omega), setWidth_and_eq_iff, and_prefixMask_eq_iff]
      exact h k
  · refine ⟨fun h => ?_, fun h => absurd h hlt⟩
    cases h

/-! ### Both checks -/

/-- Access is granted exactly to the addresses with the same prefix, unless the prefix is a full
    one: then an element behind the mask of an IPv6 address is stored, and the mask of an IPv4
    address is right if the undefined shift gives any word at all. -/
theorem subnet_check (beyond : Except Fault (BitVec 32))
    {getaddrinfo : CStr → Option (BitVec 32)} {getaddrinfo6 : CStr → Option In6Addr}
    {sin base : BitVec 32} {sin6 base6 : In6Addr} {baseIp baseIp6 netmask netmask6 : CStr}
    {p p6 : Nat} (hp : cidrOf 32 netmask = some (p : Int))
    (hp6 : cidrOf 128 netmask6 = some (p6 : Int)) (hbase : getaddrinfo baseIp = some base)
    (hbase6 : getaddrinfo6 baseIp6 = some base6) :
    (checkV4InRange beyond getaddrinfo sin baseIp netmask =
        .ok (decide (SamePrefix p (htonl base) (htonl sin))) ↔
      p < 32 ∨ ∃ w, beyond = .ok w) ∧
    (checkV6InRange getaddrinfo6 sin6 baseIp6 netmask6 =
        .ok (decide (SameBits p6 base6.s6Addr sin6.s6Addr)) ↔ p6 < 128) :=
  ⟨checkV4InRange_eq hp hbase, checkV6InRange_eq hp6 hbase6⟩

/-- The address `::1`. -/
def loopback6 : In6Addr := ⟨List.replicate 15 0 ++ [1], rfl⟩

/-- 192.168.1.23 is in 192.168.1.0/24, and an IPv6 address in its own subnet. -/
theorem subnet_check_local :
    checkV4InRange (.error .outOfBounds) (fun _ => some (htonl 0xC0A80100)) (htonl 0xC0A80117) []
        (ascii ['2', '4']) = .ok true ∧
      checkV6InRange (fun _ => some loopback6) loopback6 [] (ascii ['6', '4']) = .ok true := by
  obtain ⟨h4, h6⟩ := @subnet_check (.error .outOfBounds) (fun _ => some (htonl 0xC0A80100))
    (fun _ => some loopback6) (htonl 0xC0A80117) (htonl 0xC0A80100) loopback6 loopback6 [] []
    (ascii ['2', '4']) (ascii ['6', '4']) 24 64 (by decide) (by decide) rfl rfl
  have hprefix : SamePrefix 24 (htonl (htonl 0xC0A80100)) (htonl (htonl 0xC0A80117)) := by decide
  have hbits : SameBits 64 loopback6.s6Addr loopback6.s6Addr := by decide
  rw [decide_eq_true hprefix] at h4
  rw [decide_eq_true hbits] at h6
  exact ⟨h4.mpr (.inl (by decide)), h6.mpr (by decide)⟩

/-- A full prefix: the element behind the mask of an IPv6 address is stored, and a word is
    shifted by -8 for an IPv4 address. -/
theorem subnet_check_full :
    checkV6InRange (fun _ => some loopback6) loopback6 [] (ascii ['1', '2', '8']) =
        .error .outOfBounds ∧
      checkV4InRange (.error .outOfBounds) (fun _ => some 0) 0 [] (ascii ['3', '2']) =
        .error .outOfBounds := by
  have h6 : cidrOf 128 (ascii ['1', '2', '8']) = some ((128 : Nat) : Int) := by decide
  have h4 : cidrOf 32 (ascii ['3', '2']) = some ((32 : Nat) : Int) := by decide
  constructor
  · rw [checkV6InRange, h6]
    dsimp only
    rw [maskV6_eq (Nat.le_refl 128), if_neg (Nat.lt_irrefl 128)]
    rfl
  · rw [checkV4InRange, h4]
    dsimp only
    rw [maskV4_eq _ (Nat.le_refl 32), if_neg (Nat.lt_irrefl 32)]
    rfl

end SaneBackends.SanedSubnet

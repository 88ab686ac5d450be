import Nox.Lib.Libc
import Nox.Interserver.Json

/-!
# Checked arguments

The validators of `interact_builders.cc` and `check_args`, which runs them over
the registered keys of a request, and the conversion `strtonum` the builders
apply to the texts that passed.  The validator of numbers is a scan over a set
of characters, so it accepts more texts than there are numerals, and the
conversion saturates and is then narrowed: `storedFaithfully_iff` says for which
texts the two together store the number the text denotes.
-/

namespace Nox.Interserver

open Libc

/-! ## Numbers -/

/-- `strtonum`: the result of `strtoll` as a `uint64_t`. -/
def strtonum (s : String) : Nat :=
  let n := match s.toList with
    | '0' :: 'x' :: r => strtoll ('0' :: 'x' :: r) 16
    | r => strtoll r 10
  (n % 2 ^ 64).toNat

/-- `is_valid_number` -/
def isValidNumber (s : String) : Bool :=
  let i := match s.toList with
    | '0' :: 'x' :: r => strspn ('0' :: 'x' :: r) "1234567890xABCDEFabcdef"
    | r => strspn r "1234567890"
  i == s.toList.length

/-- The conversion to an unsigned field of `w` bits. -/
def narrow (w n : Nat) : Nat := n % 2 ^ w

/-- The number a text denotes: decimal digits, or `0x` and hexadecimal digits. -/
def numeralValue (s : String) : Option Nat :=
  match s.toList with
  | '0' :: 'x' :: r => numeral 16 r
  | r => numeral 10 r

/-- The text is a numeral whose value fits the field and `strtoll`. -/
def FitsNumeral (w : Nat) (s : String) : Prop :=
  ∃ n, numeralValue s = some n ∧ n < 2 ^ w ∧ n < 2 ^ 63

instance (w : Nat) (s : String) : Decidable (FitsNumeral w s) :=
  match h : numeralValue s with
  | none => .isFalse (by simp [FitsNumeral, h])
  | some n => decidable_of_iff (n < 2 ^ w ∧ n < 2 ^ 63) (by simp [FitsNumeral, h])

theorem strtonum_numeral {s : String} {n : Nat} (h : numeralValue s = some n) :
    strtonum s = min n llongMax := by
  have hcap : ((min n llongMax : Nat) : Int) % 2 ^ 64 = (min n llongMax : Nat) := by
    unfold llongMax
    omega
  unfold numeralValue at h
  unfold strtonum
  split at h
  next r heq => simp only [strtoll_hex_numeral h, hcap, Int.toNat_natCast]
  next heq => simp only [strtoll_numeral h, hcap, Int.toNat_natCast]

/-- A numeral that fits is stored as it is. -/
theorem narrow_strtonum {w : Nat} {s : String} {n : Nat} (h : numeralValue s = some n)
    (hw : n < 2 ^ w) (hmax : n < 2 ^ 63) : narrow w (strtonum s) = n := by
  have hmin : min n llongMax = n := by
    unfold llongMax
    omega
  rw [strtonum_numeral h, hmin, narrow, Nat.mod_eq_of_lt hw]

/-- Conversely a numeral stored as it is fits, as `strtoll` stops at `LLONG_MAX`. -/
theorem lt_of_narrow_strtonum {w : Nat} {s : String} {n : Nat} (h : numeralValue s = some n)
    (hst : narrow w (strtonum s) = n) : n < 2 ^ 63 := by
  rw [strtonum_numeral h, narrow] at hst
  have hle := Nat.mod_le (min n llongMax) (2 ^ w)
  unfold llongMax at hle hst
  omega

/-! ## Addresses -/

def hexitValue (c : Char) : Option Nat := digitValue 16 c

/-- The octets of `ethernetaddr::init_from_string`: one or two digits each,
all but the last followed by a separator. -/
def initFromString : Nat → List Char → Option (List Nat)
  | 0, [] => some []
  | 0, _ :: _ => none
  | _ + 1, [] => none
  | i + 1, c :: str =>
    match hexitValue c with
    | none => none
    | some digit1 =>
      let (octet, str) := match str with
        | c' :: str' =>
          match hexitValue c' with
          | some digit2 => (digit1 * 16 + digit2, str')
          | none => (digit1, str)
        | [] => (digit1, str)
      if i = 0 then (initFromString i str).map (octet :: ·)
      else
        match str with
        | sep :: str' =>
          if sep = '-' ∨ sep = ':' then (initFromString i str').map (octet :: ·) else none
        | [] => none

/-- The constructor `ethernetaddr(std::string)`, or its exception. -/
def ethernetaddr (s : String) : Option Bytes :=
  (initFromString 6 s.toList).map fun octets => octets.map UInt8.ofNat

/-- `inet_pton(AF_INET, ..)` -/
def ipv4addr (s : String) : Option Bytes := inetPton4 s.toList

/-- `inet_pton(AF_INET6, ..)` -/
def ipv6addr (s : String) : Option Bytes := inetPton6 s.toList

theorem initFromString_length {i : Nat} {s : List Char} {octets : List Nat}
    (h : initFromString i s = some octets) : octets.length = i := by
  induction i generalizing s octets with
  | zero =>
    cases s with
    | nil =>
      cases h
      rfl
    | cons c s => cases h
  | succ i ih =>
    cases s with
    | nil => cases h
    | cons c s =>
      have hrec {r : List Char} {o : Nat} (h : (initFromString i r).map (o :: ·) = some octets) :
          octets.length = i + 1 := by
        obtain ⟨os, hos, rfl⟩ := Option.map_eq_some_iff.mp h
        simp [ih hos]
      simp only [initFromString] at h
      split at h
      · cases h
      split at h
      · exact hrec h
      split at h
      · split at h
        · exact hrec h
        · cases h
      · cases h

theorem ethernetaddr_length {s : String} {b : Bytes} (h : ethernetaddr s = some b) :
    b.length = 6 := by
  obtain ⟨octets, hoct, rfl⟩ := Option.map_eq_some_iff.mp h
  simp [initFromString_length hoct]

/-! ## `check_args` -/

/-- `e_arg_type_t` -/
inductive ArgType
  | eString | eNum | eIpv4 | eIpv6 | eMAC | eJArray
  deriving DecidableEq, Repr

abbrev ArgumentsList := List (String × ArgType)

/-- The case of `check_args` for one present argument.  `parse` is the JSON
parser, whose result on a text it rejects is a null object. -/
def checkArg (parse : String → JsonObject) (key : String) (type : ArgType) (value : String) :
    Except Fault Unit :=
  match type with
  | .eNum =>
    if isValidNumber value then .ok ()
    else .error (.invalidArgument (key ++ " has invalid value!\n"))
  | .eIpv4 =>
    if (ipv4addr value).isSome then .ok ()
    else .error (.invalidArgument (key ++ " has invalid ip4 address!\n"))
  | .eIpv6 =>
    if (ipv6addr value).isSome then .ok ()
    else .error (.invalidArgument (key ++ " has invalid ip6 address!\n"))
  | .eMAC =>
    if (ethernetaddr value).isSome then .ok ()
    else .error (.invalidArgument (key ++ " has invalid MAC address!\n"))
  | .eJArray =>
    match parse value with
    | .null => .error (.invalidArgument (key ++ " has invalid JSON array!\n"))
    | _ => .ok ()
  | .eString => .ok ()

/-- `check_args` -/
def checkArgs (parse : String → JsonObject) (l : ArgumentsList) (a : JsonObject) :
    Except Fault Unit :=
  forM l fun p => do
    match ← a.findIfExists p.1 with
    | none => return ()
    | some value => checkArg parse p.1 p.2 value

/-- A number read from an argument: `strtonum` narrowed to the field, or the
default when the key is absent. -/
def readNum (w : Nat) (args : JsonObject) (key : String) (default : Except Fault Nat) :
    Except Fault Nat := do
  match ← args.findIfExists key with
  | none => default
  | some value => return narrow w (strtonum value)

theorem checkArgs_ok_iff {parse : String → JsonObject} {l : ArgumentsList} {a : JsonObject} :
    checkArgs parse l a = .ok () ↔
      ∀ p ∈ l, ∃ r, a.findIfExists p.1 = .ok r ∧
        ∀ value, r = some value → checkArg parse p.1 p.2 value = .ok () := by
  induction l with
  | nil => simp [checkArgs, pure, Except.pure]
  | cons p l ih =>
    unfold checkArgs at ih ⊢
    rw [List.forM_cons, List.forall_mem_cons, ← ih]
    cases hf : a.findIfExists p.1 with
    | error err => simp [bind, Except.bind]
    | ok r =>
      cases r with
      | none => simp [bind, Except.bind, pure, Except.pure]
      | some value =>
        cases hc : checkArg parse p.1 p.2 value with
        | error err => simp [bind, Except.bind, hc]
        | ok _ => simp [bind, Except.bind, hc]

/-- A present argument of a request that passes was accepted by its validator. -/
theorem checkArg_of_checkArgs {parse : String → JsonObject} {l : ArgumentsList} {a : JsonObject}
    (h : checkArgs parse l a = .ok ()) {key value : String} {type : ArgType}
    (hmem : (key, type) ∈ l) (hv : a.findIfExists key = .ok (some value)) :
    checkArg parse key type value = .ok () := by
  obtain ⟨r, hr, hall⟩ := checkArgs_ok_iff.mp h _ hmem
  refine hall value ?_
  rw [hv] at hr
  exact (Except.ok.inj hr).symm

theorem checkArg_eNum_iff {parse : String → JsonObject} {key value : String} :
    checkArg parse key .eNum value = .ok () ↔ isValidNumber value = true := by
  simp only [checkArg]
  split <;> simp_all

/-! ## Fidelity of numbers -/

/-- Whatever request has the text under a key registered as a number: if the
request passes the checks, the text denotes a number that fits a field of `w`
bits, and that number is what the builder stores. -/
def StoredFaithfully (w : Nat) (s : String) : Prop :=
  ∀ (parse : String → JsonObject) (l : ArgumentsList) (a : JsonObject) (key : String)
    (default : Except Fault Nat), (key, .eNum) ∈ l → a.findIfExists key = .ok (some s) →
    checkArgs parse l a = .ok () →
      ∃ n, numeralValue s = some n ∧ n < 2 ^ w ∧ readNum w a key default = .ok n

theorem readNum_text {w : Nat} {a : JsonObject} {key s : String} (d : Except Fault Nat)
    (h : a.findIfExists key = .ok (some s)) : readNum w a key d = .ok (narrow w (strtonum s)) := by
  simp only [readNum, h]
  rfl

/-- Numbers are stored faithfully exactly for the texts the validator rejects
and the numerals below `2 ^ w` and `2 ^ 63`. -/
theorem storedFaithfully_iff (w : Nat) (s : String) :
    StoredFaithfully w s ↔ (isValidNumber s = true → FitsNumeral w s) := by
  constructor
  · intro h hvalid
    -- a request with the text under its only key
    have hfind : (JsonObject.dict [("n", .string s)]).findIfExists "n" = .ok (some s) := rfl
    have hcheck : checkArgs (fun _ => .null) [("n", .eNum)] (.dict [("n", .string s)]) =
        .ok () := by
      refine checkArgs_ok_iff.mpr fun p hp => ?_
      cases List.mem_singleton.mp hp
      refine ⟨some s, hfind, fun value hv => ?_⟩
      cases hv
      exact checkArg_eNum_iff.mpr hvalid
    obtain ⟨n, hn, hlt, hread⟩ :=
      h (fun _ => .null) [("n", .eNum)] _ "n" (.ok 0) List.mem_cons_self hfind hcheck
    rw [readNum_text _ hfind] at hread
    exact ⟨n, hn, hlt, lt_of_narrow_strtonum hn (Except.ok.inj hread)⟩
  · intro h parse l a key d hmem hfind hcheck
    have hvalid := checkArg_eNum_iff.mp (checkArg_of_checkArgs hcheck hmem hfind)
    obtain ⟨n, hn, hlt, hmax⟩ := h hvalid
    exact ⟨n, hn, hlt, by rw [readNum_text d hfind, narrow_strtonum hn hlt hmax]⟩

/-- The empty text passes as a number and is stored as zero. -/
theorem empty_not_storedFaithfully : ¬ StoredFaithfully 16 "" := by
  intro h
  obtain ⟨n, hn, -⟩ := h (fun _ => .null) [("priority", .eNum)]
    (.dict [("priority", .string "")]) "priority" (.ok 0) (by decide) (by decide) (by decide)
  have hnone : numeralValue "" = none := by decide
  rw [hnone] at hn
  cases hn

end Nox.Interserver

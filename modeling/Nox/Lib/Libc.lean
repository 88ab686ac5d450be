import Mathlib.Data.List.TakeWhile
import Nox.Lib.Bytes

/-!
# Text conversions of the C library

`strspn`, `strtoll` and `inet_pton` on the characters of a NUL-free string,
following their documented behaviour: `strtoll` skips white space, takes a sign
and, in base 16, a `0x` in front of a digit, reads digits as far as they go and
saturates; `inet_pton` returns the address in network order or nothing.
-/

namespace Nox.Libc

/-! ## Numerals -/

/-- The value of a digit below the base. -/
def digitValue (base : Nat) (c : Char) : Option Nat :=
  if '0' ≤ c ∧ c ≤ '9' then some (c.toNat - '0'.toNat)
  else if 'a' ≤ c ∧ c ≤ 'f' ∧ base = 16 then some (c.toNat - 'a'.toNat + 10)
  else if 'A' ≤ c ∧ c ≤ 'F' ∧ base = 16 then some (c.toNat - 'A'.toNat + 10)
  else none

/-- The longest prefix of digits. -/
def digitsPrefix (base : Nat) : List Char → List Nat
  | [] => []
  | c :: cs =>
    match digitValue base c with
    | some d => d :: digitsPrefix base cs
    | none => []

def ofDigits (base : Nat) (ds : List Nat) : Nat := ds.foldl (fun n d => n * base + d) 0

/-- The number a nonempty string of digits denotes. -/
def numeral (base : Nat) (cs : List Char) : Option Nat :=
  if cs = [] then none else (cs.mapM (digitValue base)).map (ofDigits base)

theorem digitsPrefix_of_mapM {base : Nat} {cs : List Char} {ds : List Nat}
    (h : cs.mapM (digitValue base) = some ds) : digitsPrefix base cs = ds := by
  induction cs generalizing ds with
  | nil =>
    cases h
    rfl
  | cons c cs ih =>
    rw [List.mapM_cons] at h
    cases hc : digitValue base c with
    | none => simp [hc] at h
    | some d =>
      cases hcs : cs.mapM (digitValue base) with
      | none => simp [hc, hcs] at h
      | some ds' =>
        rw [hc, hcs] at h
        cases h
        simp [digitsPrefix, hc, ih hcs]

/-- The parts of a numeral. -/
theorem numeral_eq_some {base : Nat} {cs : List Char} {n : Nat} (h : numeral base cs = some n) :
    ∃ c cs' d, cs = c :: cs' ∧ digitValue base c = some d ∧
      ofDigits base (digitsPrefix base cs) = n := by
  unfold numeral at h
  cases cs with
  | nil => simp at h
  | cons c cs =>
    rw [if_neg (List.cons_ne_nil c cs)] at h
    obtain ⟨ds, hds, hn⟩ := Option.map_eq_some_iff.mp h
    have hpre := digitsPrefix_of_mapM hds
    rw [List.mapM_cons] at hds
    cases hc : digitValue base c with
    | none => simp [hc] at hds
    | some d => exact ⟨c, cs, d, rfl, hc, by rw [hpre, hn]⟩

def isspace (c : Char) : Bool :=
  c == ' ' || c == '\t' || c == '\n' || c == '\x0b' || c == '\x0c' || c == '\r'

def llongMax : Nat := 2 ^ 63 - 1

/-- The sign and the text behind it. -/
def splitSign : List Char → Bool × List Char
  | '-' :: r => (true, r)
  | '+' :: r => (false, r)
  | r => (false, r)

/-- In base 16 the text behind a `0x` that a digit follows. -/
def skipHexPrefix : List Char → List Char
  | '0' :: x :: d :: r =>
    if (x = 'x' ∨ x = 'X') ∧ (digitValue 16 d).isSome then d :: r else '0' :: x :: d :: r
  | r => r

/-- `strtoll` in base 10 or 16. -/
def strtoll (s : List Char) (base : Nat) : Int :=
  let (neg, s) := splitSign (s.dropWhile isspace)
  let s := if base = 16 then skipHexPrefix s else s
  let n := ofDigits base (digitsPrefix base s)
  if neg then max (-n) (-(2 ^ 63)) else min n llongMax

/-- A digit is neither white space nor a sign. -/
theorem not_special_of_digit {base : Nat} {c : Char} {d : Nat} (h : digitValue base c = some d) :
    isspace c = false ∧ c ≠ '-' ∧ c ≠ '+' ∧ c ≠ 'x' ∧ c ≠ 'X' := by
  refine ⟨?_, ?_, ?_, ?_, ?_⟩
  · cases hs : isspace c with
    | false => rfl
    | true =>
      simp only [isspace, Bool.or_eq_true, beq_iff_eq] at hs
      rcases hs with ((((rfl | rfl) | rfl) | rfl) | rfl) | rfl <;>
        exact absurd h (by simp [digitValue])
  all_goals
    rintro rfl
    exact absurd h (by simp [digitValue])

theorem splitSign_digit {base : Nat} {c : Char} {d : Nat} (h : digitValue base c = some d)
    (cs : List Char) : splitSign (c :: cs) = (false, c :: cs) := by
  obtain ⟨-, hminus, hplus, -, -⟩ := not_special_of_digit h
  unfold splitSign
  split
  · next heq => exact absurd (List.cons.inj heq).1 hminus
  · next heq => exact absurd (List.cons.inj heq).1 hplus
  · rfl

/-- Text that starts with a digit is read as far as its digits go. -/
theorem strtoll_of_digit {c : Char} {d : Nat} (hc : digitValue 10 c = some d) (cs : List Char) :
    strtoll (c :: cs) 10 = (min (ofDigits 10 (digitsPrefix 10 (c :: cs))) llongMax : Nat) := by
  have hsp := (not_special_of_digit hc).1
  have h10 : ¬ (10 : Nat) = 16 := by decide
  simp only [strtoll, List.dropWhile_cons, hsp, Bool.false_eq_true, if_false, splitSign_digit hc,
    if_neg h10]
  omega

/-- On a decimal numeral `strtoll` returns its value, capped at `LLONG_MAX`. -/
theorem strtoll_numeral {cs : List Char} {n : Nat} (h : numeral 10 cs = some n) :
    strtoll cs 10 = (min n llongMax : Nat) := by
  obtain ⟨c, cs, d, rfl, hc, hn⟩ := numeral_eq_some h
  rw [strtoll_of_digit hc, hn]

/-- On `0x` and a hexadecimal numeral as well. -/
theorem strtoll_hex_numeral {cs : List Char} {n : Nat} (h : numeral 16 cs = some n) :
    strtoll ('0' :: 'x' :: cs) 16 = (min n llongMax : Nat) := by
  obtain ⟨c, cs, d, rfl, hc, hn⟩ := numeral_eq_some h
  have hsp : isspace '0' = false := rfl
  have hzero : digitValue 16 '0' = some 0 := rfl
  have hskip : skipHexPrefix ('0' :: 'x' :: c :: cs) = c :: cs := by
    simp [skipHexPrefix, hc]
  simp only [strtoll, List.dropWhile_cons, hsp, Bool.false_eq_true, if_false, if_true,
    splitSign_digit hzero, hskip, hn]
  omega

theorem digitValue_digitChar {d : Nat} (h : d < 10) : digitValue 10 (Nat.digitChar d) = some d := by
  revert d
  decide

theorem ofDigits_append (base d : Nat) (ds : List Nat) :
    ofDigits base (ds ++ [d]) = ofDigits base ds * base + d := by
  simp [ofDigits]

/-- The decimal digits of a number are a numeral of its value. -/
theorem numeral_toDigits (n : Nat) : numeral 10 (Nat.toDigits 10 n) = some n := by
  suffices h : ∃ ds, (Nat.toDigits 10 n).mapM (digitValue 10) = some ds ∧ ofDigits 10 ds = n by
    obtain ⟨ds, hds, hn⟩ := h
    rw [numeral, if_neg Nat.toDigits_ne_nil, hds, Option.map_some, hn]
  induction n using Nat.strong_induction_on with
  | _ n ih =>
    rcases Nat.lt_or_ge n 10 with hlt | hge
    · refine ⟨[n], ?_, by simp [ofDigits]⟩
      rw [Nat.toDigits_of_lt_base hlt]
      simp [digitValue_digitChar hlt]
    · obtain ⟨ds, hds, hn⟩ := ih (n / 10) (by omega)
      have hlast := digitValue_digitChar (Nat.mod_lt n (by decide : 0 < 10))
      refine ⟨ds ++ [n % 10], ?_, ?_⟩
      · rw [Nat.toDigits_of_base_le (by decide) hge, List.mapM_append, hds]
        simp [hlast]
      · rw [ofDigits_append, hn]
        omega
/-! ## `strspn` -/

def strspn (s : List Char) (accept : String) : Nat :=
  (s.takeWhile fun c => accept.toList.contains c).length

theorem strspn_eq_length {s : List Char} {accept : String} :
    strspn s accept = s.length ↔ ∀ c ∈ s, c ∈ accept.toList := by
  have hall : (s.takeWhile fun c => accept.toList.contains c).length = s.length ↔
      s.takeWhile (fun c => accept.toList.contains c) = s :=
    ⟨fun h => (List.takeWhile_prefix _).eq_of_length h, fun h => by rw [h]⟩
  rw [strspn, hall, List.takeWhile_eq_self_iff]
  simp

/-! ## `inet_pton` -/

/-- The state of the loop of `inet_pton` for `AF_INET`: the octets behind the
current one, the current one, and whether it has a digit. -/
structure Pton4 where
  done : List Nat
  cur : Nat
  sawDigit : Bool

/-- One character of `inet_pton` for `AF_INET`. -/
def pton4Step (st : Pton4) (c : Char) : Option Pton4 :=
  match digitValue 10 c with
  | some d =>
    if st.sawDigit ∧ st.cur = 0 then none
    else if st.cur * 10 + d > 255 then none
    else if ¬ st.sawDigit ∧ st.done.length = 4 then none
    else some { st with cur := st.cur * 10 + d, sawDigit := true }
  | none =>
    if c = '.' ∧ st.sawDigit ∧ st.done.length < 3 then
      some ⟨st.done ++ [st.cur], 0, false⟩
    else none

/-- `inet_pton` for `AF_INET`: four decimal octets without leading zeros. -/
def inetPton4 (s : List Char) : Option Bytes := do
  let st ← s.foldlM pton4Step ⟨[], 0, false⟩
  if st.done.length = 3 ∧ st.sawDigit then
    some ((st.done ++ [st.cur]).map UInt8.ofNat)
  else none

/-- The state of the loop of `inet_pton` for `AF_INET6`: the bytes written, the
position of `::` among them, the start of the current group, its number of
digits and its value. -/
structure Pton6 where
  out : List Nat
  colonp : Option Nat
  curtok : List Char
  xdigits : Nat
  val : Nat

/-- The loop of `inet_pton` for `AF_INET6`. -/
def pton6Loop (st : Pton6) : List Char → Option Pton6
  | [] => some st
  | c :: src =>
    match digitValue 16 c with
    | some d =>
      if st.xdigits = 4 then none
      else pton6Loop { st with xdigits := st.xdigits + 1, val := st.val * 16 + d } src
    | none =>
      if c = ':' then
        if st.xdigits = 0 then
          if st.colonp.isSome then none
          else pton6Loop { st with curtok := src, colonp := some st.out.length } src
        else if src = [] then none
        else if st.out.length + 2 > 16 then none
        else
          pton6Loop { st with
            curtok := src
            out := st.out ++ [st.val / 256, st.val % 256]
            xdigits := 0
            val := 0 } src
      else if c = '.' ∧ st.out.length + 4 ≤ 16 then
        match inetPton4 st.curtok with
        | some octets => some { st with out := st.out ++ octets.map (·.toNat), xdigits := 0 }
        | none => none
      else none

/-- The text the loop starts on: of a leading `::` the second colon. -/
def pton6Start : List Char → Option (List Char)
  | [] => none
  | ':' :: ':' :: src => some (':' :: src)
  | ':' :: _ => none
  | src => some src

/-- The bytes written when the text ends within a group. -/
def pton6Flush (st : Pton6) : Option (List Nat) :=
  if st.xdigits > 0 then
    if st.out.length + 2 > 16 then none else some (st.out ++ [st.val / 256, st.val % 256])
  else some st.out

/-- The zeros of a `::` filled in. -/
def pton6Expand (colonp : Option Nat) (out : List Nat) : Option (List Nat) :=
  match colonp with
  | none => some out
  | some p =>
    if out.length = 16 then none
    else some (out.take p ++ List.replicate (16 - out.length) 0 ++ out.drop p)

/-- `inet_pton` for `AF_INET6`. -/
def inetPton6 (s : List Char) : Option Bytes := do
  let src ← pton6Start s
  let st ← pton6Loop ⟨[], none, src, 0, 0⟩ src
  let out ← pton6Expand st.colonp (← pton6Flush st)
  if out.length = 16 then some (out.map UInt8.ofNat) else none

theorem inetPton4_length {s : List Char} {b : Bytes} (h : inetPton4 s = some b) :
    b.length = 4 := by
  unfold inetPton4 at h
  obtain ⟨st, -, hb⟩ := Option.bind_eq_some_iff.mp h
  split at hb
  next hlen =>
    cases hb
    simp [hlen.1]
  · cases hb

theorem inetPton6_length {s : List Char} {b : Bytes} (h : inetPton6 s = some b) :
    b.length = 16 := by
  unfold inetPton6 at h
  obtain ⟨src, -, h⟩ := Option.bind_eq_some_iff.mp h
  obtain ⟨st, -, h⟩ := Option.bind_eq_some_iff.mp h
  obtain ⟨out, -, h⟩ := Option.bind_eq_some_iff.mp h
  obtain ⟨out, -, h⟩ := Option.bind_eq_some_iff.mp h
  split at h
  next hlen =>
    cases h
    simp [hlen]
  · cases h

/-- What an octet is when the loop has passed it stays. -/
theorem pton4_done_append {s : List Char} {st st' : Pton4} (h : s.foldlM pton4Step st = some st') :
    ∃ more, st'.done = st.done ++ more := by
  induction s generalizing st with
  | nil =>
    cases h
    exact ⟨[], by simp⟩
  | cons c s ih =>
    rw [List.foldlM_cons] at h
    obtain ⟨st₁, hstep, hrest⟩ := Option.bind_eq_some_iff.mp h
    obtain ⟨more, hmore⟩ := ih hrest
    simp only [pton4Step] at hstep
    split at hstep
    · split at hstep
      · cases hstep
      split at hstep
      · cases hstep
      split at hstep
      · cases hstep
      · cases hstep
        exact ⟨more, hmore⟩
    · split at hstep
      · cases hstep
        exact ⟨st.cur :: more, by simp [hmore]⟩
      · cases hstep

/-- The first octet is what its digits denote. -/
theorem pton4_first {s : List Char} {cur : Nat} {saw : Bool} {st : Pton4} (hcur : cur ≤ 255)
    (h : s.foldlM pton4Step ⟨[], cur, saw⟩ = some st) (hne : st.done ≠ []) :
    ∃ more, st.done = (digitsPrefix 10 s).foldl (fun n d => n * 10 + d) cur :: more ∧
      (digitsPrefix 10 s).foldl (fun n d => n * 10 + d) cur ≤ 255 := by
  induction s generalizing cur saw with
  | nil =>
    cases h
    exact absurd rfl hne
  | cons c s ih =>
    rw [List.foldlM_cons] at h
    obtain ⟨st₁, hstep, hrest⟩ := Option.bind_eq_some_iff.mp h
    simp only [pton4Step] at hstep
    cases hc : digitValue 10 c with
    | some d =>
      simp only [hc] at hstep
      split at hstep
      · cases hstep
      split at hstep
      · cases hstep
      split at hstep
      · cases hstep
      · cases hstep
        simp only [digitsPrefix, hc, List.foldl_cons]
        exact ih (by omega) hrest
    | none =>
      simp only [hc] at hstep
      split at hstep
      · cases hstep
        obtain ⟨more, hmore⟩ := pton4_done_append hrest
        simp only [digitsPrefix, hc, List.foldl_nil]
        exact ⟨more, by simpa using hmore, hcur⟩
      · cases hstep

/-- An address text starts with the digits of its first octet. -/
theorem inetPton4_first {s : List Char} {b : Bytes} (h : inetPton4 s = some b) :
    ∃ n more, b = UInt8.ofNat n :: more ∧ n ≤ 255 ∧ strtoll s 10 = (n : Nat) := by
  unfold inetPton4 at h
  obtain ⟨st, hst, hb⟩ := Option.bind_eq_some_iff.mp h
  split at hb
  next hlen =>
    have hne : st.done ≠ [] := by
      intro hnil
      simp [hnil] at hlen
    obtain ⟨more, hdone, hle⟩ := pton4_first (by decide) hst hne
    cases s with
    | nil =>
      cases hst
      simp at hne
    | cons c s =>
      cases hc : digitValue 10 c with
      | none => simp [pton4Step, hc] at hst
      | some d =>
        cases hb
        refine ⟨_, (more ++ [st.cur]).map UInt8.ofNat, by rw [hdone]; rfl, hle, ?_⟩
        rw [strtoll_of_digit hc]
        have hcap : ofDigits 10 (digitsPrefix 10 (c :: s)) ≤ llongMax :=
          le_trans hle (by decide)
        rw [Nat.min_eq_left hcap]
        rfl
  · cases hb

/-- Without a colon or a dot no second group is reached. -/
theorem pton6Loop_no_sep {s : List Char} (hs : ∀ c ∈ s, c ≠ ':' ∧ c ≠ '.') {st st' : Pton6}
    (h : pton6Loop st s = some st') : st'.out = st.out ∧ st'.colonp = st.colonp := by
  induction s generalizing st with
  | nil =>
    cases h
    exact ⟨rfl, rfl⟩
  | cons c s ih =>
    obtain ⟨hcolon, hdot⟩ := hs c List.mem_cons_self
    simp only [pton6Loop] at h
    split at h
    · split at h
      · cases h
      · obtain ⟨hout, hcolonp⟩ := ih (fun c hc => hs c (List.mem_cons_of_mem _ hc)) h
        exact ⟨hout, hcolonp⟩
    · rw [if_neg hcolon, if_neg (fun hc => hdot hc.1)] at h
      cases h

theorem inetPton6_no_sep {s : List Char} (hs : ∀ c ∈ s, c ≠ ':' ∧ c ≠ '.') :
    inetPton6 s = none := by
  cases hp : inetPton6 s with
  | none => rfl
  | some b =>
    unfold inetPton6 at hp
    obtain ⟨src, hsrc, hp⟩ := Option.bind_eq_some_iff.mp hp
    obtain ⟨st, hst, hp⟩ := Option.bind_eq_some_iff.mp hp
    obtain ⟨out, hout, hp⟩ := Option.bind_eq_some_iff.mp hp
    obtain ⟨out', hout', hp⟩ := Option.bind_eq_some_iff.mp hp
    have hsame : src = s := by
      unfold pton6Start at hsrc
      split at hsrc
      · cases hsrc
      · exact absurd rfl (hs ':' (by simp)).1
      · cases hsrc
      · exact (Option.some.inj hsrc).symm
    subst hsame
    obtain ⟨hempty, hcolonp⟩ := pton6Loop_no_sep hs hst
    simp only at hempty hcolonp
    rw [hcolonp] at hout'
    cases hout'
    unfold pton6Flush at hout
    rw [hempty] at hout
    have hshort : out.length ≤ 2 := by
      split at hout
      · split at hout
        · cases hout
        · cases hout
          simp
      · cases hout
        simp
    rw [if_neg (by omega)] at hp
    cases hp

end Nox.Libc

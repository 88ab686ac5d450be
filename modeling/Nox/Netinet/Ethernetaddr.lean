import Mathlib.Data.Vector.Defs
import Nox.Interserver.Args
import Nox.Lib.Outcome

/-!
# Ethernet addresses as text

`ethernetaddr::init_from_string` walks over a C string with a pointer, and looks at a character
before it decides whether to go on to the next.  `Written` is the grammar of addresses:
`initFromString_spec` says that the walk accepts what is written so and nothing else, and that it
ends at the string's terminator at the latest.
-/

namespace Nox.Netinet

section Parser

/-! ## The parser -/

/-- `hexit_value`, with nothing for -1. -/
def hexitValue (c : UInt8) : Option UInt8 :=
  if 0x30 ≤ c ∧ c ≤ 0x39 then some (c - 0x30)
  else if 0x61 ≤ c ∧ c ≤ 0x66 then some (c - 0x61 + 0xa)
  else if 0x41 ≤ c ∧ c ≤ 0x46 then some (c - 0x41 + 0xa)
  else none

/-- How the parser stops: by its exception, or by a read past the end of memory. -/
inductive Stop
  | badEthernetaddrCast | overrun
  deriving DecidableEq, Repr

/-- `*str`, where `str` points to these bytes. -/
def deref : Bytes → Except Stop UInt8
  | [] => .error .overrun
  | c :: _ => .ok c

/-- The digits of one octet, and where `str` points after them. -/
def readOctet (str : Bytes) : Except Stop (UInt8 × Bytes) := do
  let c ← deref str
  match hexitValue c with
  | none => throw .badEthernetaddrCast
  | some digit1 =>
    let c' ← deref str.tail
    match hexitValue c' with
    | some digit2 => return (digit1 * 16 + digit2, str.tail.tail)
    | none => return (digit1, str.tail)

/-- The separator after an octet that is not the last. -/
def skipSeparator (str : Bytes) : Except Stop Bytes := do
  let c ← deref str
  if c ≠ 0x2d ∧ c ≠ 0x3a then throw .badEthernetaddrCast else return str.tail

/-- The last `n` rounds of the loop. -/
def readOctets : (n : Nat) → Bytes → Except Stop (List.Vector UInt8 n × Bytes)
  | 0, str => return (.nil, str)
  | n + 1, str => do
    let r ← readOctet str
    let str ← if n = 0 then pure r.2 else skipSeparator r.2
    let rs ← readOctets n str
    return (.cons r.1 rs.1, rs.2)

/-- `ethernetaddr` -/
structure Ethernetaddr where
  octet : List.Vector UInt8 6
  deriving DecidableEq

/-- `init_from_string`: how it ends, and the address after it. -/
def initFromString (str : Bytes) (a : Ethernetaddr) : Except Stop Unit × Ethernetaddr :=
  match readOctets 6 str with
  | .error e => (.error e, a)
  | .ok (newOctet, str) =>
    match deref str with
    | .error e => (.error e, a)
    | .ok c => if c ≠ 0 then (.error .badEthernetaddrCast, a) else (.ok (), ⟨newOctet⟩)

/-- `is_valid_eth`, where the address that it makes has these octets before it is set. -/
def isValidEth (str : Bytes) (a : Ethernetaddr) : Except Stop Bool :=
  match (initFromString str a).1 with
  | .ok () => .ok true
  | .error .badEthernetaddrCast => .ok false
  | .error .overrun => .error .overrun

end Parser

section Grammar

/-! ## The grammar -/

/-- The code of a hexadecimal digit, and its value. -/
def Hexit (c d : Nat) : Prop :=
  d < 10 ∧ c = '0'.toNat + d ∨
    10 ≤ d ∧ d < 16 ∧ (c = 'a'.toNat + (d - 10) ∨ c = 'A'.toNat + (d - 10))

/-- One or two digits, and the octet that they denote. -/
inductive Group : Bytes → UInt8 → Prop
  | one {c o : UInt8} : Hexit c.toNat o.toNat → Group [c] o
  | two {c c' o : UInt8} {d d' : Nat} :
      Hexit c.toNat d → Hexit c'.toNat d' → o.toNat = 16 * d + d' → Group [c, c'] o

/-- The code of a colon or a hyphen. -/
def Separator (c : Nat) : Prop := c = ':'.toNat ∨ c = '-'.toNat

/-- Groups with a separator between one and the next, and the octets that they denote. -/
inductive Written : (n : Nat) → Bytes → List.Vector UInt8 n → Prop
  | last {g : Bytes} {o : UInt8} : Group g o → Written 1 g (.cons o .nil)
  | more {n : Nat} {g t : Bytes} {o c : UInt8} {v : List.Vector UInt8 n} :
      Group g o → Separator c.toNat → Written n t v → Written (n + 1) (g ++ c :: t) (.cons o v)

theorem hexitValue_eq_some_iff {c d : UInt8} : hexitValue c = some d ↔ Hexit c.toNat d.toNat := by
  unfold hexitValue Hexit
  simp only [Char.reduceToNat, UInt8.le_iff_toNat_le, UInt8.reduceToNat]
  split_ifs with hdigit hlower hupper
  · have hsub : (c - 48).toNat = c.toNat - 48 := UInt8.toNat_sub_of_le c 48 hdigit.1
    rw [Option.some.injEq, ← UInt8.toNat_inj, hsub]
    omega
  · have hsub : (c - 97).toNat = c.toNat - 97 := UInt8.toNat_sub_of_le c 97 hlower.1
    rw [Option.some.injEq, ← UInt8.toNat_inj, UInt8.toNat_add, hsub,
      show (10 : UInt8).toNat = 10 from rfl]
    omega
  · have hsub : (c - 65).toNat = c.toNat - 65 := UInt8.toNat_sub_of_le c 65 hupper.1
    rw [Option.some.injEq, ← UInt8.toNat_inj, UInt8.toNat_add, hsub,
      show (10 : UInt8).toNat = 10 from rfl]
    omega
  · constructor
    · nofun
    · omega

theorem Hexit.lt {c d : Nat} (h : Hexit c d) : d < 16 := by
  unfold Hexit at h
  omega

theorem Hexit.ascii {c d : Nat} (h : Hexit c d) : c < 128 := by
  unfold Hexit at h
  simp only [Char.reduceToNat] at h
  omega

theorem Separator.ascii {c : Nat} (h : Separator c) : c < 128 := by
  unfold Separator at h
  simp only [Char.reduceToNat] at h
  omega

/-- A digit is read as its value. -/
theorem Hexit.value {c : UInt8} {d : Nat} (h : Hexit c.toNat d) :
    hexitValue c = some (UInt8.ofNat d) := by
  have htoNat : (UInt8.ofNat d).toNat = d := Nat.mod_eq_of_lt (by have := h.lt; omega)
  rw [hexitValue_eq_some_iff, htoNat]
  exact h

theorem Separator.value {c : UInt8} (h : Separator c.toNat) : hexitValue c = none := by
  rw [Option.eq_none_iff_forall_ne_some]
  intro d hd
  have hhexit := hexitValue_eq_some_iff.mp hd
  unfold Hexit at hhexit
  unfold Separator at h
  simp only [Char.reduceToNat] at h hhexit
  omega

theorem separator_iff {c : UInt8} : Separator c.toNat ↔ ¬(c ≠ 0x2d ∧ c ≠ 0x3a) := by
  unfold Separator
  rw [← UInt8.toNat_inj.ne, ← UInt8.toNat_inj.ne]
  simp only [Char.reduceToNat, UInt8.reduceToNat]
  omega

end Grammar

section Walk

/-! ## The walk -/

/-- A group is read to its end, when no digit follows it. -/
theorem readOctet_group {g str : Bytes} {o c : UInt8} (h : Group g o) (hc : hexitValue c = none) :
    readOctet (g ++ c :: str) = .ok (o, c :: str) := by
  cases h with
  | one hdigit =>
    simp [readOctet, deref, hdigit.value, hc, bind, Except.bind, pure, Except.pure]
  | two hdigit hdigit' hvalue =>
    rename_i c₁ c₂ d d'
    have hoctet : UInt8.ofNat d * 16 + UInt8.ofNat d' = o := by
      rw [← UInt8.toNat_inj, hvalue]
      simp
      have := hdigit.lt
      have := hdigit'.lt
      omega
    simp [readOctet, deref, hdigit.value, hdigit'.value, hoctet, bind, Except.bind, pure,
      Except.pure]

theorem skipSeparator_eq {c : UInt8} {str : Bytes} (h : Separator c.toNat) :
    skipSeparator (c :: str) = .ok str := by
  unfold skipSeparator
  rw [deref, Lib.ok_bind, if_neg (separator_iff.mp h)]
  rfl

/-- A round that is not the last. -/
theorem readOctets_step {n : Nat} {str str' str'' : Bytes} {o : UInt8} (hn : n ≠ 0)
    (hread : readOctet str = .ok (o, str')) (hskip : skipSeparator str' = .ok str'') :
    readOctets (n + 1) str =
      (readOctets n str'').bind fun rs => .ok (.cons o rs.1, rs.2) := by
  rw [readOctets, hread, Lib.ok_bind, if_neg hn, hskip]
  rfl

/-- What is written as addresses are is read to its end. -/
theorem readOctets_written {n : Nat} {s : Bytes} {v : List.Vector UInt8 n} (h : Written n s v)
    (after : Bytes) : readOctets n (s ++ 0 :: after) = .ok (v, 0 :: after) := by
  induction h with
  | last hgroup =>
    rw [readOctets, readOctet_group hgroup (by decide)]
    rfl
  | @more n g t o c v hgroup hsep hrest ih =>
    have hn : n ≠ 0 := by
      rintro rfl
      cases hrest
    have hread : readOctet (g ++ c :: t ++ 0 :: after) = .ok (o, c :: (t ++ 0 :: after)) := by
      rw [List.append_assoc]
      exact readOctet_group hgroup hsep.value
    rw [readOctets_step hn hread (skipSeparator_eq hsep), ih]
    rfl

/-- One round: a group is read, or there is none and the parser throws. -/
theorem readOctet_cases (s after : Bytes) :
    (∃ g o t, Group g o ∧ s = g ++ t ∧ readOctet (s ++ 0 :: after) = .ok (o, t ++ 0 :: after)) ∨
      readOctet (s ++ 0 :: after) = .error .badEthernetaddrCast := by
  cases s with
  | nil => exact .inr rfl
  | cons c s =>
    cases hc : hexitValue c with
    | none =>
      right
      simp only [readOctet, List.cons_append, deref, Lib.ok_bind, hc]
      rfl
    | some d =>
      left
      have hdigit := hexitValue_eq_some_iff.mp hc
      cases s with
      | nil =>
        refine ⟨[c], d, [], .one hdigit, rfl, ?_⟩
        exact readOctet_group (.one hdigit) (by decide)
      | cons c' s =>
        cases hc' : hexitValue c' with
        | none => exact ⟨[c], d, c' :: s, .one hdigit, rfl, readOctet_group (.one hdigit) hc'⟩
        | some d' =>
          have hdigit' := hexitValue_eq_some_iff.mp hc'
          refine ⟨[c, c'], d * 16 + d', s, .two hdigit hdigit' ?_, rfl, ?_⟩
          · have := hdigit.lt
            have := hdigit'.lt
            simp
            omega
          · simp only [readOctet, List.cons_append, deref, Lib.ok_bind, hc, hc', List.tail_cons]
            rfl

theorem skipSeparator_cases (s after : Bytes) :
    (∃ c t, Separator c.toNat ∧ s = c :: t ∧
      skipSeparator (s ++ 0 :: after) = .ok (t ++ 0 :: after)) ∨
      skipSeparator (s ++ 0 :: after) = .error .badEthernetaddrCast := by
  cases s with
  | nil => exact .inr rfl
  | cons c t =>
    by_cases hc : Separator c.toNat
    · exact .inl ⟨c, t, hc, rfl, skipSeparator_eq hc⟩
    · right
      rw [separator_iff, not_not] at hc
      simp only [skipSeparator, List.cons_append, deref, Lib.ok_bind, if_pos hc]
      rfl

/-- The loop ends inside the string: after octets that are written there, or by the exception. -/
theorem readOctets_cases (n : Nat) (s after : Bytes) :
    (∃ t t' v, Written (n + 1) t v ∧ s = t ++ t' ∧
      readOctets (n + 1) (s ++ 0 :: after) = .ok (v, t' ++ 0 :: after)) ∨
      readOctets (n + 1) (s ++ 0 :: after) = .error .badEthernetaddrCast := by
  induction n generalizing s with
  | zero =>
    obtain ⟨g, o, t, hgroup, rfl, hread⟩ | hread := readOctet_cases s after
    · refine .inl ⟨g, t, _, .last hgroup, rfl, ?_⟩
      rw [readOctets, hread]
      rfl
    · right
      rw [readOctets, hread]
      rfl
  | succ n ih =>
    obtain ⟨g, o, t, hgroup, rfl, hread⟩ | hread := readOctet_cases s after
    · obtain ⟨c, t, hsep, rfl, hskip⟩ | hskip := skipSeparator_cases t after
      · obtain ⟨t, t', v, hwritten, rfl, hrest⟩ | hrest := ih t
        · refine .inl ⟨_, t', _, .more hgroup hsep hwritten, by rw [List.append_assoc]; rfl, ?_⟩
          rw [readOctets_step (Nat.succ_ne_zero n) hread hskip, hrest]
          rfl
        · right
          rw [readOctets_step (Nat.succ_ne_zero n) hread hskip, hrest]
          rfl
      · right
        rw [readOctets, hread, Lib.ok_bind, if_neg (Nat.succ_ne_zero n), hskip]
        rfl
    · right
      rw [readOctets, hread]
      rfl

/-- An address that is written is read, whatever follows the terminator. -/
theorem initFromString_written {s : Bytes} {v : List.Vector UInt8 6} (h : Written 6 s v)
    (after : Bytes) (a : Ethernetaddr) : initFromString (s ++ 0 :: after) a = (.ok (), ⟨v⟩) := by
  unfold initFromString
  rw [readOctets_written h]
  rfl

/-- A string in which none is written ends in the exception and leaves the address alone. -/
theorem initFromString_not_written {s : Bytes} (hs : 0 ∉ s) (h : ∀ v, ¬Written 6 s v)
    (after : Bytes) (a : Ethernetaddr) :
    initFromString (s ++ 0 :: after) a = (.error .badEthernetaddrCast, a) := by
  unfold initFromString
  obtain ⟨t, t', v, hwritten, rfl, hread⟩ | hread := readOctets_cases 5 s after
  · cases t' with
    | nil =>
      rw [List.append_nil] at h
      exact absurd hwritten (h v)
    | cons c t' =>
      have hc : c ≠ 0 := by
        rintro rfl
        exact hs (List.mem_append_right _ List.mem_cons_self)
      rw [hread]
      simp only [List.cons_append, deref, if_pos hc]
  · rw [hread]

end Walk

section Printing

/-! ## Printing -/

/-- A digit of `%x`. -/
def hexDigit (d : Nat) : UInt8 :=
  if d < 10 then UInt8.ofNat ('0'.toNat + d) else UInt8.ofNat ('a'.toNat + (d - 10))

/-- `%02x` -/
def printOctet (o : UInt8) : Bytes := [hexDigit (o.toNat / 16), hexDigit (o.toNat % 16)]

/-- `ethernetaddr::string`, whose format has a colon between two octets. -/
def Ethernetaddr.string (a : Ethernetaddr) : Bytes :=
  List.intercalate [0x3a] (a.octet.toList.map printOctet)

theorem hexDigit_hexit {d : Nat} (h : d < 16) : Hexit (hexDigit d).toNat d := by
  unfold hexDigit Hexit
  simp only [Char.reduceToNat]
  split_ifs with hd
  · rw [UInt8.toNat_ofNat']
    omega
  · rw [UInt8.toNat_ofNat']
    omega

theorem printOctet_group (o : UInt8) : Group (printOctet o) o := by
  have hlt := o.toNat_lt
  exact .two (hexDigit_hexit (by omega)) (hexDigit_hexit (by omega)) (by omega)

/-- Octets that are printed are written. -/
theorem written_intercalate {n : Nat} (v : List.Vector UInt8 (n + 1)) :
    Written (n + 1) (List.intercalate [0x3a] (v.toList.map printOctet)) v := by
  induction n with
  | zero =>
    obtain ⟨l, hl⟩ := v
    obtain ⟨o, rfl⟩ := List.length_eq_one_iff.mp hl
    have hprint : List.intercalate [0x3a] ([o].map printOctet) = printOctet o :=
      List.append_nil _
    exact hprint ▸ Written.last (printOctet_group o)
  | succ n ih =>
    obtain ⟨l, hl⟩ := v
    match l, hl with
    | o :: o' :: l, hl =>
      have hrest := ih ⟨o' :: l, Nat.succ.inj hl⟩
      exact .more (printOctet_group o) (.inl rfl) hrest

theorem Ethernetaddr.written_string (a : Ethernetaddr) : Written 6 a.string a.octet :=
  written_intercalate a.octet

/-- The parser takes what is printed for an address back to it.  On a string, whatever follows its
terminator, it takes the octets that are written there, or ends in its exception with the address
as it was; where the terminator is the last byte of memory it therefore reads no other. -/
theorem initFromString_spec :
    (∀ a target : Ethernetaddr, ∀ after,
      initFromString (a.string ++ 0 :: after) target = (.ok (), a)) ∧
      ∀ s : Bytes, 0 ∉ s → ∀ after target,
        (∀ v, Written 6 s v → initFromString (s ++ 0 :: after) target = (.ok (), ⟨v⟩)) ∧
        ((∀ v, ¬Written 6 s v) →
          initFromString (s ++ 0 :: after) target = (.error .badEthernetaddrCast, target)) :=
  ⟨fun a target after => initFromString_written a.written_string after target,
    fun _ hs after target => ⟨fun _ hv => initFromString_written hv after target,
      fun h => initFromString_not_written hs h after target⟩⟩

/-- So many groups have this length at least. -/
theorem Written.length_ge {n : Nat} {s : Bytes} {v : List.Vector UInt8 n} (h : Written n s v) :
    2 * n ≤ s.length + 1 := by
  have hgroup {g : Bytes} {o : UInt8} (hg : Group g o) : 1 ≤ g.length := by
    cases hg <;> simp
  induction h with
  | last hg =>
    have := hgroup hg
    omega
  | more hg _ _ ih =>
    have := hgroup hg
    rw [List.length_append, List.length_cons]
    omega

theorem Group.of_value {c o : UInt8} (h : hexitValue c = some o) : Group [c] o :=
  .one (hexitValue_eq_some_iff.mp h)

theorem Group.of_values {c c' d d' o : UInt8} (h : hexitValue c = some d)
    (h' : hexitValue c' = some d') (ho : o.toNat = 16 * d.toNat + d'.toNat) : Group [c, c'] o :=
  .two (hexitValue_eq_some_iff.mp h) (hexitValue_eq_some_iff.mp h') ho

/-- `0:1B-c:De-0f:10` -/
def mixedGroups : Bytes :=
  [0x30, 0x3a, 0x31, 0x42, 0x2d, 0x63, 0x3a, 0x44, 0x65, 0x2d, 0x30, 0x66, 0x3a, 0x31, 0x30]

def mixedAddress : Ethernetaddr := ⟨⟨[0x00, 0x1b, 0x0c, 0xde, 0x0f, 0x10], rfl⟩⟩

def broadcast : Ethernetaddr := ⟨List.Vector.replicate 6 0xff⟩

theorem mixedGroups_written : Written 6 mixedGroups mixedAddress.octet :=
  have heleven : hexitValue 0x42 = some 0xb := rfl
  .more (.of_value (c := 0x30) rfl) (.inl rfl) <|
    .more (.of_values (c := 0x31) rfl heleven rfl) (.inr rfl) <|
    .more (.of_value (c := 0x63) rfl) (.inl rfl) <|
    .more (.of_values (c := 0x44) rfl rfl rfl) (.inr rfl) <|
    .more (.of_values (c := 0x30) rfl rfl rfl) (.inl rfl) <|
    .last (.of_values (c := 0x31) rfl rfl rfl)

/-- Groups of one and two digits with both separators are taken, even at the end of memory; a text
that is too short is refused, and the address stays. -/
theorem initFromString_mixed :
    initFromString (mixedAddress.string ++ 0 :: [0x31]) broadcast = (.ok (), mixedAddress) ∧
      initFromString (mixedGroups ++ 0 :: []) broadcast = (.ok (), mixedAddress) ∧
      initFromString (mixedGroups.take 10 ++ 0 :: [0x31]) broadcast =
        (.error .badEthernetaddrCast, broadcast) := by
  obtain ⟨hprinted, hstring⟩ := initFromString_spec
  refine ⟨hprinted mixedAddress broadcast _, ?_, ?_⟩
  · exact (hstring mixedGroups (by decide) [] broadcast).1 _ mixedGroups_written
  · refine (hstring (mixedGroups.take 10) (by decide) _ broadcast).2 fun v hv => ?_
    exact absurd hv.length_ge (by decide)

/-- `is_valid_eth` answers whether an address is written in the text. -/
theorem isValidEth_eq_true_iff {s : Bytes} (hs : 0 ∉ s) (after : Bytes) (a : Ethernetaddr) :
    isValidEth (s ++ 0 :: after) a = .ok true ↔ ∃ v, Written 6 s v := by
  unfold isValidEth
  by_cases h : ∃ v, Written 6 s v
  · obtain ⟨v, hv⟩ := h
    rw [initFromString_written hv]
    exact ⟨fun _ => ⟨v, hv⟩, fun _ => rfl⟩
  · rw [initFromString_not_written hs (not_exists.mp h)]
    exact ⟨nofun, fun hv => absurd hv h⟩

end Printing

section Texts

/-! ## Texts -/

/-- The bytes of a text. -/
def textBytes (s : List Char) : Bytes := s.flatMap String.utf8EncodeChar

theorem textBytes_cons (c : Char) (s : List Char) :
    textBytes (c :: s) = String.utf8EncodeChar c ++ textBytes s := List.flatMap_cons

/-- A character of ASCII is one byte, and others have no such byte. -/
theorem utf8EncodeChar_cases (c : Char) :
    (c.toNat < 128 ∧ ∃ b : UInt8, String.utf8EncodeChar c = [b] ∧ b.toNat = c.toNat) ∨
      (128 ≤ c.toNat ∧ ∃ b : UInt8, ∃ bs, String.utf8EncodeChar c = b :: bs ∧ 128 ≤ b.toNat) := by
  by_cases hc : c.toNat < 128
  · refine .inl ⟨hc, UInt8.ofNat c.toNat, if_pos (Nat.le_of_lt_succ hc), ?_⟩
    exact Nat.mod_eq_of_lt (by omega)
  · refine .inr ⟨Nat.le_of_not_lt hc, ?_⟩
    unfold String.utf8EncodeChar
    dsimp only
    rw [if_neg (show ¬c.val.toNat ≤ 127 from fun h => hc (Nat.lt_succ_of_le h))]
    split_ifs
    · exact ⟨_, _, rfl, by rw [UInt8.toNat_ofNat']; omega⟩
    · exact ⟨_, _, rfl, by rw [UInt8.toNat_ofNat']; omega⟩
    · exact ⟨_, _, rfl, by rw [UInt8.toNat_ofNat']; omega⟩

/-- A byte of ASCII at the front of a text is its first character. -/
theorem textBytes_eq_cons {s : List Char} {b : UInt8} {t : Bytes} (h : textBytes s = b :: t)
    (hb : b.toNat < 128) : ∃ c s', s = c :: s' ∧ c.toNat = b.toNat ∧ textBytes s' = t := by
  cases s with
  | nil => cases h
  | cons c s =>
    rw [textBytes_cons] at h
    obtain ⟨-, b', hc, hb'⟩ | ⟨-, b', bs, hc, hb'⟩ := utf8EncodeChar_cases c
    · rw [hc] at h
      cases h
      exact ⟨c, s, rfl, hb'.symm, rfl⟩
    · rw [hc] at h
      cases h
      omega

/-- An ASCII character at the front. -/
theorem textBytes_ascii {c : Char} (hc : c.toNat < 128) (s : List Char) :
    ∃ b : UInt8, b.toNat = c.toNat ∧ textBytes (c :: s) = b :: textBytes s := by
  obtain ⟨-, b, hbytes, hb⟩ | ⟨hlarge, -⟩ := utf8EncodeChar_cases c
  · exact ⟨b, hb, by rw [textBytes_cons, hbytes]; rfl⟩
  · omega

theorem hexitValue_char {c : Char} {d : Nat} :
    Interserver.hexitValue c = some d ↔ Hexit c.toNat d := by
  have hle (a b : Char) : a ≤ b ↔ a.toNat ≤ b.toNat := Iff.rfl
  unfold Interserver.hexitValue Libc.digitValue Hexit
  simp only [hle, Char.reduceToNat, and_true]
  split_ifs
  · rw [Option.some.injEq]
    omega
  · rw [Option.some.injEq]
    omega
  · rw [Option.some.injEq]
    omega
  · constructor
    · nofun
    · omega

/-- A digit is a byte of ASCII. -/
theorem textBytes_hexit {c : Char} {d : Nat} (h : Interserver.hexitValue c = some d)
    (s : List Char) :
    ∃ b : UInt8, Hexit b.toNat d ∧ textBytes (c :: s) = b :: textBytes s := by
  have hdigit := hexitValue_char.mp h
  obtain ⟨b, hb, hbytes⟩ := textBytes_ascii hdigit.ascii s
  exact ⟨b, hb.symm ▸ hdigit, hbytes⟩

/-- What the builders' parser does after an octet. -/
def Rest (i octet : Nat) (octets : List Nat) (str : List Char) : Prop :=
  (if i = 0 then (Interserver.initFromString i str).map (octet :: ·)
    else match str with
      | sep :: str' =>
        if sep = '-' ∨ sep = ':' then (Interserver.initFromString i str').map (octet :: ·) else none
      | [] => none) = some octets

/-- One round of the builders' parser. -/
theorem initFromString_round {i : Nat} {s : List Char} {octets : List Nat}
    (h : Interserver.initFromString (i + 1) s = some octets) :
    ∃ g, ∃ o : UInt8, ∃ str, Group g o ∧ textBytes s = g ++ textBytes str ∧
      Rest i o.toNat octets str := by
  have hvalue {d : Nat} (hd : d < 256) : (UInt8.ofNat d).toNat = d := by
    rw [UInt8.toNat_ofNat']
    omega
  cases s with
  | nil => cases h
  | cons c str =>
    rw [Interserver.initFromString] at h
    cases hc : Interserver.hexitValue c with
    | none =>
      rw [hc] at h
      cases h
    | some d =>
      rw [hc] at h
      obtain ⟨b, hb, hbytes⟩ := textBytes_hexit hc str
      have hd := hvalue (d := d) (by have := hb.lt; omega)
      have hone : Group [b] (UInt8.ofNat d) := .one (hd.symm ▸ hb)
      cases str with
      | nil => exact ⟨[b], _, [], hone, hbytes, hd.symm ▸ h⟩
      | cons c' str =>
        cases hc' : Interserver.hexitValue c' with
        | none =>
          simp only [hc'] at h
          exact ⟨[b], _, c' :: str, hone, hbytes, hd.symm ▸ h⟩
        | some d' =>
          simp only [hc'] at h
          obtain ⟨b', hb', hbytes'⟩ := textBytes_hexit hc' str
          have hd' := hvalue (d := d * 16 + d') (by have := hb.lt; have := hb'.lt; omega)
          have htwo : Group [b, b'] (UInt8.ofNat (d * 16 + d')) := .two hb hb' (by omega)
          exact ⟨[b, b'], _, str, htwo, by rw [hbytes, hbytes']; rfl, hd'.symm ▸ h⟩

/-- What the builders accept is written as an address is. -/
theorem written_of_initFromString {n : Nat} {s : List Char} {octets : List Nat}
    (h : Interserver.initFromString (n + 1) s = some octets) :
    ∃ v, Written (n + 1) (textBytes s) v ∧ v.toList.map UInt8.toNat = octets := by
  induction n generalizing s octets with
  | zero =>
    obtain ⟨g, o, str, hgroup, hbytes, hrest⟩ := initFromString_round h
    unfold Rest at hrest
    rw [if_pos rfl] at hrest
    cases str with
    | nil =>
      cases hrest
      rw [hbytes]
      exact ⟨_, (List.append_nil g).symm ▸ Written.last hgroup, rfl⟩
    | cons c str => cases hrest
  | succ n ih =>
    obtain ⟨g, o, str, hgroup, hbytes, hrest⟩ := initFromString_round h
    unfold Rest at hrest
    rw [if_neg (Nat.succ_ne_zero n)] at hrest
    cases str with
    | nil => cases hrest
    | cons sep str =>
      dsimp only at hrest
      split_ifs at hrest with hsep
      obtain ⟨octets', hoctets, rfl⟩ := Option.map_eq_some_iff.mp hrest
      obtain ⟨v, hv, rfl⟩ := ih hoctets
      have hsep' : Separator sep.toNat := by
        obtain rfl | rfl := hsep
        · exact .inr rfl
        · exact .inl rfl
      obtain ⟨b, hb, hbytes'⟩ := textBytes_ascii hsep'.ascii str
      rw [hbytes, hbytes']
      exact ⟨_, .more hgroup (hb.symm ▸ hsep') hv, rfl⟩

/-- The builders' parser reads a group to its end, when no digit follows it. -/
theorem initFromString_group {g t : Bytes} {o : UInt8} {s : List Char} (hgroup : Group g o)
    (hs : textBytes s = g ++ t) (ht : ∀ b t', t = b :: t' → hexitValue b = none) :
    ∃ str, textBytes str = t ∧ ∀ i octets, Rest i o.toNat octets str →
      Interserver.initFromString (i + 1) s = some octets := by
  cases hgroup with
  | one hdigit =>
    obtain ⟨c, str, rfl, hc, hstr⟩ := textBytes_eq_cons hs hdigit.ascii
    have hvalue := hexitValue_char.mpr (hc ▸ hdigit)
    refine ⟨str, hstr, ?_⟩
    intro i octets hrest
    rw [Interserver.initFromString, hvalue]
    cases str with
    | nil => exact hrest
    | cons c' str =>
      cases hc' : Interserver.hexitValue c' with
      | none =>
        simp only [hc']
        exact hrest
      | some d' =>
        obtain ⟨b', hb', hbytes'⟩ := textBytes_hexit hc' str
        have hnone := ht b' (textBytes str) (hstr.symm.trans hbytes')
        rw [hb'.value] at hnone
        cases hnone
  | two hdigit hdigit' hoctet =>
    obtain ⟨c, str, rfl, hc, hstr⟩ := textBytes_eq_cons hs hdigit.ascii
    obtain ⟨c', str, rfl, hc', hstr⟩ := textBytes_eq_cons hstr hdigit'.ascii
    have hvalue := hexitValue_char.mpr (hc ▸ hdigit)
    have hvalue' := hexitValue_char.mpr (hc' ▸ hdigit')
    refine ⟨str, hstr, ?_⟩
    intro i octets hrest
    rw [hoctet, Nat.mul_comm] at hrest
    rw [Interserver.initFromString, hvalue]
    simp only [hvalue']
    exact hrest

/-- And all that is written so is accepted. -/
theorem initFromString_of_written {n : Nat} {t : Bytes} {v : List.Vector UInt8 n}
    (h : Written n t v) {s : List Char} (hs : textBytes s = t) :
    Interserver.initFromString n s = some (v.toList.map UInt8.toNat) := by
  induction h generalizing s with
  | @last g o hgroup =>
    obtain ⟨str, hstr, hround⟩ := initFromString_group hgroup (hs.trans (List.append_nil g).symm)
      nofun
    refine hround 0 _ ?_
    cases str with
    | nil => rfl
    | cons c str =>
      rw [textBytes_cons, List.append_eq_nil_iff] at hstr
      exact absurd hstr.1 String.utf8EncodeChar_ne_nil
  | @more n g t o b v hgroup hsep hrest ih =>
    obtain ⟨str, hstr, hround⟩ := initFromString_group hgroup hs (by
      intro b' t' heq
      cases heq
      exact hsep.value)
    obtain ⟨sep, str, rfl, hb, hstr⟩ := textBytes_eq_cons hstr hsep.ascii
    have hn : n ≠ 0 := by
      rintro rfl
      cases hrest
    have hsep' : sep = '-' ∨ sep = ':' := by
      rw [← Char.toNat_inj, ← Char.toNat_inj, hb]
      exact hsep.symm
    refine hround n _ ?_
    unfold Rest
    rw [if_neg hn]
    dsimp only
    rw [if_pos hsep', ih hstr]
    rfl

/-- The builders' parser and that of the library are the same on the bytes of a text. -/
theorem ethernetaddr_eq_some_iff {s : String} {b : Bytes} :
    Interserver.ethernetaddr s = some b ↔
      ∃ v, Written 6 (textBytes s.toList) v ∧ v.toList = b := by
  have hoctets (l : List UInt8) : (l.map UInt8.toNat).map UInt8.ofNat = l := by
    rw [List.map_map]
    exact (List.map_congr_left fun o _ => UInt8.ofNat_toNat).trans (List.map_id l)
  unfold Interserver.ethernetaddr
  rw [Option.map_eq_some_iff]
  constructor
  · rintro ⟨octets, h, rfl⟩
    obtain ⟨v, hv, rfl⟩ := written_of_initFromString h
    exact ⟨v, hv, (hoctets v.toList).symm⟩
  · rintro ⟨v, hv, rfl⟩
    exact ⟨_, initFromString_of_written hv rfl, hoctets v.toList⟩

end Texts

end Nox.Netinet

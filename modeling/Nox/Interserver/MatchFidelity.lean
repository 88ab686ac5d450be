import Nox.Interserver.MatchBuilder

/-!
# What a match request denotes

The entries the texts of a request denote under the formats they are checked
for, and when the match builder adds just these: no key may be shadowed by an
earlier one of its group of addresses, and its text must be one for which the
conversion of its kind is the right one (`constructMatch_faithful_iff`).
-/

namespace Nox.Interserver

open Nox.Oxm OxmFieldIndex JsonObject Libc

/-! ## Denotation -/

/-- The bytes a text denotes in a field, under the type it is registered with. -/
def denotedValue (fld : MatchField) (text : String) : Option Bytes :=
  match matchArgType fld.index with
  | .eIpv4 => ipv4addr text
  | .eIpv6 => ipv6addr text
  | .eMAC => ethernetaddr text
  | _ =>
    (numeralValue text).bind fun n =>
      if n < 256 ^ oxmLength fld.index.header then
        some (leBytes (oxmLength fld.index.header) n)
      else none

/-- The entry a request denotes for a field. -/
def denotedTlv (T : Texts) (fld : MatchField) : Option OflMatchTlv := do
  let value ← denotedValue fld (← T fld.name)
  match T (maskKey fld.name) with
  | none => some ⟨fld.index.header, value⟩
  | some m =>
    let mask ← denotedValue fld m
    some ⟨oxmMakeWildHeader fld.index.header, value ++ mask⟩

/-- A call of the builder added exactly the entries the request denotes, one
for each recognised key, none of them without meaning and no mask left over. -/
structure Faithful (T : Texts) (f f' : OflMatch) : Prop where
  denotes : ∀ fld ∈ fields, (T fld.name).isSome → (denotedTlv T fld).isSome
  mask_used : ∀ fld ∈ fields, (T (maskKey fld.name)).isSome → (T fld.name).isSome
  entries : f'.entries.Perm (fields.filterMap (denotedTlv T) ++ f.entries)

/-! ## The condition -/

/-- The keys whose presence keeps `construct_match` from looking at a key. -/
def earlier : OxmFieldIndex → List String
  | ipv4Dst => ["ipv4_src"]
  | ipv6Dst => ["ipv6_src"]
  | ipv6NdTarget => ["ipv6_src", "ipv6_dst"]
  | ipv6NdTll => ["ipv6_src", "ipv6_dst", "ipv6_nd_target"]
  | ipv6NdSll => ["ipv6_src", "ipv6_dst", "ipv6_nd_target", "ipv6_nd_tll"]
  | ethSrc => ["eth_dst"]
  | _ => []

/-- The texts of a kind that `construct_match` converts as they are meant: ARP
protocol addresses are read as numbers, and ARP and neighbour discovery
hardware addresses never stored right. -/
def TextOk (fld : MatchField) (text : String) : Prop :=
  match fld.index with
  | ipv4Src | ipv4Dst | ipv6Src | ipv6Dst | ipv6NdTarget | ethSrc | ethDst => True
  | arpSpa | arpTpa => ∃ a, ipv4addr text = some [a, 0, 0, 0]
  | arpSha | arpTha | ipv6NdTll | ipv6NdSll => False
  | _ => FitsNumeral (8 * fld.size) text

/-- The builder translates what a request says about a field. -/
structure KeyOk (T : Texts) (fld : MatchField) : Prop where
  mask_used : (T (maskKey fld.name)).isSome → (T fld.name).isSome
  first : (T fld.name).isSome → ∀ key ∈ earlier fld.index, T key = none
  unmasked : fld.index = ethSrc ∨ fld.index = ethDst → T (maskKey fld.name) = none
  texts : ∀ text, T fld.name = some text ∨ T (maskKey fld.name) = some text → TextOk fld text

/-! ## Fields and their headers -/

theorem headerField_wild {fld : MatchField} (h : fld ∈ fields) :
    headerField (oxmMakeWildHeader fld.index.header) = headerField fld.index.header := by
  revert fld
  decide

theorem headerField_nodup : (fields.map fun fld => headerField fld.index.header).Nodup := by
  decide

theorem wild_length {fld : MatchField} (h : fld ∈ fields) :
    oxmLength (oxmMakeWildHeader fld.index.header) / 2 = oxmLength fld.index.header := by
  revert fld
  decide

theorem headerField_tlvOf {fld : MatchField} (h : fld ∈ fields) (value : Bytes)
    (mask : Option Bytes) :
    headerField (tlvOf fld.index value mask).header = headerField fld.index.header := by
  cases mask with
  | none => rfl
  | some mask => exact headerField_wild h

theorem headerField_denotedTlv {T : Texts} {fld : MatchField} (h : fld ∈ fields)
    {d : OflMatchTlv} (hd : denotedTlv T fld = some d) :
    headerField d.header = headerField fld.index.header := by
  obtain ⟨text, -, hd⟩ := Option.bind_eq_some_iff.mp hd
  obtain ⟨value, -, hd⟩ := Option.bind_eq_some_iff.mp hd
  split at hd
  · cases hd
    rfl
  · obtain ⟨mask, -, hd⟩ := Option.bind_eq_some_iff.mp hd
    cases hd
    exact headerField_wild h

theorem eq_of_headerField {fld g : MatchField} (h : fld ∈ fields) (hg : g ∈ fields)
    (heq : headerField fld.index.header = headerField g.index.header) : fld = g :=
  List.inj_on_of_nodup_map headerField_nodup h hg heq

/-! ## Which fields are stored -/

/-- A search finds an element when it finds none before it. -/
theorem find?_eq_some_takeWhile {α : Type} [DecidableEq α] {p : α → Bool} {l : List α} {b : α}
    (hb : b ∈ l) :
    l.find? p = some b ↔ p b = true ∧ ∀ a ∈ l.takeWhile (· != b), p a = false := by
  induction l with
  | nil => cases hb
  | cons a l ih =>
    rw [List.find?_cons, List.takeWhile_cons]
    by_cases hab : a = b
    · subst hab
      cases hp : p a with
      | true => simp
      | false =>
        simp only [Bool.false_eq_true, false_and, iff_false]
        intro h
        have hpa := List.find?_some h
        rw [hp] at hpa
        cases hpa
    · have hbl : b ∈ l := by simpa [Ne.symm hab] using hb
      cases hp : p a with
      | true => simp [hab, hp]
      | false => simpa [hab, hp] using ih hbl

theorem fields_cases {fld : MatchField} (h : fld ∈ fields) :
    (fld ∈ ipv4Group ∧ fld ∉ ipv6Group ∧ fld ∉ ethGroup ∧ fld ∉ matchTagsSpecial) ∨
    (fld ∉ ipv4Group ∧ fld ∈ ipv6Group ∧ fld ∉ ethGroup ∧ fld ∉ matchTagsSpecial) ∨
    (fld ∉ ipv4Group ∧ fld ∉ ipv6Group ∧ fld ∈ ethGroup ∧ fld ∉ matchTagsSpecial) ∨
    (fld ∉ ipv4Group ∧ fld ∉ ipv6Group ∧ fld ∉ ethGroup ∧ fld ∈ matchTagsSpecial) := by
  revert fld
  decide

theorem takeWhile_group :
    (∀ fld ∈ ipv4Group, (ipv4Group.takeWhile (· != fld)).map (·.name) = earlier fld.index) ∧
    (∀ fld ∈ ipv6Group, (ipv6Group.takeWhile (· != fld)).map (·.name) = earlier fld.index) ∧
    (∀ fld ∈ ethGroup, (ethGroup.takeWhile (· != fld)).map (·.name) = earlier fld.index) := by
  decide

theorem find?_group {T : Texts} {group : List MatchField} {fld : MatchField} (h : fld ∈ group)
    (hearly : (group.takeWhile (· != fld)).map (·.name) = earlier fld.index) :
    group.find? (present T) = some fld ↔
      present T fld = true ∧ ∀ key ∈ earlier fld.index, T key = none := by
  rw [find?_eq_some_takeWhile h, ← hearly]
  simp [present]

theorem special_spec {fld : MatchField} (h : fld ∈ matchTagsSpecial) :
    earlier fld.index = [] ∧
      ((fld.size != 6) = true ↔ fld.index ≠ arpSha ∧ fld.index ≠ arpTha) := by
  revert fld
  decide

theorem not_arp_of_group {fld : MatchField}
    (h : fld ∈ ipv4Group ∨ fld ∈ ipv6Group ∨ fld ∈ ethGroup) :
    fld.index ≠ arpSha ∧ fld.index ≠ arpTha := by
  revert fld
  simp only [or_imp, forall_and]
  decide

/-- A present field is stored unless an earlier one of its group is present or
the loop has no case for it. -/
theorem mem_storedFields {T : Texts} {fld : MatchField} (h : fld ∈ fields) :
    fld ∈ storedFields T ↔ present T fld = true ∧ (∀ key ∈ earlier fld.index, T key = none) ∧
      fld.index ≠ arpSha ∧ fld.index ≠ arpTha := by
  have hgroup {group : List MatchField} (hnot : fld ∉ group) :
      group.find? (present T) ≠ some fld := fun hf => hnot (List.mem_of_find?_eq_some hf)
  simp only [storedFields, List.mem_append, Option.mem_toList, List.mem_filter]
  rcases fields_cases h with ⟨h4, h6, he, hs⟩ | ⟨h4, h6, he, hs⟩ | ⟨h4, h6, he, hs⟩ |
    ⟨h4, h6, he, hs⟩
  · simp [hgroup h6, hgroup he, hs, find?_group h4 (takeWhile_group.1 _ h4),
      not_arp_of_group (.inl h4)]
  · simp [hgroup h4, hgroup he, hs, find?_group h6 (takeWhile_group.2.1 _ h6),
      not_arp_of_group (.inr (.inl h6))]
  · simp [hgroup h4, hgroup h6, hs, find?_group he (takeWhile_group.2.2 _ he),
      not_arp_of_group (.inr (.inr he))]
  · obtain ⟨hearly, hsize⟩ := special_spec hs
    simp only [hgroup h4, hgroup h6, hgroup he, hs, hearly, Bool.and_eq_true, hsize]
    simp

theorem find?_toList_sublist {α : Type} (p : α → Bool) (l : List α) :
    (l.find? p).toList.Sublist l := by
  induction l with
  | nil => exact List.Sublist.slnil
  | cons a l ih =>
    rw [List.find?_cons]
    cases p a with
    | true => exact (List.nil_sublist l).cons_cons a
    | false => exact ih.cons a

theorem storedFields_sublist (T : Texts) : (storedFields T).Sublist
    (ipv4Group ++ ipv6Group ++ ethGroup ++ matchTagsSpecial) :=
  (((find?_toList_sublist _ _).append (find?_toList_sublist _ _)).append
    (find?_toList_sublist _ _)).append List.filter_sublist

theorem storedFields_nodup (T : Texts) : (storedFields T).Nodup :=
  (storedFields_sublist T).nodup (by decide)

theorem storedFields_subset {T : Texts} {fld : MatchField} (h : fld ∈ storedFields T) :
    fld ∈ fields := by
  have hall : ∀ g ∈ ipv4Group ++ ipv6Group ++ ethGroup ++ matchTagsSpecial, g ∈ fields := by
    decide
  exact hall fld ((storedFields_sublist T).subset h)

/-! ## Which values are stored right -/

/-- The text passes the check of its field. -/
def Valid (fld : MatchField) (text : String) : Prop :=
  match matchArgType fld.index with
  | .eIpv4 => (ipv4addr text).isSome
  | .eIpv6 => (ipv6addr text).isSome
  | .eMAC => (ethernetaddr text).isSome
  | _ => isValidNumber text = true

/-- The fields read by the loop over numbers and registered as numbers. -/
def isNumber : OxmFieldIndex → Bool
  | ipv4Src | ipv4Dst | ipv6Src | ipv6Dst | ipv6NdTarget | ipv6NdTll | ipv6NdSll | ethSrc
  | ethDst | arpSpa | arpTpa | arpSha | arpTha => false
  | _ => true

theorem kind_cases {fld : MatchField} (h : fld ∈ fields) :
    ((fld.index = ipv4Src ∨ fld.index = ipv4Dst) ∧ oxmLength fld.index.header = 4) ∨
    ((fld.index = ipv6Src ∨ fld.index = ipv6Dst ∨ fld.index = ipv6NdTarget) ∧
      oxmLength fld.index.header = 16) ∨
    ((fld.index = ethSrc ∨ fld.index = ethDst) ∧ oxmLength fld.index.header = 6) ∨
    ((fld.index = arpSpa ∨ fld.index = arpTpa) ∧ fld.size = 4 ∧
      oxmLength fld.index.header = 4) ∨
    ((fld.index = ipv6NdTll ∨ fld.index = ipv6NdSll) ∧ oxmLength fld.index.header = 6) ∨
    (fld.index = arpSha ∨ fld.index = arpTha) ∨
    (isNumber fld.index = true ∧ oxmLength fld.index.header = fld.size) := by
  revert fld
  decide

theorem strtonum_ipv4 {text : String} {a b c d : UInt8} (h : ipv4addr text = some [a, b, c, d]) :
    strtonum text = a.toNat := by
  obtain ⟨n, more, hb, hle, hn⟩ := inetPton4_first h
  have ha : a = UInt8.ofNat n := (List.cons.inj hb).1
  have hnat : a.toNat = n := by
    rw [ha, UInt8.toNat_ofNat']
    omega
  unfold strtonum
  split
  next r heq =>
    rw [ipv4addr, heq] at h
    simp [inetPton4, pton4Step, digitValue] at h
  next r _ =>
    simp only [hn, hnat]
    omega

/-- Read as a number, an address text is right when all octets but the first are zero. -/
theorem ipv4_number_iff {text : String} :
    ipv4addr text = some (leBytes 4 (narrow 32 (strtonum text))) ↔
      ∃ a, ipv4addr text = some [a, 0, 0, 0] := by
  have hbytes {a b c d : UInt8} (h : ipv4addr text = some [a, b, c, d]) :
      leBytes 4 (narrow 32 (strtonum text)) = [a, 0, 0, 0] := by
    have ha := a.toNat_lt
    rw [strtonum_ipv4 h, narrow, Nat.mod_eq_of_lt (by omega)]
    have hdiv : a.toNat / 256 = 0 := by omega
    simp [leBytes, hdiv]
  constructor
  · intro h
    obtain ⟨a, b, c, d, habcd⟩ : ∃ a b c d, ipv4addr text = some [a, b, c, d] := by
      obtain ⟨a, b, c, d, hl⟩ := List.length_eq_four.mp
        (leBytes_length 4 (narrow 32 (strtonum text)))
      exact ⟨a, b, c, d, hl ▸ h⟩
    exact ⟨a, by rw [h, hbytes habcd]⟩
  · rintro ⟨a, ha⟩
    rw [ha, hbytes ha]

/-- A number is stored right when it is a numeral that fits. -/
theorem numeral_stored_iff {k : Nat} {text : String} :
    ((numeralValue text).bind fun n => if n < 256 ^ k then some (leBytes k n) else none) =
        some (leBytes k (narrow (8 * k) (strtonum text))) ↔ FitsNumeral (8 * k) text := by
  have hpow : (256 : Nat) ^ k = 2 ^ (8 * k) := by
    rw [pow_mul]
    rfl
  constructor
  · intro h
    obtain ⟨n, hn, h⟩ := Option.bind_eq_some_iff.mp h
    split at h
    next hlt =>
      have hnarrow : narrow (8 * k) (strtonum text) < 256 ^ k := by
        rw [hpow]
        exact Nat.mod_lt _ (Nat.two_pow_pos _)
      have heq := congrArg leNat (Option.some.inj h)
      rw [leNat_leBytes_of_lt hlt, leNat_leBytes_of_lt hnarrow] at heq
      exact ⟨n, hn, hpow ▸ hlt, lt_of_narrow_strtonum hn heq.symm⟩
    · cases h
  · rintro ⟨n, hn, hlt, hmax⟩
    rw [hn, narrow_strtonum hn hlt hmax, Option.bind_some, if_pos (by rw [hpow]; exact hlt)]

/-- No text is both a number and an IPv6 address. -/
theorem ipv6addr_number {text : String} (h : isValidNumber text = true) :
    ipv6addr text = none := by
  have hchars : ∀ c ∈ text.toList, c ∈ "1234567890xABCDEFabcdef".toList := by
    unfold isValidNumber at h
    split at h
    next r heq =>
      rw [heq]
      rw [heq] at h
      exact strspn_eq_length.mp (by simpa using h)
    next =>
      have hsub : "1234567890".toList ⊆ "1234567890xABCDEFabcdef".toList := by decide
      intro c hc
      exact hsub (strspn_eq_length.mp (by simpa using h) c hc)
  refine inetPton6_no_sep fun c hc => ?_
  have hmem := hchars c hc
  constructor <;> rintro rfl <;> exact absurd hmem (by decide)

/-- Uninitialised memory that holds the same byte everywhere. -/
def Junk.fill (b : UInt8) : Junk where
  inAddr := List.replicate 4 b
  inAddrMask := List.replicate 4 b
  in6Addr := List.replicate 16 b
  in6AddrMask := List.replicate 16 b
  valueObject := List.replicate 6 b
  maskObject := List.replicate 6 b
  inAddr_length := by simp
  inAddrMask_length := by simp
  in6Addr_length := by simp
  in6AddrMask_length := by simp
  valueObject_length := by simp
  maskObject_length := by simp

/-- What depends on uninitialised memory is never what a text denotes. -/
theorem not_forall_junk {v : Option Bytes} {g : Junk → Bytes}
    (hg : ∀ b, g (Junk.fill b) = List.replicate 6 b) : ¬ ∀ junk, v = some (g junk) := by
  intro h
  have heq := (h (Junk.fill 0)).symm.trans (h (Junk.fill 1))
  rw [hg, hg] at heq
  exact absurd (Option.some.inj heq) (by decide)

/-- One of the two ways a text of the field is stored: as value or as mask. -/
def StoresText (fld : MatchField) (text : String) (g : Junk → Bytes) : Prop :=
  (∃ masked, ∀ junk, g junk = storedValue junk masked fld text) ∨
    ∀ junk, g junk = storedMask junk fld text

/-- The fields of the loop over numbers are converted, denoted and judged as numbers. -/
theorem number_spec {fld : MatchField} (hk : isNumber fld.index = true) (text : String) :
    (∀ junk masked, storedValue junk masked fld text =
        leBytes fld.size (narrow (8 * fld.size) (strtonum text))) ∧
      (∀ junk, storedMask junk fld text =
        leBytes fld.size (narrow (8 * fld.size) (strtonum text))) ∧
      matchArgType fld.index = .eNum ∧
      (TextOk fld text ↔ FitsNumeral (8 * fld.size) text) := by
  unfold storedValue storedMask TextOk matchArgType
  refine ⟨fun junk masked => ?_, fun junk => ?_, ?_, ?_⟩ <;> split <;> simp_all [isNumber]

section Values

variable {fld : MatchField} {text : String} (h : fld ∈ fields) (hv : Valid fld text)

include h hv

/-- A text that is no masked Ethernet address is stored alike as value and as
mask, and right exactly when it is `TextOk`. -/
theorem stored_text_iff (hsha : fld.index ≠ arpSha ∧ fld.index ≠ arpTha)
    (heth : fld.index ≠ ethSrc ∧ fld.index ≠ ethDst) {g : Junk → Bytes}
    (hg : StoresText fld text g) :
    (∀ junk, denotedValue fld text =
      some ((g junk).take (oxmLength fld.index.header))) ↔ TextOk fld text := by
  -- an address that is stored as it is denoted
  have hright {b : Bytes} (hden : denotedValue fld text = some b) (hgb : ∀ junk, g junk = b)
      (hlen : b.length = oxmLength fld.index.header) (htext : TextOk fld text) :
      (∀ junk, denotedValue fld text =
        some ((g junk).take (oxmLength fld.index.header))) ↔ TextOk fld text := by
    refine iff_of_true (fun junk => ?_) htext
    rw [hden, hgb, List.take_of_length_le hlen.le]
  rcases kind_cases h with ⟨hk, hl⟩ | ⟨hk, hl⟩ | ⟨hk, -⟩ | ⟨hk, hs, hl⟩ | ⟨hk, hl⟩ | hk | ⟨hk, hl⟩
  · obtain ⟨b, hb⟩ : ∃ b, ipv4addr text = some b := by
      rcases hk with hk | hk <;> simpa [Valid, matchArgType, hk, Option.isSome_iff_exists] using hv
    refine hright (b := b) ?_ (fun junk => ?_) (by rw [hl, inetPton4_length hb]) ?_
    · rcases hk with hk | hk <;> simp [denotedValue, matchArgType, hk, hb]
    · rcases hg with ⟨masked, hg⟩ | hg <;> rcases hk with hk | hk <;>
        simp [hg, storedValue, storedMask, hk, hb]
    · rcases hk with hk | hk <;> simp [TextOk, hk]
  · obtain ⟨b, hb⟩ : ∃ b, ipv6addr text = some b := by
      rcases hk with hk | hk | hk <;>
        simpa [Valid, matchArgType, hk, Option.isSome_iff_exists] using hv
    refine hright (b := b) ?_ (fun junk => ?_) (by rw [hl, inetPton6_length hb]) ?_
    · rcases hk with hk | hk | hk <;> simp [denotedValue, matchArgType, hk, hb]
    · rcases hg with ⟨masked, hg⟩ | hg <;> rcases hk with hk | hk | hk <;>
        simp [hg, storedValue, storedMask, hk, hb]
    · rcases hk with hk | hk | hk <;> simp [TextOk, hk]
  · rcases hk with hk | hk
    · exact absurd hk heth.1
    · exact absurd hk heth.2
  · have hgn : ∀ junk, g junk = leBytes 4 (narrow 32 (strtonum text)) := by
      intro junk
      rcases hg with ⟨masked, hg⟩ | hg <;> rcases hk with hk | hk <;>
        simp [hg, storedValue, storedMask, hk, hs]
    have hden : denotedValue fld text = ipv4addr text := by
      rcases hk with hk | hk <;> simp [denotedValue, matchArgType, hk]
    have htext : TextOk fld text ↔ ∃ a, ipv4addr text = some [a, 0, 0, 0] := by
      rcases hk with hk | hk <;> simp [TextOk, hk]
    rw [htext, ← ipv4_number_iff, hden, hl]
    simp only [hgn, List.take_of_length_le (leBytes_length 4 _).le]
    exact ⟨fun hall => hall (Junk.fill 0), fun heq _ => heq⟩
  · have hnum : isValidNumber text = true := by
      rcases hk with hk | hk <;> simpa [Valid, matchArgType, hk] using hv
    refine iff_of_false ?_ (by rcases hk with hk | hk <;> simp [TextOk, hk])
    rw [hl]
    refine not_forall_junk fun b => ?_
    rcases hg with ⟨masked, hg⟩ | hg <;> rcases hk with hk | hk <;>
      simp [hg, storedValue, storedMask, hk, ipv6addr_number hnum, Junk.fill]
  · rcases hk with hk | hk
    · exact absurd hk hsha.1
    · exact absurd hk hsha.2
  · obtain ⟨hvalue, hmask, htype, htext⟩ := number_spec hk text
    have hgn : ∀ junk, g junk = leBytes fld.size (narrow (8 * fld.size) (strtonum text)) := by
      intro junk
      rcases hg with ⟨masked, hg⟩ | hg
      · rw [hg, hvalue]
      · rw [hg, hmask]
    have hden : denotedValue fld text = (numeralValue text).bind fun n =>
        if n < 256 ^ fld.size then some (leBytes fld.size n) else none := by
      simp [denotedValue, htype, hl]
    rw [htext, ← numeral_stored_iff, hden, hl]
    simp only [hgn, List.take_of_length_le (leBytes_length _ _).le]
    exact ⟨fun hall => hall (Junk.fill 0), fun heq _ => heq⟩

omit h in
/-- An Ethernet address is stored right without a mask, and never with one. -/
theorem stored_eth (heth : fld.index = ethSrc ∨ fld.index = ethDst) :
    TextOk fld text ∧
      (∀ junk, denotedValue fld text =
        some ((storedValue junk false fld text).take (oxmLength fld.index.header))) ∧
      ¬ ∀ junk, denotedValue fld text =
        some ((storedValue junk true fld text).take (oxmLength fld.index.header)) := by
  have hl : oxmLength fld.index.header = 6 := by
    rcases heth with hk | hk <;> rw [hk] <;> decide
  obtain ⟨b, hb⟩ : ∃ b, ethernetaddr text = some b := by
    rcases heth with hk | hk <;> simpa [Valid, matchArgType, hk, Option.isSome_iff_exists] using hv
  have hlen := ethernetaddr_length hb
  refine ⟨?_, fun junk => ?_, ?_⟩
  · rcases heth with hk | hk <;> simp [TextOk, hk]
  · rw [hl]
    rcases heth with hk | hk <;>
      simp [denotedValue, storedValue, matchArgType, hk, hb, hlen]
  · rw [hl]
    refine not_forall_junk fun b => ?_
    rcases heth with hk | hk <;> simp [storedValue, hk, Junk.fill]

end Values

/-! ## Which entries are stored right -/

theorem argType_length {fld : MatchField} (h : fld ∈ fields) :
    (matchArgType fld.index = .eIpv4 → oxmLength fld.index.header = 4) ∧
    (matchArgType fld.index = .eIpv6 → oxmLength fld.index.header = 16) ∧
    (matchArgType fld.index = .eMAC → oxmLength fld.index.header = 6) := by
  revert fld
  decide

theorem denotedValue_length {fld : MatchField} (h : fld ∈ fields) {text : String} {b : Bytes}
    (hb : denotedValue fld text = some b) : b.length = oxmLength fld.index.header := by
  obtain ⟨h4, h6, hmac⟩ := argType_length h
  unfold denotedValue at hb
  split at hb
  next ht => rw [h4 ht, inetPton4_length hb]
  next ht => rw [h6 ht, inetPton6_length hb]
  next ht => rw [hmac ht, ethernetaddr_length hb]
  next =>
    obtain ⟨n, -, hb⟩ := Option.bind_eq_some_iff.mp hb
    split at hb
    · cases hb
      simp
    · cases hb

theorem storedMask_length {fld : MatchField} (h : fld ∈ fields)
    (hsha : fld.index ≠ arpSha ∧ fld.index ≠ arpTha) (junk : Junk) (text : String) :
    oxmLength fld.index.header ≤ (storedMask junk fld text).length := by
  have hpton4 (t : Option Bytes) (ht : ∀ b, t = some b → b.length = 4) :
      (t.getD junk.inAddrMask).length = 4 := by
    cases t with
    | none => exact junk.inAddrMask_length
    | some b => exact ht b rfl
  have hpton6 (t : Option Bytes) (ht : ∀ b, t = some b → b.length = 16) :
      (t.getD junk.in6AddrMask).length = 16 := by
    cases t with
    | none => exact junk.in6AddrMask_length
    | some b => exact ht b rfl
  have h4 := hpton4 (ipv4addr text) fun b hb => inetPton4_length hb
  have h6 := hpton6 (ipv6addr text) fun b hb => inetPton6_length hb
  have hobj := junk.maskObject_length
  rcases kind_cases h with ⟨hk, hl⟩ | ⟨hk, hl⟩ | ⟨hk, hl⟩ | ⟨hk, hs, hl⟩ | ⟨hk, hl⟩ | hk | ⟨hk, hl⟩
  all_goals first | rw [hl] | skip
  · rcases hk with hk | hk <;> simp only [storedMask, hk] <;> omega
  · rcases hk with hk | hk | hk <;> simp only [storedMask, hk] <;> omega
  · rcases hk with hk | hk <;> simp only [storedMask, hk] <;> omega
  · rcases hk with hk | hk <;> simp [storedMask, hk, hs]
  · rcases hk with hk | hk <;> simp only [storedMask, hk] <;> omega
  · rcases hk with hk | hk
    · exact absurd hk hsha.1
    · exact absurd hk hsha.2
  · rw [(number_spec hk text).2.1]
    simp

/-- A field whose texts are valid is stored as denoted, whatever was in memory,
when its texts are right and an Ethernet address has no mask. -/
theorem denotedTlv_iff {T : Texts} {fld : MatchField} (h : fld ∈ fields)
    (hsha : fld.index ≠ arpSha ∧ fld.index ≠ arpTha) (hpres : present T fld = true)
    (hvalid : ∀ text, T fld.name = some text ∨ T (maskKey fld.name) = some text →
      Valid fld text) :
    (∀ junk, denotedTlv T fld = some (storedTlv junk T fld)) ↔
      (∀ text, T fld.name = some text ∨ T (maskKey fld.name) = some text → TextOk fld text) ∧
        (fld.index = ethSrc ∨ fld.index = ethDst → T (maskKey fld.name) = none) := by
  obtain ⟨text, ht⟩ := Option.isSome_iff_exists.mp hpres
  have hvt := hvalid text (.inl ht)
  have heth_or : (fld.index = ethSrc ∨ fld.index = ethDst) ∨
      (fld.index ≠ ethSrc ∧ fld.index ≠ ethDst) := by
    by_cases h1 : fld.index = ethSrc
    · exact .inl (.inl h1)
    · by_cases h2 : fld.index = ethDst
      · exact .inl (.inr h2)
      · exact .inr ⟨h1, h2⟩
  cases hm : T (maskKey fld.name) with
  | none =>
    have hiff (junk : Junk) : denotedTlv T fld = some (storedTlv junk T fld) ↔
        denotedValue fld text =
          some ((storedValue junk false fld text).take (oxmLength fld.index.header)) := by
      simp [denotedTlv, storedTlv, tlvOf, ht, hm, Option.bind_eq_some_iff]
    have htexts : (∀ t, T fld.name = some t ∨ (none : Option String) = some t → TextOk fld t) ↔
        TextOk fld text := by
      simp [ht]
    simp only [hiff, htexts, implies_true, and_true]
    rcases heth_or with heth | heth
    · obtain ⟨hok, hright, -⟩ := stored_eth hvt heth
      exact iff_of_true hright hok
    · exact stored_text_iff h hvt hsha heth (.inl ⟨false, fun _ => rfl⟩)
  | some m =>
    have hvm := hvalid m (.inr hm)
    have hiff (junk : Junk) : denotedTlv T fld = some (storedTlv junk T fld) ↔
        denotedValue fld text =
            some ((storedValue junk true fld text).take (oxmLength fld.index.header)) ∧
          denotedValue fld m =
            some ((storedMask junk fld m).take (oxmLength fld.index.header)) := by
      simp only [denotedTlv, storedTlv, tlvOf, ht, hm, Option.map_some, Option.getD_some,
        Option.isSome_some, wild_length h]
      constructor
      · intro heq
        obtain ⟨_, htext, heq⟩ := Option.bind_eq_some_iff.mp heq
        cases htext
        obtain ⟨value, hvalue, heq⟩ := Option.bind_eq_some_iff.mp heq
        obtain ⟨mask, hmask, heq⟩ := Option.bind_eq_some_iff.mp heq
        have happ := congrArg OflMatchTlv.value (Option.some.inj heq)
        have hlen : mask.length =
            ((storedMask junk fld m).take (oxmLength fld.index.header)).length := by
          rw [denotedValue_length h hmask, List.length_take,
            Nat.min_eq_left (storedMask_length h hsha junk m)]
        obtain ⟨h1, h2⟩ := List.append_inj' happ hlen
        exact ⟨by rw [← h1]; exact hvalue, by rw [← h2]; exact hmask⟩
      · rintro ⟨hvalue, hmask⟩
        simp [hvalue, hmask]
    have htexts : (∀ t, T fld.name = some t ∨ some m = some t → TextOk fld t) ↔
        TextOk fld text ∧ TextOk fld m := by
      simp [ht, or_imp, forall_and]
    simp only [hiff, htexts, forall_and, reduceCtorEq, imp_false, not_or]
    rcases heth_or with heth | heth
    · obtain ⟨-, -, hwrong⟩ := stored_eth hvt heth
      refine iff_of_false (fun hall => hwrong hall.1) (fun hall => ?_)
      rcases heth with heth | heth
      · exact hall.2.1 heth
      · exact hall.2.2 heth
    · rw [stored_text_iff h hvt hsha heth (.inl ⟨true, fun _ => rfl⟩),
        stored_text_iff h hvm hsha heth (.inr fun _ => rfl)]
      simp [heth]

/-! ## The match builder -/

/-- The texts of an accepted request are valid. -/
theorem valid_of_checkArgs {parse : String → JsonObject} {args : JsonObject}
    (hcheck : checkArgs parse matchTags args = .ok ()) {fld : MatchField} (h : fld ∈ fields)
    (text : String)
    (ht : args.text? fld.name = some text ∨ args.text? (maskKey fld.name) = some text) :
    Valid fld text := by
  have hdict := isDict_of_checkArgs hcheck
  have harg : ∃ key, checkArg parse key (matchArgType fld.index) text = .ok () := by
    rcases ht with ht | ht
    · refine ⟨fld.name, checkArg_of_checkArgs hcheck ?_ ?_⟩
      · exact List.mem_flatMap.mpr ⟨fld, h, by simp⟩
      · rw [findIfExists_dict hdict, ht]
    · refine ⟨maskKey fld.name, checkArg_of_checkArgs hcheck ?_ ?_⟩
      · exact List.mem_flatMap.mpr ⟨fld, h, by simp⟩
      · rw [findIfExists_dict hdict, ht]
  obtain ⟨key, hok⟩ := harg
  have htypes : ∀ g ∈ fields, matchArgType g.index ≠ .eJArray ∧ matchArgType g.index ≠ .eString := by
    decide
  obtain ⟨hj, hstr⟩ := htypes fld h
  unfold Valid
  cases htype : matchArgType fld.index <;> simp only [htype, checkArg] at hok ⊢
  case eJArray => exact absurd htype hj
  case eString => exact absurd htype hstr
  all_goals
    split at hok
    · assumption
    · cases hok

/-- When all recognised keys are translated, the present fields are the stored ones. -/
theorem storedFields_perm {T : Texts}
    (h : ∀ fld ∈ fields, present T fld = true → fld ∈ storedFields T) :
    (storedFields T).Perm (fields.filter (present T)) := by
  have hnd : (fields.filter (present T)).Nodup :=
    List.Nodup.filter _ (by decide)
  refine (List.perm_ext_iff_of_nodup (storedFields_nodup T) hnd).mpr fun fld => ?_
  rw [List.mem_filter]
  constructor
  · intro hmem
    have hf := storedFields_subset hmem
    exact ⟨hf, ((mem_storedFields hf).mp hmem).1⟩
  · rintro ⟨hf, hp⟩
    exact h fld hf hp

theorem filterMap_of_present {T : Texts} {g : MatchField → OflMatchTlv} {flds : List MatchField}
    (h : ∀ fld ∈ flds, present T fld = true → denotedTlv T fld = some (g fld)) :
    flds.filterMap (denotedTlv T) = (flds.filter (present T)).map g := by
  induction flds with
  | nil => rfl
  | cons fld flds ih =>
    have htail := ih fun x hx => h x (List.mem_cons_of_mem _ hx)
    rw [List.filterMap_cons, List.filter_cons]
    cases hp : present T fld with
    | true => simp [h fld List.mem_cons_self hp, htail]
    | false =>
      have hnone : T fld.name = none := by simpa [present] using hp
      have hd : denotedTlv T fld = none := by simp [denotedTlv, hnone]
      simp [hd, htail]

/-- `construct_match` translates a request faithfully, whatever its
uninitialised memory holds, exactly when it refuses the request or every
recognised key is translated. -/
theorem constructMatch_faithful_iff (parse : String → JsonObject) (args : JsonObject)
    (f : OflMatch) :
    (∀ junk f', constructMatch parse junk args f = .ok f' → Faithful args.text? f f') ↔
      (checkArgs parse matchTags args = .ok () → ∀ fld ∈ fields, KeyOk args.text? fld) := by
  constructor
  · intro hall hcheck fld h
    have hdict := isDict_of_checkArgs hcheck
    -- a denoted entry of the field can only be the stored entry of the field
    have hstored (hp : present args.text? fld = true) (junk : Junk) :
        fld ∈ storedFields args.text? ∧
          denotedTlv args.text? fld = some (storedTlv junk args.text? fld) := by
      obtain ⟨f', hok, hperm⟩ := constructMatch_entries (f := f) hdict hcheck junk
      have hfaith := hall junk f' hok
      obtain ⟨d, hd⟩ := Option.isSome_iff_exists.mp (hfaith.denotes fld h hp)
      have hcancel := (List.perm_append_right_iff _).mp (hperm.symm.trans hfaith.entries)
      have hmem : d ∈ (storedFields args.text?).map (storedTlv junk args.text?) :=
        hcancel.mem_iff.mpr (List.mem_filterMap.mpr ⟨fld, h, hd⟩)
      obtain ⟨g, hg, hgd⟩ := List.mem_map.mp hmem
      have hgf := storedFields_subset hg
      have heq : fld = g := by
        refine eq_of_headerField h hgf ?_
        rw [← headerField_denotedTlv h hd, ← hgd]
        exact headerField_tlvOf hgf _ _
      subst heq
      exact ⟨hg, by rw [hd, hgd]⟩
    obtain ⟨f', hok, -⟩ := constructMatch_entries (f := f) hdict hcheck (Junk.fill 0)
    have hmask := (hall _ f' hok).mask_used fld h
    have hvalid := fun text => valid_of_checkArgs hcheck h text
    cases hp : present args.text? fld with
    | false =>
      have hnone : args.text? fld.name = none := by simpa [present] using hp
      have hmnone : args.text? (maskKey fld.name) = none := by
        rw [hnone] at hmask
        simpa using hmask
      exact ⟨hmask, by simp [hnone], fun _ => hmnone, by simp [hnone, hmnone]⟩
    | true =>
      obtain ⟨-, hfirst, hsha⟩ := (mem_storedFields h).mp (hstored hp (Junk.fill 0)).1
      obtain ⟨htexts, hun⟩ := (denotedTlv_iff h hsha hp hvalid).mp fun junk => (hstored hp junk).2
      exact ⟨hmask, fun _ => hfirst, hun, htexts⟩
  · intro hall junk f' hok
    have hcheck := checkArgs_of_constructMatch hok
    have hkeys := hall hcheck
    obtain ⟨f'', hok', hperm⟩ :=
      constructMatch_entries (f := f) (isDict_of_checkArgs hcheck) hcheck junk
    rw [hok] at hok'
    cases hok'
    have hsha {fld : MatchField} (h : fld ∈ fields) (hp : present args.text? fld = true) :
        fld.index ≠ arpSha ∧ fld.index ≠ arpTha := by
      obtain ⟨text, ht⟩ := Option.isSome_iff_exists.mp hp
      have htext := (hkeys fld h).texts text (.inl ht)
      constructor <;> intro hi <;> simp [TextOk, hi] at htext
    have hden : ∀ fld ∈ fields, present args.text? fld = true →
        denotedTlv args.text? fld = some (storedTlv junk args.text? fld) := fun fld h hp =>
      (denotedTlv_iff h (hsha h hp) hp fun text => valid_of_checkArgs hcheck h text).mpr
        ⟨(hkeys fld h).texts, (hkeys fld h).unmasked⟩ junk
    refine ⟨fun fld h hp => ?_, fun fld h => (hkeys fld h).mask_used, ?_⟩
    · rw [hden fld h hp]
      rfl
    · rw [filterMap_of_present hden]
      refine hperm.trans (List.Perm.append_right _ (List.Perm.map _ ?_))
      refine storedFields_perm fun fld h hp => (mem_storedFields h).mpr ?_
      exact ⟨hp, (hkeys fld h).first hp, hsha h hp⟩

/-- Of two IPv4 addresses given together only the source is stored. -/
theorem two_addresses_not_faithful :
    let args := JsonObject.dict
      [("ipv4_src", .string "10.0.0.1"), ("ipv4_dst", .string "10.0.0.2")]
    ¬ ∀ junk f', constructMatch (fun _ => .null) junk args oflStructsMatchInit = .ok f' →
      Faithful args.text? oflStructsMatchInit f' := by
  intro args hall
  have hcheck : checkArgs (fun _ => .null) matchTags args = .ok () := by decide
  obtain ⟨f', hok, hperm⟩ := constructMatch_entries (f := oflStructsMatchInit)
    (⟨_, rfl⟩ : args.IsDict) hcheck (Junk.fill 0)
  have hlen := (hperm.symm.trans (hall _ f' hok).entries).length_eq
  rw [List.length_append, List.length_append, List.length_map] at hlen
  have hstored : (storedFields args.text?).length = 1 := by decide
  have hdenoted : (fields.filterMap (denotedTlv args.text?)).length = 2 := by decide
  omega

end Nox.Interserver

import Nox.Ofl.SetField
import Nox.Interserver.Actions
import Nox.Interserver.MatchFidelity

/-!
# What an action `set_field` denotes

The payload a text denotes in a field under the format it is checked for, and when the
action made of it is packed with this payload and comes back from the wire
(`carriesField_iff`).  The builder chooses the memory of a value by the name of the field,
the encoder its order by the length and number in the header.
-/

namespace Nox.Interserver

open Nox.Oxm OxmFieldIndex JsonObject Libc
open Ofl
open Lib (ok_bind)

section Denotation

/-! ## Denotation -/

/-- An action with the text under one field, and nothing under another. -/
structure FieldAction (args : JsonObject) (type : String) (fld : MatchField) (text : String) :
    Prop where
  isDict : args.IsDict
  action_type : args.text? "action_type" = some type
  field : args.text? fld.name = some text
  only : ∀ key, key ≠ "action_type" → key ≠ fld.name → args.text? key = none

/-- The bytes a text denotes in a field, in network order, under the type it is registered
with. -/
def denotedPayload (fld : MatchField) (text : String) : Option Bytes :=
  match actionArgType fld.index with
  | .eIpv4 => ipv4addr text
  | .eIpv6 => ipv6addr text
  | .eMAC => ethernetaddr text
  | _ =>
    (numeralValue text).bind fun n =>
      if n < 256 ^ oxmLength fld.index.header then
        some (beBytes (oxmLength fld.index.header) n)
      else none

/-- The builder adds the field with a value that is packed as the payload and unpacked from
it. -/
structure CarriesPayload (parse : String → JsonObject) (args : JsonObject) (acts : Actions)
    (header : UInt32) (payload value : Bytes) : Prop where
  length_payload : payload.length = oxmLength header
  built : constructAction args acts parse = .ok (acts ++ [.setField header value])
  packed : ∀ old, oflActionsPack old (.setField header value) = some (setFieldBytes header payload)
  unpacked : ∀ fresh, oflActionsUnpack fresh (setFieldBytes header payload)
    (setFieldBytes header payload).length = .ok (.setField header value, 0)

/-- The action carries what the text denotes in the field. -/
def CarriesField (parse : String → JsonObject) (args : JsonObject) (acts : Actions)
    (fld : MatchField) (text : String) : Prop :=
  ∃ payload value, denotedPayload fld text = some payload ∧
    CarriesPayload parse args acts fld.index.header payload value

/-- The texts that are carried: an ARP address, which is read as a number and written as
it stands in memory, where both orders are the same; of eight bytes the zero only;
hardware addresses of ARP and neighbour discovery never. -/
def FieldKept (fld : MatchField) (text : String) : Prop :=
  match fld.index with
  | ipv4Src | ipv4Dst | ipv6Src | ipv6Dst | ipv6NdTarget | ethSrc | ethDst => True
  | arpSpa | arpTpa => ∃ n, numeralValue text = some n ∧ n < 2 ^ 32 ∧ hton 4 n = n
  | arpSha | arpTha | ipv6NdTll | ipv6NdSll => False
  | metadata | tunnelId => numeralValue text = some 0
  | _ => FitsNumeral (8 * fld.size) text

end Denotation

section Builder

/-! ## What the builder adds -/

variable {args : JsonObject} {type text : String} {fld : MatchField}
  {parse : String → JsonObject} (acts : Actions)

/-- The memory of the value the builder gives a field. -/
def setFieldValue (fld : MatchField) (text : String) : Bytes :=
  match fld.index with
  | ipv4Src | ipv4Dst => (ipv4addr text).getD []
  | ipv6Src | ipv6Dst | ipv6NdTarget | ipv6NdTll | ipv6NdSll => (ipv6addr text).getD []
  | ethSrc | ethDst => (ethernetaddr text).getD []
  | _ => leBytes fld.size (narrow (8 * fld.size) (strtonum text))

theorem name_inj {g : MatchField} (h : fld ∈ fields) (hg : g ∈ fields)
    (heq : g.name = fld.name) : g = fld := by
  have hfind := findField_of_mem hg
  rw [heq, findField_of_mem h] at hfind
  exact (Option.some.inj hfind).symm

theorem name_ne_action_type (h : fld ∈ fields) : fld.name ≠ "action_type" := by
  revert fld
  decide

theorem require_none {key what : String} (h : args.IsDict) (hnone : args.text? key = none) :
    require args key what = invalidArgument what := by
  rw [require, findIfExists_dict h, hnone]
  rfl

theorem require_some {key what value : String} (h : args.IsDict)
    (hsome : args.text? key = some value) : require args key what = .ok value := by
  rw [require, findIfExists_dict h, hsome]
  rfl

/-- A chain of lookups finds the field or nothing. -/
theorem FieldAction.findFirst (h : FieldAction args type fld text) {keys : List String}
    (hkeys : "action_type" ∉ keys) :
    findFirst args keys = .ok (if fld.name ∈ keys then some (fld.name, text) else none) := by
  rw [findFirst_dict h.isDict]
  induction keys with
  | nil => rfl
  | cons key keys ih =>
    rw [List.mem_cons, not_or] at hkeys
    rw [List.findSome?_cons]
    by_cases heq : fld.name = key
    · simp [← heq, h.field]
    · rw [h.only key (Ne.symm hkeys.1) (Ne.symm heq)]
      simpa [heq] using ih hkeys.2

/-- The loop over numbers finds the field, unless it has no case for its size. -/
theorem FieldAction.constructFieldNumber (h : FieldAction args type fld text)
    (hfld : fld ∈ fields) {ps : List MatchField} (hps : ∀ p ∈ ps, p ∈ fields) :
    constructFieldNumber args acts ps =
      .ok (if fld ∈ ps ∧ (fld.size = 1 ∨ fld.size = 2 ∨ fld.size = 4 ∨ fld.size = 8) then
        createSetField acts fld.name (leBytes fld.size (narrow (8 * fld.size) (strtonum text)))
      else acts) := by
  induction ps with
  | nil => simp [Interserver.constructFieldNumber, pure, Except.pure]
  | cons p ps ih =>
    have ih := ih fun q hq => hps q (List.mem_cons_of_mem p hq)
    have hp := hps p List.mem_cons_self
    rw [Interserver.constructFieldNumber, findIfExists_dict h.isDict, ok_bind]
    by_cases heq : p = fld
    · subst heq
      rw [h.field]
      dsimp only
      split
      · next hsize =>
        rw [if_pos ⟨List.mem_cons_self, hsize⟩]
        rfl
      · next hsize =>
        rw [if_neg fun hc => hsize hc.2, ih, if_neg fun hc => hsize hc.2]
    · have hne : p.name ≠ fld.name := fun hname => heq (name_inj hfld hp hname)
      rw [h.only p.name (name_ne_action_type hp) hne]
      simpa [Ne.symm heq] using ih

/-- The keys of a group of addresses are the names of its fields. -/
theorem name_mem_group (h : fld ∈ fields) :
    (fld.name ∈ ["ipv4_src", "ipv4_dst"] ↔ fld ∈ ipv4Group) ∧
    (fld.name ∈ ["ipv6_src", "ipv6_dst", "ipv6_nd_target", "ipv6_nd_tll", "ipv6_nd_sll"] ↔
      fld ∈ ipv6Group) ∧
    (fld.name ∈ ["eth_dst", "eth_src"] ↔ fld ∈ ethGroup) := by
  revert fld
  decide

theorem createSetField_of_mem (h : fld ∈ fields) (value : Bytes) :
    createSetField acts fld.name value = acts ++ [.setField fld.index.header value] := by
  rw [createSetField, findField_of_mem h]
  rfl

/-- A hardware address of ARP has six bytes, which is no size of a number. -/
def isArpHardware (i : OxmFieldIndex) : Bool := i == arpSha || i == arpTha

theorem setFieldValue_group (fld : MatchField) (text : String) :
    (fld ∈ ipv4Group → setFieldValue fld text = (ipv4addr text).getD [] ∧
      isArpHardware fld.index = false) ∧
    (fld ∈ ipv6Group → setFieldValue fld text = (ipv6addr text).getD [] ∧
      isArpHardware fld.index = false) := by
  simp only [ipv4Group, ipv6Group, List.mem_cons, List.not_mem_nil, or_false]
  constructor
  · rintro (rfl | rfl) <;> exact ⟨rfl, rfl⟩
  · rintro (rfl | rfl | rfl | rfl | rfl) <;> exact ⟨rfl, rfl⟩

theorem setFieldValue_special (text : String) (h : fld ∈ matchTagsSpecial) :
    setFieldValue fld text = leBytes fld.size (narrow (8 * fld.size) (strtonum text)) ∧
      ((fld.size = 1 ∨ fld.size = 2 ∨ fld.size = 4 ∨ fld.size = 8) ↔
        isArpHardware fld.index = false) := by
  constructor
  · have hidx := (List.mem_filter.mp h).2
    unfold setFieldValue
    split <;> simp_all
  · revert fld
    decide

/-- A checked Ethernet address is read. -/
theorem readEthernetaddr_of_check {key : String} (text : String) (h : args.IsDict)
    (hcheck : checkArgs parse actionTags args = .ok ()) (hkey : (key, .eMAC) ∈ actionTags)
    (htext : args.text? key = some text) :
    readEthernetaddr text = .ok ((ethernetaddr text).getD []) := by
  have hfind : args.findIfExists key = .ok (some text) := by rw [findIfExists_dict h, htext]
  have hvalid := checkArg_of_checkArgs hcheck hkey hfind
  unfold readEthernetaddr
  cases hread : ethernetaddr text with
  | some octet => rfl
  | none =>
    simp only [checkArg, hread] at hvalid
    cases hvalid

/-- The builder adds the field with its value, unless it is a hardware address of ARP. -/
theorem FieldAction.constructSetField (h : FieldAction args type fld text) (hfld : fld ∈ fields)
    (hcheck : checkArgs parse actionTags args = .ok ()) :
    constructSetField args acts = .ok (if isArpHardware fld.index then acts
      else acts ++ [.setField fld.index.header (setFieldValue fld text)]) := by
  obtain ⟨hname4, hname6, hnamee⟩ := name_mem_group hfld
  obtain ⟨hvalue4, hvalue6⟩ := setFieldValue_group fld text
  have hkeys4 : "action_type" ∉ ["ipv4_src", "ipv4_dst"] := by simp
  have hkeys6 : "action_type" ∉
      ["ipv6_src", "ipv6_dst", "ipv6_nd_target", "ipv6_nd_tll", "ipv6_nd_sll"] := by simp
  have hmac {key : String} (hkey : (key, ArgType.eMAC) ∈ actionTags) :=
    readEthernetaddr_of_check text h.isDict hcheck hkey
  rw [Interserver.constructSetField, h.findFirst hkeys4, ok_bind]
  rcases fields_cases hfld with ⟨h4, -⟩ | ⟨h4, h6, -⟩ | ⟨h4, h6, he, -⟩ | ⟨h4, h6, he, hs⟩
  · obtain ⟨hvalue, harp⟩ := hvalue4 h4
    rw [if_pos (hname4.mpr h4), harp, hvalue]
    exact congrArg _ (createSetField_of_mem acts hfld _)
  all_goals rw [if_neg (mt hname4.mp h4)]; dsimp only; rw [h.findFirst hkeys6, ok_bind]
  · obtain ⟨hvalue, harp⟩ := hvalue6 h6
    rw [if_pos (hname6.mpr h6), harp, hvalue]
    exact congrArg _ (createSetField_of_mem acts hfld _)
  all_goals
    rw [if_neg (mt hname6.mp h6)]
    dsimp only
    rw [findIfExists_dict h.isDict, findIfExists_dict h.isDict, ok_bind, ok_bind]
  · simp only [ethGroup, List.mem_cons, List.not_mem_nil, or_false] at he
    rcases he with rfl | rfl
    · rw [h.field, h.only "eth_src" (by simp) (by simp)]
      dsimp only
      rw [hmac (by decide) h.field]
      exact congrArg Except.ok (createSetField_of_mem acts hfld _)
    · rw [h.field]
      dsimp only
      rw [hmac (by decide) h.field]
      exact congrArg Except.ok (createSetField_of_mem acts hfld _)
  · have hnone : ∀ key ∈ ["eth_dst", "eth_src"], args.text? key = none := by
      intro key hkey
      apply h.only key
      · rintro rfl
        simp at hkey
      · rintro rfl
        exact he (hnamee.mp hkey)
    have hps : ∀ p ∈ matchTagsSpecial, p ∈ fields := fun p hp => (List.mem_filter.mp hp).1
    obtain ⟨hvalue, hsize⟩ := setFieldValue_special text hs
    rw [hnone "eth_src" (by simp), hnone "eth_dst" (by simp)]
    dsimp only
    rw [actionTagsSpecial, h.constructFieldNumber acts hfld hps, createSetField_of_mem acts hfld,
      hvalue]
    cases harp : isArpHardware fld.index with
    | false =>
      rw [if_pos ⟨hs, hsize.mpr harp⟩]
      rfl
    | true =>
      rw [if_neg fun hc => Bool.false_ne_true ((hsize.mp hc.2).symm.trans harp)]
      rfl

/-- An action of another type that says no more than the field adds nothing. -/
theorem FieldAction.constructAction_other (h : FieldAction args type fld text)
    (hfld : fld ∈ fields) (hcheck : checkArgs parse actionTags args = .ok ())
    (hne : type ≠ "set_field") {acts' : Actions}
    (hok : constructAction args acts parse = .ok acts') : acts' = acts := by
  have hmissing {key what : String} {α : Type} {f : String → Except Fault α}
      (hkey : key ∉ "action_type" :: fields.map (·.name)) {a : α} :
      require args key what >>= f ≠ .ok a := by
    rw [List.mem_cons, not_or] at hkey
    have hfield : key ≠ fld.name := by
      rintro rfl
      exact hkey.2 (List.mem_map_of_mem hfld)
    rw [require_none h.isDict (h.only key hkey.1 hfield)]
    nofun
  rw [constructAction, hcheck, ok_bind, require_some h.isDict h.action_type, ok_bind] at hok
  split at hok
  · exact absurd hok (hmissing (by decide))
  split at hok
  · exact absurd hok (hmissing (by decide))
  split at hok
  · exact absurd hok (hmissing (by decide))
  split at hok
  · exact absurd hok (hmissing (by decide))
  split at hok
  · exact absurd hok (hmissing (by decide))
  split at hok
  · exact absurd hok (hmissing (by decide))
  exact (Except.ok.inj hok).symm

theorem FieldAction.constructAction_setField (h : FieldAction args "set_field" fld text)
    (hfld : fld ∈ fields) (hcheck : checkArgs parse actionTags args = .ok ()) :
    constructAction args acts parse = .ok (if isArpHardware fld.index then acts
      else acts ++ [.setField fld.index.header (setFieldValue fld text)]) := by
  rw [constructAction, hcheck, ok_bind, require_some h.isDict h.action_type, ok_bind,
    ← h.constructSetField acts hfld hcheck]
  rfl

/-- An action is added only for the word of its type, with the value of the builder. -/
theorem FieldAction.constructAction_iff (h : FieldAction args type fld text)
    (hfld : fld ∈ fields) (hcheck : checkArgs parse actionTags args = .ok ()) {value : Bytes} :
    constructAction args acts parse = .ok (acts ++ [.setField fld.index.header value]) ↔
      type = "set_field" ∧ isArpHardware fld.index = false ∧ value = setFieldValue fld text := by
  have hgrows {a : OflAction} : acts ++ [a] ≠ acts := by simp
  constructor
  · intro hok
    have htype : type = "set_field" := by
      by_contra hne
      exact hgrows (h.constructAction_other acts hfld hcheck hne hok)
    subst htype
    rw [h.constructAction_setField acts hfld hcheck] at hok
    cases harp : isArpHardware fld.index with
    | true =>
      rw [harp] at hok
      exact absurd (Except.ok.inj hok).symm hgrows
    | false =>
      rw [harp] at hok
      have hlast := List.append_cancel_left (Except.ok.inj hok)
      simp only [List.cons.injEq, OflAction.setField.injEq] at hlast
      exact ⟨rfl, rfl, hlast.1.2.symm⟩
  · rintro ⟨rfl, harp, rfl⟩
    rw [h.constructAction_setField acts hfld hcheck, harp]
    rfl

end Builder

section Values

/-! ## Which values are carried -/

variable {fld : MatchField} {text : String}

/-- The kinds of fields an action tells apart, with their lengths and their order in
memory. -/
theorem actionKind_cases (h : fld ∈ fields) :
    ((fld.index = ipv4Src ∨ fld.index = ipv4Dst) ∧ oxmLength fld.index.header = 4 ∧
      isSwapped fld.index.header = false) ∨
    ((fld.index = ipv6Src ∨ fld.index = ipv6Dst ∨ fld.index = ipv6NdTarget) ∧
      oxmLength fld.index.header = 16 ∧ isSwapped fld.index.header = false) ∨
    ((fld.index = ethSrc ∨ fld.index = ethDst) ∧ oxmLength fld.index.header = 6 ∧
      isSwapped fld.index.header = false) ∨
    ((fld.index = arpSpa ∨ fld.index = arpTpa) ∧ fld.size = 4 ∧
      oxmLength fld.index.header = 4 ∧ isSwapped fld.index.header = false) ∨
    ((fld.index = ipv6NdTll ∨ fld.index = ipv6NdSll) ∧ oxmLength fld.index.header = 6) ∨
    (fld.index = arpSha ∨ fld.index = arpTha) ∨
    ((fld.index = metadata ∨ fld.index = tunnelId) ∧ fld.size = 8 ∧
      oxmLength fld.index.header = 8 ∧ isSwapped fld.index.header = true) ∨
    (isNumber fld.index = true ∧ fld.index ≠ metadata ∧ fld.index ≠ tunnelId ∧
      oxmLength fld.index.header = fld.size ∧ oxmLength fld.index.header ≠ 8 ∧
      (fld.size = 1 ∨ isSwapped fld.index.header = true)) := by
  revert fld
  decide

theorem length_mem_sizes (h : fld ∈ fields) : oxmLength fld.index.header ∈ setFieldSizes := by
  revert fld
  decide

/-- The text denotes a payload of the length of the field, which the value of the builder
stands for. -/
def ValueKept (fld : MatchField) (text : String) : Prop :=
  ∃ payload, denotedPayload fld text = some payload ∧
    payload.length = oxmLength fld.index.header ∧
    (∀ old, packSetFieldValue fld.index.header (setFieldValue fld text) old = payload) ∧
    hostValue fld.index.header payload = setFieldValue fld text

/-- Where there are not eight bytes the encoder undoes what the decoder does. -/
theorem valueKept_iff_of_ne (h : fld ∈ fields) (hne : oxmLength fld.index.header ≠ 8) :
    ValueKept fld text ↔ ∃ payload, denotedPayload fld text = some payload ∧
      payload.length = oxmLength fld.index.header ∧
      hostValue fld.index.header payload = setFieldValue fld text := by
  constructor
  · exact fun ⟨payload, hden, hlen, _, hhost⟩ => ⟨payload, hden, hlen, hhost⟩
  · rintro ⟨payload, hden, hlen, hhost⟩
    refine ⟨payload, hden, hlen, fun old => ?_, hhost⟩
    rw [← hhost]
    exact packSetFieldValue_host hlen (length_mem_sizes h) hne old

/-- An address that is checked, denoted and stored alike. -/
theorem valueKept_address (h : fld ∈ fields) {addr : String → Option Bytes}
    (hden : denotedPayload fld text = addr text)
    (hvalue : setFieldValue fld text = (addr text).getD [])
    (hvalid : (addr text).isSome = true)
    (hlen : ∀ b, addr text = some b → b.length = oxmLength fld.index.header)
    (hswap : isSwapped fld.index.header = false) (hne : oxmLength fld.index.header ≠ 8) :
    ValueKept fld text := by
  obtain ⟨b, hb⟩ := Option.isSome_iff_exists.mp hvalid
  rw [valueKept_iff_of_ne h hne]
  refine ⟨b, hden.trans hb, hlen b hb, ?_⟩
  rw [hostValue, hswap, hvalue, hb]
  rfl

/-- The other fields of the loop over numbers are registered as numbers and judged as such. -/
theorem numberKind_spec (hk : isNumber fld.index = true) (hmeta : fld.index ≠ metadata)
    (htunnel : fld.index ≠ tunnelId) (text : String) :
    actionArgType fld.index = .eNum ∧
      setFieldValue fld text = leBytes fld.size (narrow (8 * fld.size) (strtonum text)) ∧
      (FitsNumeral (8 * fld.size) text ↔ FieldKept fld text) := by
  unfold actionArgType setFieldValue FieldKept
  refine ⟨?_, ?_, ?_⟩ <;> split <;> simp_all [isNumber]

theorem denotedPayload_number (hnum : actionArgType fld.index = .eNum) {payload : Bytes} :
    denotedPayload fld text = some payload ↔ ∃ n, numeralValue text = some n ∧
      n < 256 ^ oxmLength fld.index.header ∧
      payload = beBytes (oxmLength fld.index.header) n := by
  simp only [denotedPayload, hnum, Option.bind_eq_some_iff]
  constructor
  · rintro ⟨n, hn, hpayload⟩
    split at hpayload
    · next hlt => exact ⟨n, hn, hlt, (Option.some.inj hpayload).symm⟩
    · cases hpayload
  · rintro ⟨n, hn, hlt, rfl⟩
    exact ⟨n, hn, if_pos hlt⟩

/-- A numeral that fits the field is read as it is unless `strtoll` stops before. -/
theorem leBytes_narrow_iff {k n : Nat} (hn : numeralValue text = some n) (hlt : n < 256 ^ k) :
    leBytes k n = leBytes k (narrow (8 * k) (strtonum text)) ↔ n < 2 ^ 63 := by
  have hstored := @numeral_stored_iff k text
  rw [hn, Option.bind_some, if_pos hlt, Option.some.injEq] at hstored
  have hpow : (256 : Nat) ^ k = 2 ^ (8 * k) := by
    rw [pow_mul]
    rfl
  rw [hstored]
  constructor
  · rintro ⟨m, hm, -, hmax⟩
    cases hn.symm.trans hm
    exact hmax
  · exact fun hmax => ⟨n, hn, hpow ▸ hlt, hmax⟩

/-- A number the decoder puts in the order of the host. -/
theorem valueKept_number (h : fld ∈ fields) (hnum : actionArgType fld.index = .eNum)
    (hvalue : setFieldValue fld text = leBytes fld.size (narrow (8 * fld.size) (strtonum text)))
    (hlen : oxmLength fld.index.header = fld.size) (hne : oxmLength fld.index.header ≠ 8)
    (hswap : fld.size = 1 ∨ isSwapped fld.index.header = true) :
    ValueKept fld text ↔ FitsNumeral (8 * fld.size) text := by
  have hhost (n : Nat) : hostValue fld.index.header (beBytes fld.size n) = leBytes fld.size n := by
    unfold hostValue beBytes
    rcases hswap with hone | hswap
    · simp [hone, leBytes]
    · simp [hswap]
  rw [valueKept_iff_of_ne h hne, hvalue, ← numeral_stored_iff]
  simp only [denotedPayload_number hnum, hlen]
  constructor
  · rintro ⟨_, ⟨n, hn, hlt, rfl⟩, -, heq⟩
    rw [hn, Option.bind_some, if_pos hlt, ← heq, hhost]
  · intro heq
    obtain ⟨n, hn, heq⟩ := Option.bind_eq_some_iff.mp heq
    split at heq
    · next hlt =>
      refine ⟨beBytes fld.size n, ⟨n, hn, hlt, rfl⟩, beBytes_length _ n, ?_⟩
      rw [hhost]
      exact Option.some.inj heq
    · cases heq

/-- A number the encoder takes for an address is written as it stands in memory. -/
theorem valueKept_arp (h : fld ∈ fields) (hnum : actionArgType fld.index = .eNum)
    (hvalue : setFieldValue fld text = leBytes 4 (narrow 32 (strtonum text)))
    (hlen : oxmLength fld.index.header = 4) (hswap : isSwapped fld.index.header = false) :
    ValueKept fld text ↔ ∃ n, numeralValue text = some n ∧ n < 2 ^ 32 ∧ hton 4 n = n := by
  have hsame {n : Nat} (hlt : n < 256 ^ 4) : beBytes 4 n = leBytes 4 n ↔ hton 4 n = n := by
    rw [← leBytes_hton]
    constructor
    · intro heq
      have hload := congrArg leNat heq
      rwa [leNat_leBytes_of_lt (hton_lt 4 n), leNat_leBytes_of_lt hlt] at hload
    · exact congrArg _
  rw [valueKept_iff_of_ne h (by omega), hvalue]
  simp only [denotedPayload_number hnum, hlen, hostValue, hswap, Bool.false_eq_true, if_false]
  constructor
  · rintro ⟨_, ⟨n, hn, hlt, rfl⟩, -, heq⟩
    have hread := (leBytes_narrow_iff hn hlt).mpr (by omega)
    exact ⟨n, hn, hlt, (hsame hlt).mp (heq.trans hread.symm)⟩
  · rintro ⟨n, hn, hlt, heq⟩
    have hread := (leBytes_narrow_iff (k := 4) hn hlt).mpr (by omega)
    exact ⟨beBytes 4 n, ⟨n, hn, hlt, rfl⟩, beBytes_length 4 n, ((hsame hlt).mpr heq).trans hread⟩

/-- Of eight bytes the encoder keeps the last two, so that only zero is written as it is. -/
theorem valueKept_eight (hnum : actionArgType fld.index = .eNum)
    (hvalue : setFieldValue fld text = leBytes 8 (narrow 64 (strtonum text)))
    (hlen : oxmLength fld.index.header = 8) (hswap : isSwapped fld.index.header = true) :
    ValueKept fld text ↔ numeralValue text = some 0 := by
  unfold ValueKept
  simp only [denotedPayload_number hnum, hlen, hvalue, hostValue, hswap, if_true,
    packSetFieldValue_eight hlen]
  constructor
  · rintro ⟨_, ⟨n, hn, hlt, rfl⟩, -, hpacked, hhost⟩
    rw [beBytes, List.reverse_reverse, leBytes_narrow_iff hn hlt] at hhost
    have hread : narrow 64 (strtonum text) = n := narrow_strtonum hn hlt hhost
    have hbytes := hpacked []
    rw [hread, Nat.mod_eq_of_lt hlt] at hbytes
    rw [hn, eq_zero_of_cut hlt hbytes]
  · intro hn
    have hread : narrow 64 (strtonum text) = 0 := narrow_strtonum hn (by omega) (by omega)
    rw [hread]
    exact ⟨beBytes 8 0, ⟨0, hn, by omega, rfl⟩, rfl, fun _ => by decide, by decide⟩

theorem isArpHardware_of_kept (h : FieldKept fld text) : isArpHardware fld.index = false := by
  cases harp : isArpHardware fld.index with
  | false => rfl
  | true =>
    simp only [isArpHardware, Bool.or_eq_true, beq_iff_eq] at harp
    rcases harp with hk | hk <;> simp [FieldKept, hk] at h

/-- The texts that are carried are those of `FieldKept`. -/
theorem valueKept_iff (h : fld ∈ fields) {parse : String → JsonObject}
    (hcheck : checkArg parse fld.name (actionArgType fld.index) text = .ok ())
    (harp : isArpHardware fld.index = false) : ValueKept fld text ↔ FieldKept fld text := by
  rcases actionKind_cases h with ⟨hk, hl, hw⟩ | ⟨hk, hl, hw⟩ | ⟨hk, hl, hw⟩ | ⟨hk, hs, hl, hw⟩ |
    ⟨hk, hl⟩ | hk | ⟨hk, hs, hl, hw⟩ | ⟨hk, hmeta, htunnel, hl, hne, hw⟩
  · obtain ⟨hden, hvalue, hvalid, hkept⟩ : denotedPayload fld text = ipv4addr text ∧
        setFieldValue fld text = (ipv4addr text).getD [] ∧ (ipv4addr text).isSome = true ∧
        FieldKept fld text := by
      rcases hk with hk | hk <;>
        simpa [denotedPayload, setFieldValue, FieldKept, actionArgType, checkArg, hk,
          Option.isSome_iff_ne_none] using hcheck
    have hlen : ∀ b, ipv4addr text = some b → b.length = oxmLength fld.index.header :=
      fun b hb => by rw [hl, inetPton4_length hb]
    exact iff_of_true (valueKept_address h hden hvalue hvalid hlen hw (by omega)) hkept
  · obtain ⟨hden, hvalue, hvalid, hkept⟩ : denotedPayload fld text = ipv6addr text ∧
        setFieldValue fld text = (ipv6addr text).getD [] ∧ (ipv6addr text).isSome = true ∧
        FieldKept fld text := by
      rcases hk with hk | hk | hk <;>
        simpa [denotedPayload, setFieldValue, FieldKept, actionArgType, checkArg, hk,
          Option.isSome_iff_ne_none] using hcheck
    have hlen : ∀ b, ipv6addr text = some b → b.length = oxmLength fld.index.header :=
      fun b hb => by rw [hl, inetPton6_length hb]
    exact iff_of_true (valueKept_address h hden hvalue hvalid hlen hw (by omega)) hkept
  · obtain ⟨hden, hvalue, hvalid, hkept⟩ : denotedPayload fld text = ethernetaddr text ∧
        setFieldValue fld text = (ethernetaddr text).getD [] ∧ (ethernetaddr text).isSome = true ∧
        FieldKept fld text := by
      rcases hk with hk | hk <;>
        simpa [denotedPayload, setFieldValue, FieldKept, actionArgType, checkArg, hk,
          Option.isSome_iff_ne_none] using hcheck
    have hlen : ∀ b, ethernetaddr text = some b → b.length = oxmLength fld.index.header :=
      fun b hb => by rw [hl, ethernetaddr_length hb]
    exact iff_of_true (valueKept_address h hden hvalue hvalid hlen hw (by omega)) hkept
  · have hnum : actionArgType fld.index = .eNum := by rcases hk with hk | hk <;> rw [hk] <;> rfl
    have hvalue : setFieldValue fld text = leBytes 4 (narrow 32 (strtonum text)) := by
      rcases hk with hk | hk <;> simp [setFieldValue, hk, hs]
    rw [valueKept_arp h hnum hvalue hl hw]
    rcases hk with hk | hk <;> simp [FieldKept, hk]
  -- an IPv6 address is too long for the field
  · have hden : denotedPayload fld text = ipv6addr text := by
      rcases hk with hk | hk <;> simp [denotedPayload, actionArgType, hk]
    have hnot : ¬ValueKept fld text := by
      rintro ⟨payload, hpayload, hlen, -⟩
      rw [hden] at hpayload
      have hlong := inetPton6_length hpayload
      omega
    exact iff_of_false hnot (by rcases hk with hk | hk <;> simp [FieldKept, hk])
  · rcases hk with hk | hk <;> rw [hk] at harp <;> cases harp
  · have hnum : actionArgType fld.index = .eNum := by rcases hk with hk | hk <;> rw [hk] <;> rfl
    have hvalue : setFieldValue fld text = leBytes 8 (narrow 64 (strtonum text)) := by
      rcases hk with hk | hk <;> simp [setFieldValue, hk, hs]
    rw [valueKept_eight hnum hvalue hl hw]
    rcases hk with hk | hk <;> simp [FieldKept, hk]
  · obtain ⟨hnum, hvalue, hkept⟩ := numberKind_spec hk hmeta htunnel text
    rw [valueKept_number h hnum hvalue hl hne hw, hkept]

end Values

section Carried

/-! ## Which actions are carried -/

variable {args : JsonObject} {type text : String} {fld : MatchField}
  {parse : String → JsonObject}

/-- The builder, the encoder and the decoder each have their condition. -/
theorem carriesField_iff_valueKept (h : FieldAction args type fld text) (hfld : fld ∈ fields)
    (hcheck : checkArgs parse actionTags args = .ok ()) (acts : Actions) :
    CarriesField parse args acts fld text ↔
      type = "set_field" ∧ isArpHardware fld.index = false ∧ ValueKept fld text := by
  have hsize := length_mem_sizes hfld
  constructor
  · rintro ⟨payload, value, hden, hlen, hbuilt, hpacked, hunpacked⟩
    obtain ⟨htype, harp, rfl⟩ := (h.constructAction_iff acts hfld hcheck).mp hbuilt
    refine ⟨htype, harp, payload, hden, hlen, fun old => ?_, ?_⟩
    · have hbytes := hpacked (List.replicate 8 0 ++ old)
      rw [oflActionsPack_setField, List.drop_left' (List.length_replicate ..)] at hbytes
      exact setFieldBytes_inj (Option.some.inj hbytes)
    · have hback := oflActionsUnpack_setFieldBytes hlen hsize []
      rw [hunpacked []] at hback
      simpa using hback.symm
  · rintro ⟨htype, harp, payload, hden, hlen, hpack, hhost⟩
    refine ⟨payload, setFieldValue fld text, hden, hlen, ?_, fun old => ?_, fun fresh => ?_⟩
    · exact (h.constructAction_iff acts hfld hcheck).mpr ⟨htype, harp, rfl⟩
    · rw [oflActionsPack_setField, hpack]
    · rw [← hhost]
      exact oflActionsUnpack_setFieldBytes hlen hsize fresh

/-- An action is carried where its type has the word of the builder and the text is one the
three layers agree on. -/
theorem carriesField_iff (h : FieldAction args type fld text) (hfld : fld ∈ fields)
    (hcheck : checkArgs parse actionTags args = .ok ()) (acts : Actions) :
    CarriesField parse args acts fld text ↔ type = "set_field" ∧ FieldKept fld text := by
  have hmem : (fld.name, actionArgType fld.index) ∈ actionTags :=
    List.mem_append_right _ (List.mem_map.mpr ⟨fld, hfld, rfl⟩)
  have hfind : args.findIfExists fld.name = .ok (some text) := by
    rw [findIfExists_dict h.isDict, h.field]
  have hvalid := checkArg_of_checkArgs hcheck hmem hfind
  rw [carriesField_iff_valueKept h hfld hcheck acts]
  apply and_congr_right
  rintro -
  constructor
  · exact fun ⟨harp, hkept⟩ => (valueKept_iff hfld hvalid harp).mp hkept
  · intro hkept
    have harp := isArpHardware_of_kept hkept
    exact ⟨harp, (valueKept_iff hfld hvalid harp).mpr hkept⟩

/-- The action on a field with a text. -/
def fieldAction (type name text : String) : JsonObject :=
  .dict [("action_type", .string type), (name, .string text)]

theorem fieldAction_spec (type text : String) (h : fld ∈ fields) :
    FieldAction (fieldAction type fld.name text) type fld text where
  isDict := ⟨_, rfl⟩
  action_type := rfl
  field := by simp [fieldAction, text?, getString, name_ne_action_type h, Ne.symm]
  only := by
    intro key hkey hname
    simp [fieldAction, text?, Ne.symm hkey, Ne.symm hname]

/-- The port 80 of TCP is carried. -/
theorem carriesField_tcp_dst :
    CarriesField (fun _ => .null) (fieldAction "set_field" "tcp_dst" "80") []
      ⟨"tcp_dst", tcpDst, 2⟩ "80" := by
  have hkept : FitsNumeral 16 "80" := by decide
  exact (carriesField_iff (fieldAction_spec _ _ (by decide)) (by decide) (by decide) []).mpr
    ⟨rfl, hkept⟩

/-- The metadata 1 is written as `0x0001000000000000`. -/
theorem metadata_not_carried :
    checkArgs (fun _ => .null) actionTags (fieldAction "set_field" "metadata" "1") = .ok () ∧
      ¬CarriesField (fun _ => .null) (fieldAction "set_field" "metadata" "1") []
        ⟨"metadata", metadata, 8⟩ "1" := by
  have hcheck : checkArgs (fun _ => .null) actionTags (fieldAction "set_field" "metadata" "1") =
      .ok () := by decide
  have hmem : (⟨"metadata", metadata, 8⟩ : MatchField) ∈ fields := by decide
  refine ⟨hcheck, fun hcarries => ?_⟩
  obtain ⟨-, -, hkept⟩ :=
    (carriesField_iff_valueKept (fieldAction_spec _ _ hmem) hmem hcheck []).mp hcarries
  have hzero := (valueKept_eight rfl rfl rfl rfl).mp hkept
  exact absurd hzero (by decide)

end Carried

end Nox.Interserver

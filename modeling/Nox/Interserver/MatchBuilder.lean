import Nox.Oxm.RoundTrip
import Nox.Interserver.Args

/-!
# The match builder

`Flow::Add_Field` and `Match_fields_builder::construct_match` with the tables of
recognised keys.  The local variables `construct_match` leaves uninitialised,
and the `std::string` objects whose bytes a masked Ethernet address copies, are
a parameter (`Junk`).
-/

namespace Nox.Interserver

open Nox.Oxm OxmFieldIndex JsonObject

/-! ## Recognised keys -/

/-- An entry of the map `fields`: the size is the one the builders switch on. -/
structure MatchField where
  name : String
  index : OxmFieldIndex
  size : Nat
  deriving DecidableEq, Repr

/-- `fields`, in the iteration order of the `std::map`. -/
def fields : List MatchField := [
  ⟨"arp_sha", arpSha, 6⟩, ⟨"arp_spa", arpSpa, 4⟩, ⟨"arp_tha", arpTha, 6⟩,
  ⟨"arp_tpa", arpTpa, 4⟩, ⟨"eth_dst", ethDst, 6⟩, ⟨"eth_src", ethSrc, 6⟩,
  ⟨"eth_type", ethType, 2⟩, ⟨"exthdr", ipv6Exthdr, 2⟩, ⟨"icmpv4_code", icmpv4Code, 1⟩,
  ⟨"icmpv4_type", icmpv4Type, 1⟩, ⟨"icmpv6_code", icmpv6Code, 1⟩,
  ⟨"icmpv6_type", icmpv6Type, 1⟩, ⟨"in_phy_port", inPhyPort, 4⟩, ⟨"in_port", inPort, 4⟩,
  ⟨"ip_dscp", ipDscp, 1⟩, ⟨"ip_ecn", ipEcn, 1⟩, ⟨"ip_proto", ipProto, 1⟩,
  ⟨"ipv4_dst", ipv4Dst, 4⟩, ⟨"ipv4_src", ipv4Src, 4⟩, ⟨"ipv6_dst", ipv6Dst, 16⟩,
  ⟨"ipv6_flow_label", ipv6Flabel, 4⟩, ⟨"ipv6_nd_sll", ipv6NdSll, 16⟩,
  ⟨"ipv6_nd_target", ipv6NdTarget, 16⟩, ⟨"ipv6_nd_tll", ipv6NdTll, 16⟩,
  ⟨"ipv6_src", ipv6Src, 16⟩, ⟨"metadata", metadata, 8⟩, ⟨"mpls_bos", mplsBos, 1⟩,
  ⟨"mpls_label", mplsLabel, 4⟩, ⟨"mpls_tc", mplsTc, 1⟩, ⟨"pbb_isid", pbbIsid, 4⟩,
  ⟨"sctp_src", sctpSrc, 2⟩, ⟨"stcp_dst", sctpDst, 2⟩, ⟨"tcp_dst", tcpDst, 2⟩,
  ⟨"tcp_src", tcpSrc, 2⟩, ⟨"tunnel_id", tunnelId, 8⟩, ⟨"udp_dst", udpDst, 2⟩,
  ⟨"udp_src", udpSrc, 2⟩, ⟨"vlan_id", vlanVid, 2⟩, ⟨"vlan_pcp", vlanPcp, 1⟩]

/-- The key of a field's mask. -/
def maskKey (name : String) : String := name ++ "_mask"

/-- `construct_match_tags_special`: the fields read by the loop over numbers. -/
def matchTagsSpecial : List MatchField :=
  fields.filter fun p =>
    match p.index with
    | ipv4Src | ipv4Dst | ethSrc | ethDst | ipv6Src | ipv6Dst | ipv6NdTarget | ipv6NdTll
    | ipv6NdSll => false
    | _ => true

/-- The type `construct_match_tags` registers a field and its mask under. -/
def matchArgType : OxmFieldIndex → ArgType
  | ipv4Src | ipv4Dst | arpSpa | arpTpa => .eIpv4
  | ethSrc | ethDst | arpSha | arpTha => .eMAC
  | ipv6Src | ipv6Dst | ipv6NdTarget => .eIpv6
  | _ => .eNum

/-- `construct_match_tags` -/
def matchTags : ArgumentsList :=
  fields.flatMap fun p =>
    [(p.name, matchArgType p.index), (maskKey p.name, matchArgType p.index)]

/-! ## Adding fields to a flow -/

/-- The bytes of the local variables of one call of `construct_match` that are
not set before they are read. -/
structure Junk where
  inAddr : Bytes
  inAddrMask : Bytes
  in6Addr : Bytes
  in6AddrMask : Bytes
  -- the objects of `value` and `value_mask`, of which six bytes are copied
  valueObject : Bytes
  maskObject : Bytes
  inAddr_length : inAddr.length = 4
  inAddrMask_length : inAddrMask.length = 4
  in6Addr_length : in6Addr.length = 16
  in6AddrMask_length : in6AddrMask.length = 16
  valueObject_length : 6 ≤ valueObject.length
  maskObject_length : 6 ≤ maskObject.length

/-- `fields.find` -/
def findField (name : String) : Option MatchField := fields.find? (·.name == name)

/-- `ofl_structs_match_put` on the memory of a value. -/
def oflStructsMatchPut (m : OflMatch) (header : UInt32) (value : Bytes) : OflMatch :=
  matchPut m header (value.take (oxmLength header))

/-- `ofl_structs_match_put_masked` -/
def oflStructsMatchPutMasked (m : OflMatch) (header : UInt32) (value mask : Bytes) : OflMatch :=
  matchPut m header
    (value.take (oxmLength header / 2) ++ mask.take (oxmLength header / 2))

/-- `Flow::Add_Field` of a value. -/
def addField (f : OflMatch) (name : String) (value : Bytes) : OflMatch :=
  match findField name with
  | none => f
  | some fld => oflStructsMatchPut f fld.index.header value

/-- `Flow::Add_Field` of a value and a mask. -/
def addFieldMasked (f : OflMatch) (name : String) (value mask : Bytes) : OflMatch :=
  match findField name with
  | none => f
  | some fld => oflStructsMatchPutMasked f (oxmMakeWildHeader fld.index.header) value mask

/-- `Flow::Add_Field<std::string>`: text that is no address is not stored over
what was there before. -/
def addFieldText (junk : Junk) (f : OflMatch) (name text : String) : OflMatch :=
  match findField name with
  | none => f
  | some fld =>
    if fld.size = ethAddrLen then
      oflStructsMatchPutEth f fld.index.header ((ethernetaddr text).getD [])
    else oflStructsMatchPut f fld.index.header ((ipv6addr text).getD junk.in6Addr)

/-! ## `construct_match` -/

/-- A chain of `FIND_IF_EXISTS_ALL`: the first key present, and its text. -/
def findFirst (args : JsonObject) : List String → Except Fault (Option (String × String))
  | [] => return none
  | key :: keys => do
    match ← args.findIfExists key with
    | some value => return some (key, value)
    | none => findFirst args keys

section ConstructMatch

variable (parse : String → JsonObject) (junk : Junk) (args : JsonObject)

/-- The shape of the address blocks of `construct_match`: the first key of the
chain is added, with or without its mask. -/
def constructFirst (keys : List String) (f : OflMatch) (plain : String → String → OflMatch)
    (masked : String → String → String → OflMatch) : Except Fault OflMatch := do
  match ← findFirst args keys with
  | none => return f
  | some (key, value) =>
    match ← args.findIfExists (maskKey key) with
    | none => return plain key value
    | some valueMask => return masked key value valueMask

/-- The IPv4 addresses of `construct_match`. -/
def constructIpv4 (f : OflMatch) : Except Fault OflMatch :=
  constructFirst args ["ipv4_src", "ipv4_dst"] f
    (fun key value => addField f key ((ipv4addr value).getD junk.inAddr))
    (fun key value valueMask =>
      addFieldMasked f key ((ipv4addr value).getD junk.inAddr)
        ((ipv4addr valueMask).getD junk.inAddrMask))

/-- The IPv6 addresses. -/
def constructIpv6 (f : OflMatch) : Except Fault OflMatch :=
  constructFirst args ["ipv6_src", "ipv6_dst", "ipv6_nd_target", "ipv6_nd_tll", "ipv6_nd_sll"] f
    (fun key value => addField f key ((ipv6addr value).getD junk.in6Addr))
    (fun key value valueMask =>
      addFieldMasked f key ((ipv6addr value).getD junk.in6Addr)
        ((ipv6addr valueMask).getD junk.in6AddrMask))

/-- The Ethernet addresses; a masked one copies the string objects. -/
def constructEth (f : OflMatch) : Except Fault OflMatch :=
  constructFirst args ["eth_dst", "eth_src"] f
    (fun key value => addFieldText junk f key value)
    (fun key _ _ => addFieldMasked f key junk.valueObject junk.maskObject)

/-- One case of the loop over numbers, for a value of `k` bytes. -/
def constructNumber (k : Nat) (name value : String) (f : OflMatch) : Except Fault OflMatch := do
  let valueB := leBytes k (narrow (8 * k) (strtonum value))
  match ← args.findIfExists (maskKey name) with
  | none => return addField f name valueB
  | some valueMask =>
    return addFieldMasked f name valueB (leBytes k (narrow (8 * k) (strtonum valueMask)))

/-- The body of the loop over numbers. -/
def constructSpecial (f : OflMatch) (p : MatchField) : Except Fault OflMatch := do
  match ← args.findIfExists p.name with
  | none => return f
  | some value =>
    match p.size with
    | 1 => constructNumber args 1 p.name value f
    | 2 => constructNumber args 2 p.name value f
    | 4 => constructNumber args 4 p.name value f
    | 8 => constructNumber args 8 p.name value f
    -- no case for the six bytes of `arp_sha` and `arp_tha`
    | _ => return f

/-- `Match_fields_builder::construct_match` -/
def constructMatch (f : OflMatch) : Except Fault OflMatch := do
  checkArgs parse matchTags args
  let f ← constructIpv4 junk args f
  let f ← constructIpv6 junk args f
  let f ← constructEth junk args f
  matchTagsSpecial.foldlM (constructSpecial args) f

end ConstructMatch

/-! ## What is stored -/

/-- The keys and texts of a request. -/
abbrev Texts := String → Option String

def present (T : Texts) (fld : MatchField) : Bool := (T fld.name).isSome

def ipv4Group : List MatchField := [⟨"ipv4_src", ipv4Src, 4⟩, ⟨"ipv4_dst", ipv4Dst, 4⟩]

def ipv6Group : List MatchField :=
  [⟨"ipv6_src", ipv6Src, 16⟩, ⟨"ipv6_dst", ipv6Dst, 16⟩, ⟨"ipv6_nd_target", ipv6NdTarget, 16⟩,
    ⟨"ipv6_nd_tll", ipv6NdTll, 16⟩, ⟨"ipv6_nd_sll", ipv6NdSll, 16⟩]

def ethGroup : List MatchField := [⟨"eth_dst", ethDst, 6⟩, ⟨"eth_src", ethSrc, 6⟩]

/-- The fields a call of `construct_match` adds: of each group of addresses the
first one present, and the numbers the loop has a case for. -/
def storedFields (T : Texts) : List MatchField :=
  (ipv4Group.find? (present T)).toList ++ (ipv6Group.find? (present T)).toList ++
    (ethGroup.find? (present T)).toList ++
    matchTagsSpecial.filter fun fld => present T fld && fld.size != 6

/-- The entry of a value and, if there is one, a mask. -/
def tlvOf (i : OxmFieldIndex) (value : Bytes) (mask : Option Bytes) : OflMatchTlv :=
  match mask with
  | none => ⟨i.header, value.take (oxmLength i.header)⟩
  | some mask =>
    ⟨oxmMakeWildHeader i.header, value.take (oxmLength (oxmMakeWildHeader i.header) / 2) ++
      mask.take (oxmLength (oxmMakeWildHeader i.header) / 2)⟩

/-- The bytes stored for a value, and for a mask. -/
def storedValue (junk : Junk) (masked : Bool) (fld : MatchField) (text : String) : Bytes :=
  match fld.index with
  | ipv4Src | ipv4Dst => (ipv4addr text).getD junk.inAddr
  | ipv6Src | ipv6Dst | ipv6NdTarget | ipv6NdTll | ipv6NdSll => (ipv6addr text).getD junk.in6Addr
  | ethSrc | ethDst => if masked then junk.valueObject else (ethernetaddr text).getD []
  | _ => leBytes fld.size (narrow (8 * fld.size) (strtonum text))

def storedMask (junk : Junk) (fld : MatchField) (text : String) : Bytes :=
  match fld.index with
  | ipv4Src | ipv4Dst => (ipv4addr text).getD junk.inAddrMask
  | ipv6Src | ipv6Dst | ipv6NdTarget | ipv6NdTll | ipv6NdSll =>
    (ipv6addr text).getD junk.in6AddrMask
  | ethSrc | ethDst => junk.maskObject
  | _ => leBytes fld.size (narrow (8 * fld.size) (strtonum text))

/-- The entry stored for a field. -/
def storedTlv (junk : Junk) (T : Texts) (fld : MatchField) : OflMatchTlv :=
  let text := (T fld.name).getD ""
  let mask := T (maskKey fld.name)
  tlvOf fld.index (storedValue junk mask.isSome fld text) (mask.map (storedMask junk fld))

section Effect

variable {args : JsonObject} {f : OflMatch}

theorem findFirst_dict (h : args.IsDict) (keys : List String) :
    findFirst args keys =
      .ok (keys.findSome? fun key => (args.text? key).map fun value => (key, value)) := by
  induction keys with
  | nil => rfl
  | cons key keys ih =>
    simp only [findFirst, findIfExists_dict h, List.findSome?_cons]
    cases args.text? key with
    | none =>
      simp only [bind, Except.bind, Option.map_none]
      exact ih
    | some value => rfl

theorem entries_addField {name : String} {fld : MatchField} (hf : findField name = some fld)
    (value : Bytes) :
    (addField f name value).entries.Perm (tlvOf fld.index value none :: f.entries) := by
  simp only [addField, hf]
  exact entries_matchPut _ _ _

theorem entries_addFieldMasked {name : String} {fld : MatchField}
    (hf : findField name = some fld) (value mask : Bytes) :
    (addFieldMasked f name value mask).entries.Perm
      (tlvOf fld.index value (some mask) :: f.entries) := by
  simp only [addFieldMasked, hf]
  exact entries_matchPut _ _ _

/-- An address block adds the first field of its group that is present. -/
theorem constructFirst_entries (h : args.IsDict) {junk : Junk} (group : List MatchField)
    {plain : String → String → OflMatch} {masked : String → String → String → OflMatch}
    (hplain : ∀ fld ∈ group, ∀ value, (plain fld.name value).entries.Perm
      (tlvOf fld.index (storedValue junk false fld value) none :: f.entries))
    (hmasked : ∀ fld ∈ group, ∀ value mask, (masked fld.name value mask).entries.Perm
      (tlvOf fld.index (storedValue junk true fld value) (some (storedMask junk fld mask)) ::
        f.entries)) :
    ∃ f', constructFirst args (group.map (·.name)) f plain masked = .ok f' ∧
      f'.entries.Perm ((group.find? (present args.text?)).toList.map
        (storedTlv junk args.text?) ++ f.entries) := by
  simp only [constructFirst, findFirst_dict h, findIfExists_dict h]
  induction group with
  | nil => exact ⟨f, rfl, .refl _⟩
  | cons fld group ih =>
    simp only [List.map_cons, List.findSome?_cons, List.find?_cons, present]
    cases hv : args.text? fld.name with
    | none =>
      exact ih (fun g hg => hplain g (List.mem_cons_of_mem _ hg))
        (fun g hg => hmasked g (List.mem_cons_of_mem _ hg))
    | some value =>
      simp only [bind, Except.bind, Option.map_some, pure, Except.pure]
      cases hm : args.text? (maskKey fld.name) with
      | none =>
        refine ⟨_, rfl, ?_⟩
        have hput := hplain fld List.mem_cons_self value
        simpa [storedTlv, hv, hm] using hput
      | some mask =>
        refine ⟨_, rfl, ?_⟩
        have hput := hmasked fld List.mem_cons_self value mask
        simpa [storedTlv, hv, hm] using hput

theorem findField_of_mem {fld : MatchField} (h : fld ∈ fields) : findField fld.name = some fld := by
  revert fld
  decide

theorem mem_fields_of_group {fld : MatchField}
    (h : fld ∈ ipv4Group ∨ fld ∈ ipv6Group ∨ fld ∈ ethGroup) : fld ∈ fields := by
  revert fld
  simp only [or_imp, forall_and]
  decide

theorem constructIpv4_entries (h : args.IsDict) (junk : Junk) :
    ∃ f', constructIpv4 junk args f = .ok f' ∧
      f'.entries.Perm ((ipv4Group.find? (present args.text?)).toList.map
        (storedTlv junk args.text?) ++ f.entries) := by
  have hvalue {fld : MatchField} (hg : fld ∈ ipv4Group) (masked : Bool) (value : String) :
      storedValue junk masked fld value = (ipv4addr value).getD junk.inAddr ∧
        storedMask junk fld value = (ipv4addr value).getD junk.inAddrMask := by
    simp only [ipv4Group, List.mem_cons, List.not_mem_nil, or_false] at hg
    rcases hg with rfl | rfl <;> exact ⟨rfl, rfl⟩
  refine constructFirst_entries h ipv4Group (fun fld hg value => ?_)
    (fun fld hg value mask => ?_)
  · rw [(hvalue hg _ _).1]
    exact entries_addField (findField_of_mem (mem_fields_of_group (.inl hg))) _
  · rw [(hvalue hg _ _).1, (hvalue hg true _).2]
    exact entries_addFieldMasked (findField_of_mem (mem_fields_of_group (.inl hg))) _ _

theorem constructIpv6_entries (h : args.IsDict) (junk : Junk) :
    ∃ f', constructIpv6 junk args f = .ok f' ∧
      f'.entries.Perm ((ipv6Group.find? (present args.text?)).toList.map
        (storedTlv junk args.text?) ++ f.entries) := by
  have hvalue {fld : MatchField} (hg : fld ∈ ipv6Group) (masked : Bool) (value : String) :
      storedValue junk masked fld value = (ipv6addr value).getD junk.in6Addr ∧
        storedMask junk fld value = (ipv6addr value).getD junk.in6AddrMask := by
    simp only [ipv6Group, List.mem_cons, List.not_mem_nil, or_false] at hg
    rcases hg with rfl | rfl | rfl | rfl | rfl <;> exact ⟨rfl, rfl⟩
  refine constructFirst_entries h ipv6Group (fun fld hg value => ?_)
    (fun fld hg value mask => ?_)
  · rw [(hvalue hg _ _).1]
    exact entries_addField (findField_of_mem (mem_fields_of_group (.inr (.inl hg)))) _
  · rw [(hvalue hg _ _).1, (hvalue hg true _).2]
    exact entries_addFieldMasked (findField_of_mem (mem_fields_of_group (.inr (.inl hg)))) _ _

theorem constructEth_entries (h : args.IsDict) (junk : Junk) :
    ∃ f', constructEth junk args f = .ok f' ∧
      f'.entries.Perm ((ethGroup.find? (present args.text?)).toList.map
        (storedTlv junk args.text?) ++ f.entries) := by
  have hvalue {fld : MatchField} (hg : fld ∈ ethGroup) (value : String) :
      fld.size = ethAddrLen ∧ oxmLength fld.index.header = ethAddrLen ∧
        storedValue junk false fld value = (ethernetaddr value).getD [] ∧
        storedValue junk true fld value = junk.valueObject ∧
        storedMask junk fld value = junk.maskObject := by
    simp only [ethGroup, List.mem_cons, List.not_mem_nil, or_false] at hg
    rcases hg with rfl | rfl <;> exact ⟨rfl, rfl, rfl, rfl, rfl⟩
  refine constructFirst_entries h ethGroup (fun fld hg value => ?_)
    (fun fld hg value mask => ?_)
  · obtain ⟨hsize, hlen, hv, -⟩ := hvalue hg value
    have hfind := findField_of_mem (mem_fields_of_group (.inr (.inr hg)))
    simp only [addFieldText, hfind, hsize, if_true, oflStructsMatchPutEth, hv, tlvOf, hlen]
    exact entries_matchPut _ _ _
  · rw [(hvalue hg value).2.2.2.1, (hvalue hg mask).2.2.2.2]
    exact entries_addFieldMasked (findField_of_mem (mem_fields_of_group (.inr (.inr hg)))) _ _

/-- The loop over numbers stores what a conversion of `size` bytes gives. -/
theorem storedValue_special {fld : MatchField} (h : fld ∈ matchTagsSpecial) (junk : Junk)
    (text : String) :
    (∀ masked, storedValue junk masked fld text =
        leBytes fld.size (narrow (8 * fld.size) (strtonum text))) ∧
      storedMask junk fld text = leBytes fld.size (narrow (8 * fld.size) (strtonum text)) := by
  have hidx := (List.mem_filter.mp h).2
  unfold storedValue storedMask
  split <;> simp_all

theorem size_special {fld : MatchField} (h : fld ∈ matchTagsSpecial) :
    fld.size = 1 ∨ fld.size = 2 ∨ fld.size = 4 ∨ fld.size = 8 ∨ fld.size = 6 := by
  revert fld
  decide

theorem constructNumber_entries (h : args.IsDict) {fld : MatchField}
    (hfld : fld ∈ matchTagsSpecial) {value : String} (hv : args.text? fld.name = some value)
    (junk : Junk) :
    ∃ f', constructNumber args fld.size fld.name value f = .ok f' ∧
      f'.entries.Perm (storedTlv junk args.text? fld :: f.entries) := by
  have hfind := findField_of_mem (List.mem_filter.mp hfld).1
  simp only [constructNumber, findIfExists_dict h, bind, Except.bind, pure, Except.pure]
  cases hm : args.text? (maskKey fld.name) with
  | none =>
    refine ⟨_, rfl, ?_⟩
    have hput := entries_addField (f := f) hfind
      (leBytes fld.size (narrow (8 * fld.size) (strtonum value)))
    simpa [storedTlv, hv, hm, storedValue_special hfld] using hput
  | some mask =>
    refine ⟨_, rfl, ?_⟩
    have hput := entries_addFieldMasked (f := f) hfind
      (leBytes fld.size (narrow (8 * fld.size) (strtonum value)))
      (leBytes fld.size (narrow (8 * fld.size) (strtonum mask)))
    simpa [storedTlv, hv, hm, storedValue_special hfld] using hput

theorem constructSpecial_entries (h : args.IsDict) {fld : MatchField}
    (hfld : fld ∈ matchTagsSpecial) (junk : Junk) :
    ∃ f', constructSpecial args f fld = .ok f' ∧
      f'.entries.Perm (([fld].filter fun fld => present args.text? fld && fld.size != 6).map
        (storedTlv junk args.text?) ++ f.entries) := by
  simp only [constructSpecial, findIfExists_dict h, bind, Except.bind, pure, Except.pure]
  cases hv : args.text? fld.name with
  | none => exact ⟨f, rfl, by simp [present, hv]⟩
  | some value =>
    obtain ⟨f', hok, hperm⟩ := constructNumber_entries (f := f) h hfld hv junk
    have hp : present args.text? fld = true := by simp [present, hv]
    rcases size_special hfld with hs | hs | hs | hs | hs <;> rw [hs] at hok <;> simp only [hs]
    case inr.inr.inr.inr => exact ⟨f, rfl, by simp [hs]⟩
    all_goals exact ⟨f', hok, by simpa [hp, hs] using hperm⟩

theorem foldlM_constructSpecial_entries (h : args.IsDict) {flds : List MatchField}
    (hflds : ∀ fld ∈ flds, fld ∈ matchTagsSpecial) (junk : Junk) :
    ∃ f', flds.foldlM (constructSpecial args) f = .ok f' ∧
      f'.entries.Perm ((flds.filter fun fld => present args.text? fld && fld.size != 6).map
        (storedTlv junk args.text?) ++ f.entries) := by
  induction flds generalizing f with
  | nil => exact ⟨f, rfl, .refl _⟩
  | cons fld flds ih =>
    obtain ⟨f₁, hok₁, hperm₁⟩ := constructSpecial_entries (f := f) h
      (hflds fld List.mem_cons_self) junk
    obtain ⟨f₂, hok₂, hperm₂⟩ := ih (f := f₁) fun g hg => hflds g (List.mem_cons_of_mem _ hg)
    refine ⟨f₂, ?_, hperm₂.trans ?_⟩
    · rw [List.foldlM_cons, hok₁]
      exact hok₂
    · rw [← List.singleton_append, List.filter_append, List.map_append, List.append_assoc]
      refine (hperm₁.append_left _).trans ?_
      rw [← List.append_assoc, ← List.append_assoc]
      exact List.perm_append_comm.append_right _

/-- A request that passes the checks is accepted, and what it adds are the
stored fields. -/
theorem constructMatch_entries {parse : String → JsonObject} (h : args.IsDict)
    (hcheck : checkArgs parse matchTags args = .ok ()) (junk : Junk) :
    ∃ f', constructMatch parse junk args f = .ok f' ∧
      f'.entries.Perm ((storedFields args.text?).map (storedTlv junk args.text?) ++
        f.entries) := by
  obtain ⟨f₁, hok₁, hp₁⟩ := constructIpv4_entries (f := f) h junk
  obtain ⟨f₂, hok₂, hp₂⟩ := constructIpv6_entries (f := f₁) h junk
  obtain ⟨f₃, hok₃, hp₃⟩ := constructEth_entries (f := f₂) h junk
  obtain ⟨f₄, hok₄, hp₄⟩ := foldlM_constructSpecial_entries (f := f₃) h (fun _ hg => hg) junk
  refine ⟨f₄, ?_, ?_⟩
  · simp only [constructMatch, hcheck, hok₁, hok₂, hok₃, bind, Except.bind]
    exact hok₄
  · have hgroups := hp₃.trans ((hp₂.trans (hp₁.append_left _)).append_left _)
    refine (hp₄.trans (hgroups.append_left _)).trans ?_
    -- the blocks were added in the opposite order
    simp only [storedFields, List.map_append, List.perm_iff_count, List.count_append]
    intro t
    omega

theorem isDict_of_checkArgs {parse : String → JsonObject}
    (hcheck : checkArgs parse matchTags args = .ok ()) : args.IsDict := by
  obtain ⟨r, hr, -⟩ := checkArgs_ok_iff.mp hcheck ("arp_sha", .eMAC) (by decide)
  exact (isDict_of_findIfExists hr).1

theorem checkArgs_of_constructMatch {parse : String → JsonObject} {junk : Junk} {f' : OflMatch}
    (h : constructMatch parse junk args f = .ok f') : checkArgs parse matchTags args = .ok () := by
  obtain ⟨⟨⟩, hcheck, -⟩ := bind_eq_ok.mp h
  exact hcheck

end Effect

end Nox.Interserver

import Nox.Lib.BitMix

/-!
# OXM headers and the table of known fields

The header macros of `oxm-match.h`, the field table `oxm-match.def` expands to,
and `hash_int`, under which both the field table and the entries of a match are
hashed.  `hash_int` is injective, so the loops that compare hashes only and
never headers still select by header.
-/

namespace Nox.Oxm

/-! ## `hash_int` -/

def hashInt (x basis : UInt32) : UInt32 :=
  let x := x - x <<< 6
  let x := x ^^^ x >>> 17
  let x := x - x <<< 9
  let x := x ^^^ x <<< 4
  let x := x + basis
  let x := x - x <<< 3
  let x := x ^^^ x <<< 10
  x ^^^ x >>> 15

section HashInt

open BitMix

/-- The mixing steps of `hash_int`, last one first. -/
def hashSteps (basis : BitVec 32) : List (BitVec 32 → BitVec 32) := [
  fun v => v ^^^ v >>> 15,
  fun v => v ^^^ v <<< 10,
  fun v => v - v <<< 3,
  fun v => v + basis,
  fun v => v ^^^ v <<< 4,
  fun v => v - v <<< 9,
  fun v => v ^^^ v >>> 17,
  fun v => v - v <<< 6]

theorem hashSteps_injective (basis : BitVec 32) :
    ∀ f ∈ hashSteps basis, Function.Injective f := by
  simp only [hashSteps, List.forall_mem_cons]
  exact ⟨xor_ushiftRight_injective (by decide), xor_shiftLeft_injective (by decide),
    sub_shiftLeft_injective (by decide), add_left_injective basis,
    xor_shiftLeft_injective (by decide), sub_shiftLeft_injective (by decide),
    xor_ushiftRight_injective (by decide), sub_shiftLeft_injective (by decide), by simp⟩

theorem hashInt_toBitVec (x basis : UInt32) :
    (hashInt x basis).toBitVec =
      (hashSteps basis.toBitVec).foldr (· ∘ ·) id x.toBitVec := rfl

theorem foldr_comp_injective {α : Type} (fs : List (α → α))
    (h : ∀ f ∈ fs, Function.Injective f) : Function.Injective (fs.foldr (· ∘ ·) id) := by
  induction fs with
  | nil => exact Function.injective_id
  | cons f fs ih =>
    have htail := ih fun g hg => h g (List.mem_cons_of_mem f hg)
    exact (h f List.mem_cons_self).comp htail

/-- With a fixed basis `hash_int` never merges two keys. -/
theorem hashInt_injective (basis : UInt32) : Function.Injective (hashInt · basis) := by
  intro x y h
  have hv := congrArg UInt32.toBitVec h
  rw [hashInt_toBitVec, hashInt_toBitVec] at hv
  exact UInt32.toBitVec_inj.mp
    (foldr_comp_injective _ (hashSteps_injective basis.toBitVec) hv)

end HashInt

/-! ## Header macros -/

def oxmHeaderRaw (vendor field hasmask length : UInt32) : UInt32 :=
  vendor <<< 16 ||| field <<< 9 ||| hasmask <<< 8 ||| length

def oxmHeader (vendor field length : UInt32) : UInt32 := oxmHeaderRaw vendor field 0 length

def oxmHeaderW (vendor field length : UInt32) : UInt32 := oxmHeaderRaw vendor field 1 (length * 2)

def oxmVendor (header : UInt32) : UInt32 := header >>> 16

def oxmFieldNo (header : UInt32) : UInt32 := header >>> 9 &&& 0x7f

def oxmHasmask (header : UInt32) : Bool := header >>> 8 &&& 1 != 0

def oxmLength (header : UInt32) : Nat := (header &&& 0xff).toNat

def oxmMakeWildHeader (header : UInt32) : UInt32 :=
  oxmHeaderW (oxmVendor header) (oxmFieldNo header) (header &&& 0xff)

/-- Vendor and field number, the same with and without a mask. -/
def headerField (header : UInt32) : UInt32 := header >>> 9

theorem oxmLength_lt (header : UInt32) : oxmLength header < 256 := by
  have h : oxmLength header = header.toNat &&& 255 := UInt32.toNat_and header 0xff
  rw [h]
  exact Nat.lt_succ_of_le Nat.and_le_right

/-! ## Known fields -/

/-- `enum oxm_field_index`: one constructor for each `DEFINE_FIELD` of
`oxm-match.def`, in its order. -/
inductive OxmFieldIndex
  | inPort | inPhyPort
  | metadata | metadataW
  | ethDst | ethDstW | ethSrc | ethSrcW | ethType
  | vlanVid | vlanVidW | vlanPcp
  | ipDscp | ipEcn | ipProto
  | ipv4Src | ipv4SrcW | ipv4Dst | ipv4DstW
  | tcpSrc | tcpDst | udpSrc | udpDst | sctpSrc | sctpDst
  | icmpv4Type | icmpv4Code
  | arpOp | arpSpa | arpSpaW | arpTpa | arpTpaW | arpSha | arpShaW | arpTha | arpThaW
  | ipv6Src | ipv6SrcW | ipv6Dst | ipv6DstW | ipv6Flabel | ipv6FlabelW
  | icmpv6Type | icmpv6Code
  | ipv6NdTarget | ipv6NdSll | ipv6NdTll
  | mplsLabel | mplsTc | mplsBos
  | pbbIsid | pbbIsidW | tunnelId | tunnelIdW | ipv6Exthdr | ipv6ExthdrW
  deriving DecidableEq, Repr

namespace OxmFieldIndex

/-- The `OXM_OF_*` header of a field. -/
def header : OxmFieldIndex → UInt32
  | inPort => oxmHeader 0x8000 0 4
  | inPhyPort => oxmHeader 0x8000 1 4
  | metadata => oxmHeader 0x8000 2 8
  | metadataW => oxmHeaderW 0x8000 2 8
  | ethDst => oxmHeader 0x8000 3 6
  | ethDstW => oxmHeaderW 0x8000 3 6
  | ethSrc => oxmHeader 0x8000 4 6
  | ethSrcW => oxmHeaderW 0x8000 4 6
  | ethType => oxmHeader 0x8000 5 2
  | vlanVid => oxmHeader 0x8000 6 2
  | vlanVidW => oxmHeaderW 0x8000 6 2
  | vlanPcp => oxmHeader 0x8000 7 1
  | ipDscp => oxmHeader 0x8000 8 1
  | ipEcn => oxmHeader 0x8000 9 1
  | ipProto => oxmHeader 0x8000 10 1
  | ipv4Src => oxmHeader 0x8000 11 4
  | ipv4SrcW => oxmHeaderW 0x8000 11 4
  | ipv4Dst => oxmHeader 0x8000 12 4
  | ipv4DstW => oxmHeaderW 0x8000 12 4
  | tcpSrc => oxmHeader 0x8000 13 2
  | tcpDst => oxmHeader 0x8000 14 2
  | udpSrc => oxmHeader 0x8000 15 2
  | udpDst => oxmHeader 0x8000 16 2
  | sctpSrc => oxmHeader 0x8000 17 2
  | sctpDst => oxmHeader 0x8000 18 2
  | icmpv4Type => oxmHeader 0x8000 19 1
  | icmpv4Code => oxmHeader 0x8000 20 1
  | arpOp => oxmHeader 0x8000 21 2
  | arpSpa => oxmHeader 0x8000 22 4
  | arpSpaW => oxmHeaderW 0x8000 22 4
  | arpTpa => oxmHeader 0x8000 23 4
  | arpTpaW => oxmHeaderW 0x8000 23 4
  | arpSha => oxmHeader 0x8000 24 6
  | arpShaW => oxmHeaderW 0x8000 24 6
  | arpTha => oxmHeader 0x8000 25 6
  | arpThaW => oxmHeaderW 0x8000 25 6
  | ipv6Src => oxmHeader 0x8000 26 16
  | ipv6SrcW => oxmHeaderW 0x8000 26 16
  | ipv6Dst => oxmHeader 0x8000 27 16
  | ipv6DstW => oxmHeaderW 0x8000 27 16
  | ipv6Flabel => oxmHeader 0x8000 28 4
  | ipv6FlabelW => oxmHeaderW 0x8000 28 4
  | icmpv6Type => oxmHeader 0x8000 29 1
  | icmpv6Code => oxmHeader 0x8000 30 1
  | ipv6NdTarget => oxmHeader 0x8000 31 16
  | ipv6NdSll => oxmHeader 0x8000 32 6
  | ipv6NdTll => oxmHeader 0x8000 33 6
  | mplsLabel => oxmHeader 0x8000 34 4
  | mplsTc => oxmHeader 0x8000 35 1
  | mplsBos => oxmHeader 0x8000 36 1
  | pbbIsid => oxmHeader 0x8000 37 4
  | pbbIsidW => oxmHeaderW 0x8000 37 4
  | tunnelId => oxmHeader 0x8000 38 8
  | tunnelIdW => oxmHeaderW 0x8000 38 8
  | ipv6Exthdr => oxmHeader 0x8000 39 2
  | ipv6ExthdrW => oxmHeaderW 0x8000 39 2

end OxmFieldIndex

/-- `ETH_TYPE_*` constants named by the prerequisite table. -/
def ethTypeIp : Nat := 0x0800
def ethTypeArp : Nat := 0x0806
def ethTypeIpv6 : Nat := 0x86dd
def ethTypeMpls : Nat := 0x8847
def ethTypeMplsMcast : Nat := 0x8848
def ethTypePbb : Nat := 0x88e7

/-- `IPPROTO_*` constants named by the prerequisite table. -/
def ipprotoIcmp : Nat := 1
def ipprotoTcp : Nat := 6
def ipprotoUdp : Nat := 17
def ipprotoIcmpv6 : Nat := 58
def ipprotoSctp : Nat := 132

/-- `OXM_DL_*`: the two admissible Ethernet types of a field, zero for none. -/
def oxmDlNone : Nat × Nat := (0, 0)
def oxmDlArp : Nat × Nat := (ethTypeArp, 0)
def oxmDlPbb : Nat × Nat := (ethTypePbb, 0)
def oxmDlIp : Nat × Nat := (ethTypeIp, 0)
def oxmDlMpls : Nat × Nat := (ethTypeMpls, ethTypeMplsMcast)
def oxmDlIpv6 : Nat × Nat := (ethTypeIpv6, 0)
def oxmDlIpAny : Nat × Nat := (ethTypeIp, ethTypeIpv6)

/-- `struct oxm_field`. The prerequisite types are kept in host order. -/
structure OxmField where
  index : OxmFieldIndex
  header : UInt32
  dlType : Nat × Nat
  nwProto : Nat
  maskable : Bool
  deriving DecidableEq, Repr

def defineField (index : OxmFieldIndex) (dlType : Nat × Nat) (nwProto : Nat) (maskable : Bool) :
    OxmField :=
  ⟨index, index.header, dlType, nwProto, maskable⟩

open OxmFieldIndex in
def oxmFields : List OxmField := [
  defineField inPort oxmDlNone 0 false,
  defineField inPhyPort oxmDlNone 0 false,
  defineField metadata oxmDlNone 0 true,
  defineField metadataW oxmDlNone 0 true,
  defineField ethDst oxmDlNone 0 true,
  defineField ethDstW oxmDlNone 0 true,
  defineField ethSrc oxmDlNone 0 true,
  defineField ethSrcW oxmDlNone 0 true,
  defineField ethType oxmDlNone 0 false,
  defineField vlanVid oxmDlNone 0 true,
  defineField vlanVidW oxmDlNone 0 true,
  defineField vlanPcp oxmDlNone 0 false,
  defineField ipDscp oxmDlIpAny 0 false,
  defineField ipEcn oxmDlIpAny 0 false,
  defineField ipProto oxmDlIpAny 0 false,
  defineField ipv4Src oxmDlIp 0 true,
  defineField ipv4SrcW oxmDlIp 0 true,
  defineField ipv4Dst oxmDlIp 0 true,
  defineField ipv4DstW oxmDlIp 0 true,
  defineField tcpSrc oxmDlIpAny ipprotoTcp false,
  defineField tcpDst oxmDlIpAny ipprotoTcp false,
  defineField udpSrc oxmDlIpAny ipprotoUdp false,
  defineField udpDst oxmDlIpAny ipprotoUdp false,
  defineField sctpSrc oxmDlIpAny ipprotoSctp false,
  defineField sctpDst oxmDlIpAny ipprotoSctp false,
  defineField icmpv4Type oxmDlIp ipprotoIcmp false,
  defineField icmpv4Code oxmDlIp ipprotoIcmp false,
  defineField arpOp oxmDlArp 0 false,
  defineField arpSpa oxmDlArp 0 true,
  defineField arpSpaW oxmDlArp 0 true,
  defineField arpTpa oxmDlArp 0 true,
  defineField arpTpaW oxmDlArp 0 true,
  defineField arpSha oxmDlArp 0 true,
  defineField arpShaW oxmDlArp 0 true,
  defineField arpTha oxmDlArp 0 true,
  defineField arpThaW oxmDlArp 0 true,
  defineField ipv6Src oxmDlIpv6 0 true,
  defineField ipv6SrcW oxmDlIpv6 0 true,
  defineField ipv6Dst oxmDlIpv6 0 true,
  defineField ipv6DstW oxmDlIpv6 0 true,
  defineField ipv6Flabel oxmDlIpv6 0 true,
  defineField ipv6FlabelW oxmDlIpv6 0 true,
  defineField icmpv6Type oxmDlIpv6 ipprotoIcmpv6 false,
  defineField icmpv6Code oxmDlIpv6 ipprotoIcmpv6 false,
  defineField ipv6NdTarget oxmDlIpv6 ipprotoIcmpv6 false,
  defineField ipv6NdSll oxmDlIpv6 ipprotoIcmpv6 false,
  defineField ipv6NdTll oxmDlIpv6 ipprotoIcmpv6 false,
  defineField mplsLabel oxmDlMpls 0 false,
  defineField mplsTc oxmDlMpls 0 false,
  defineField mplsBos oxmDlMpls 0 false,
  defineField pbbIsid oxmDlPbb 0 true,
  defineField pbbIsidW oxmDlPbb 0 true,
  defineField tunnelId oxmDlNone 0 true,
  defineField tunnelIdW oxmDlNone 0 true,
  defineField ipv6Exthdr oxmDlIpv6 0 true,
  defineField ipv6ExthdrW oxmDlIpv6 0 true]

/-- `oxm_field_lookup`.  The source walks the hash chain of the header and
compares headers, so the hash only narrows the search. -/
def oxmFieldLookup (header : UInt32) : Option OxmField :=
  oxmFields.find? (·.header == header)

/-- The headers of the table are unique, as `oxm_init` lets the compiler check. -/
theorem oxmFields_header_nodup : (oxmFields.map (·.header)).Nodup := by decide

theorem mem_oxmFields_of_lookup {header : UInt32} {f : OxmField}
    (h : oxmFieldLookup header = some f) : f ∈ oxmFields :=
  List.mem_of_find?_eq_some h

theorem header_of_lookup {header : UInt32} {f : OxmField}
    (h : oxmFieldLookup header = some f) : f.header = header := by
  have := List.find?_some h
  simpa using this

/-- Every field index has its entry in the table. -/
theorem lookup_header (i : OxmFieldIndex) : (oxmFieldLookup i.header).map (·.index) = some i := by
  cases i <;> rfl

/-- A masked header of the table always belongs to a maskable field. -/
theorem maskable_of_hasmask {f : OxmField} (h : f ∈ oxmFields) (hm : oxmHasmask f.header = true) :
    f.maskable = true := by
  revert f
  decide

end Nox.Oxm

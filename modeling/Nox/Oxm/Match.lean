import Nox.Lib.Hmap
import Nox.Lib.Bytes
import Nox.Oxm.Field

/-!
# OXM matches

`struct ofl_match` with the functions of `ofl-structs-match.c` that fill it,
and the encoder and decoder of `oxm-match.c`.  The value of an entry is the
host memory `malloc`ed for it; the encoder and the decoder swap the byte order
of some field kinds and copy the others.
-/

namespace Nox.Oxm

structure OflMatchTlv where
  header : UInt32
  value : Bytes
  deriving DecidableEq, Repr

/-- The hash an entry is stored and looked up under. -/
def hashOf (header : UInt32) : Nat := (hashInt header 0).toNat

/-- `struct ofl_match`.  Every entry is stored under the hash of its header. -/
structure OflMatch where
  type : Nat
  length : Nat
  matchFields : Hmap OflMatchTlv
  hashed : ∀ nd ∈ matchFields.nodes, nd.hash = hashOf nd.elem.header

def ofpmtOxm : Nat := 1

def ethAddrLen : Nat := 6

def ipv6AddrLen : Nat := 16

namespace OflMatch

/-- `HMAP_FOR_EACH` over the entries. -/
def entries (m : OflMatch) : List OflMatchTlv := m.matchFields.forEach

/-- `HMAP_FOR_EACH_WITH_HASH` over the entries, for the hash of a header. -/
def withHash (m : OflMatch) (header : UInt32) : List OflMatchTlv :=
  m.matchFields.forEachWithHash (hashOf header)

/-- The hash-only loops visit exactly the entries with the header looked up. -/
theorem withHash_eq (m : OflMatch) (header : UInt32) :
    m.withHash header = m.entries.filter (·.header == header) := by
  have hinj : ∀ nd ∈ m.matchFields.nodes,
      (nd.hash == hashOf header) = (nd.elem.header == header) := by
    intro nd hnd
    rw [m.hashed nd hnd, Bool.eq_iff_iff, beq_iff_eq, beq_iff_eq]
    refine ⟨fun h => ?_, fun h => by rw [h]⟩
    exact hashInt_injective 0 (UInt32.toNat_inj.mp h)
  unfold withHash entries Hmap.forEach
  rw [Hmap.forEachWithHash_eq, List.filter_map]
  exact congrArg _ (List.filter_congr hinj)

end OflMatch

/-! ## Building a match -/

def oflStructsMatchInit : OflMatch where
  type := ofpmtOxm
  length := 0
  matchFields := .empty
  hashed := by simp

/-- The common body of the `ofl_structs_match_put*` functions: an entry with
the given header and value memory is inserted and the match length grows. -/
def matchPut (m : OflMatch) (header : UInt32) (value : Bytes) : OflMatch where
  type := m.type
  length := (m.length + value.length + 4) % 65536
  matchFields := m.matchFields.insert ⟨header, value⟩ (hashOf header)
  hashed := by
    intro nd hnd
    have hmem := (Hmap.nodes_insert m.matchFields ⟨header, value⟩ (hashOf header)).mem_iff.mp hnd
    rcases List.mem_cons.mp hmem with rfl | hold
    · rfl
    · exact m.hashed nd hold

def oflStructsMatchPut8 (m : OflMatch) (header : UInt32) (value : Nat) : OflMatch :=
  matchPut m header (leBytes 1 value)

def oflStructsMatchPut16 (m : OflMatch) (header : UInt32) (value : Nat) : OflMatch :=
  matchPut m header (leBytes 2 value)

def oflStructsMatchPut16m (m : OflMatch) (header : UInt32) (value mask : Nat) : OflMatch :=
  matchPut m header (leBytes 2 value ++ leBytes 2 mask)

def oflStructsMatchPut32 (m : OflMatch) (header : UInt32) (value : Nat) : OflMatch :=
  matchPut m header (leBytes 4 value)

def oflStructsMatchPut32m (m : OflMatch) (header : UInt32) (value mask : Nat) : OflMatch :=
  matchPut m header (leBytes 4 value ++ leBytes 4 mask)

def oflStructsMatchPut64 (m : OflMatch) (header : UInt32) (value : Nat) : OflMatch :=
  matchPut m header (leBytes 8 value)

def oflStructsMatchPut64m (m : OflMatch) (header : UInt32) (value mask : Nat) : OflMatch :=
  matchPut m header (leBytes 8 value ++ leBytes 8 mask)

/-- `ofl_structs_match_put_eth`, reading the address at the pointer `value`. -/
def oflStructsMatchPutEth (m : OflMatch) (header : UInt32) (value : Bytes) : OflMatch :=
  matchPut m header (value.take ethAddrLen)

def oflStructsMatchPutEthM (m : OflMatch) (header : UInt32) (value mask : Bytes) : OflMatch :=
  matchPut m header (value.take ethAddrLen ++ mask.take ethAddrLen)

def oflStructsMatchPutIpv6 (m : OflMatch) (header : UInt32) (value : Bytes) : OflMatch :=
  matchPut m header (value.take ipv6AddrLen)

def oflStructsMatchPutIpv6m (m : OflMatch) (header : UInt32) (value mask : Bytes) : OflMatch :=
  matchPut m header (value.take ipv6AddrLen ++ mask.take ipv6AddrLen)

@[simp] theorem entries_init : oflStructsMatchInit.entries = [] := rfl

/-- A put adds exactly one entry. -/
theorem entries_matchPut (m : OflMatch) (header : UInt32) (value : Bytes) :
    (matchPut m header value).entries.Perm (⟨header, value⟩ :: m.entries) :=
  Hmap.forEach_insert _ _ _

/-! ## Encoding -/

/-- The word of `k` bytes a pointer refers to. -/
def load (k : Nat) (mem : Bytes) : Nat := leNat (mem.take k)

def oxmPutHeader (header : UInt32) : Bytes := leBytes 4 (hton 4 header.toNat)

def oxmPut8 (header : UInt32) (value : Nat) : Bytes := oxmPutHeader header ++ leBytes 1 value

/-- `oxm_put_8w`: the mask parameter is 16 bits wide. -/
def oxmPut8w (header : UInt32) (value mask : Nat) : Bytes :=
  oxmPutHeader header ++ leBytes 1 value ++ leBytes 2 mask

def oxmPut16 (header : UInt32) (value : Nat) : Bytes := oxmPutHeader header ++ leBytes 2 value

def oxmPut16w (header : UInt32) (value mask : Nat) : Bytes :=
  oxmPutHeader header ++ leBytes 2 value ++ leBytes 2 mask

def oxmPut32 (header : UInt32) (value : Nat) : Bytes := oxmPutHeader header ++ leBytes 4 value

def oxmPut32w (header : UInt32) (value mask : Nat) : Bytes :=
  oxmPutHeader header ++ leBytes 4 value ++ leBytes 4 mask

def oxmPut64 (header : UInt32) (value : Nat) : Bytes := oxmPutHeader header ++ leBytes 8 value

def oxmPut64w (header : UInt32) (value mask : Nat) : Bytes :=
  oxmPutHeader header ++ leBytes 8 value ++ leBytes 8 mask

def oxmPutEth (header : UInt32) (value : Bytes) : Bytes :=
  oxmPutHeader header ++ value.take ethAddrLen

def oxmPutEthm (header : UInt32) (value mask : Bytes) : Bytes :=
  oxmPutHeader header ++ value.take ethAddrLen ++ mask.take ethAddrLen

def oxmPutIpv6 (header : UInt32) (value : Bytes) : Bytes :=
  oxmPutHeader header ++ value.take ipv6AddrLen

def oxmPutIpv6m (header : UInt32) (value mask : Bytes) : Bytes :=
  oxmPutHeader header ++ value.take ipv6AddrLen ++ mask.take ipv6AddrLen

open OxmFieldIndex in
def isRequisite (h : UInt32) : Bool :=
  h == inPort.header || h == ethType.header || h == vlanVid.header || h == ipProto.header

open OxmFieldIndex in
/-- The headers whose 32-bit value `oxm_put_match` writes without swapping it. -/
def isIpv4Header (h : UInt32) : Bool :=
  h == ipv4Dst.header || h == ipv4Src.header || h == arpSpa.header || h == arpTpa.header

open OxmFieldIndex in
/-- The masked counterpart of `isIpv4Header`. -/
def isIpv4HeaderW (h : UInt32) : Bool :=
  h == ipv4DstW.header || h == ipv4SrcW.header || h == arpSpaW.header || h == arpTpaW.header

/-- The body of the loop of `oxm_put_match` over the remaining fields. -/
def oxmPutTlv (oft : OflMatchTlv) : Bytes :=
  let hasMask := oxmHasmask oft.header
  let length := if hasMask then oxmLength oft.header / 2 else oxmLength oft.header
  let value := oft.value
  let mask := oft.value.drop length
  match length with
  | 1 =>
    if !hasMask then oxmPut8 oft.header (load 1 value)
    else oxmPut8w oft.header (load 1 value) (load 1 mask)
  | 2 =>
    if !hasMask then oxmPut16 oft.header (hton 2 (load 2 value))
    else oxmPut16w oft.header (hton 2 (load 2 value)) (hton 2 (load 2 mask))
  | 4 =>
    if !hasMask then
      if isIpv4Header oft.header then oxmPut32 oft.header (load 4 value)
      else oxmPut32 oft.header (hton 4 (load 4 value))
    else
      if isIpv4HeaderW oft.header then oxmPut32w oft.header (load 4 value) (load 4 mask)
      else oxmPut32w oft.header (hton 4 (load 4 value)) (hton 4 (load 4 mask))
  | 8 =>
    if !hasMask then oxmPut64 oft.header (hton 8 (load 8 value))
    else oxmPut64w oft.header (hton 8 (load 8 value)) (hton 8 (load 8 mask))
  | 6 =>
    if !hasMask then oxmPutEth oft.header value
    else oxmPutEthm oft.header value mask
  | 16 =>
    if !hasMask then oxmPutIpv6 oft.header value
    else oxmPutIpv6m oft.header value mask
  | _ => []

open OxmFieldIndex in
/-- The prerequisite fields `oxm_put_match` writes before all others. -/
def oxmPutRequisites (omt : OflMatch) : Bytes :=
  (omt.withHash inPort.header).flatMap
      (fun oft => oxmPut32 oft.header (hton 4 (load 4 oft.value))) ++
    (omt.withHash ethType.header).flatMap
      (fun oft => oxmPut16 oft.header (hton 2 (load 2 oft.value))) ++
    (omt.withHash vlanVid.header).flatMap
      (fun oft => oxmPut16 oft.header (hton 2 (load 2 oft.value))) ++
    (omt.withHash ipProto.header).flatMap
      (fun oft => oxmPut8 oft.header (load 1 oft.value))

/-- `ROUND_UP` on C `int`s. -/
def roundUp (x y : Int) : Int := (x + (y - 1)).tdiv y * y

/-- `oxm_put_match`: the buffer afterwards and the returned match length. -/
def oxmPutMatch (buf : Bytes) (omt : OflMatch) : Bytes × Nat :=
  let body := oxmPutRequisites omt ++
    omt.entries.flatMap (fun oft => if isRequisite oft.header then [] else oxmPutTlv oft)
  let matchLen := body.length
  let zeros := roundUp (matchLen - 4 : Int) 8 - (matchLen - 4 : Int)
  (buf ++ body ++ List.replicate zeros.toNat 0, matchLen)

/-! ## Decoding -/

def ofpMkerr (type code : Nat) : Nat := type <<< 16 ||| code

def ofpetBadMatch : Nat := 4
def ofpbrcBadLen : Nat := 6
def ofpbmcBadLen : Nat := 1
def ofpbmcBadField : Nat := 6
def ofpbmcBadValue : Nat := 7
def ofpbmcBadMask : Nat := 8
def ofpbmcBadPrereq : Nat := 9
def ofpbmcDupField : Nat := 10
def ofpvidPresent : Nat := 0x1000
def ofpvidNone : Nat := 0
def vlanVidMax : Nat := 4095

def checkPresentPrereq (m : OflMatch) (header : UInt32) : Bool := !(m.withHash header).isEmpty

open OxmFieldIndex in
def oxmPrereqsOk (field : OxmField) (rule : OflMatch) : Bool :=
  -- an absent ip_proto satisfies the protocol prerequisite
  (field.nwProto == 0 ||
    (rule.withHash ipProto.header).all fun omt => field.nwProto == load 1 omt.value) &&
  (field.dlType.1 == 0 ||
    (rule.withHash ethType.header).any fun omt =>
      field.dlType.1 == load 2 omt.value ||
        (field.dlType.2 != 0 && field.dlType.2 == load 2 omt.value))

def checkOxmDup (m : OflMatch) (om : OxmField) : Bool := !(m.withHash om.header).isEmpty

def getOxmValue (m : OflMatch) (header : UInt32) : Option Bytes :=
  (m.withHash header).head?.map (·.value)

open OxmFieldIndex in
/-- `parse_oxm_entry`.  `value` and `mask` are pointers: the memory from there
on, of which each case loads what it needs.  Bytes behind the known memory read
as zero. -/
def parseOxmEntry (m : OflMatch) (f : OxmField) (value mask : Bytes) : Except Nat OflMatch :=
  match f.index with
  | inPort => .ok (oflStructsMatchPut32 m f.header (hton 4 (load 4 value)))
  | inPhyPort =>
    if checkPresentPrereq m inPort.header then
      -- no return here: control falls into the case of `metadata`
      let m := oflStructsMatchPut32 m f.header (hton 4 (load 4 value))
      .ok (oflStructsMatchPut64 m f.header (hton 8 (load 8 value)))
    else .error (ofpMkerr ofpetBadMatch ofpbmcBadPrereq)
  | metadata => .ok (oflStructsMatchPut64 m f.header (hton 8 (load 8 value)))
  | metadataW =>
    .ok (oflStructsMatchPut64m m f.header (hton 8 (load 8 value)) (hton 8 (load 8 mask)))
  | ethDst | ethSrc => .ok (oflStructsMatchPutEth m f.header value)
  | ethDstW | ethSrcW => .ok (oflStructsMatchPutEthM m f.header value mask)
  | ethType => .ok (oflStructsMatchPut16 m f.header (hton 2 (load 2 value)))
  | vlanVid =>
    if hton 2 (load 2 value) > ofpvidPresent + vlanVidMax then
      .error (ofpMkerr ofpetBadMatch ofpbmcBadValue)
    else .ok (oflStructsMatchPut16 m f.header (hton 2 (load 2 value)))
  | vlanVidW =>
    if hton 2 (load 2 value) > ofpvidPresent + vlanVidMax then
      .error (ofpMkerr ofpetBadMatch ofpbmcBadValue)
    else
      .ok (oflStructsMatchPut16m m f.header (hton 2 (load 2 value)) (hton 2 (load 2 mask)))
  | vlanPcp =>
    if checkPresentPrereq m vlanVid.header then
      match getOxmValue m vlanVid.header with
      | some p =>
        if load 2 p != ofpvidNone then .ok (oflStructsMatchPut8 m f.header (load 1 value))
        else .ok m
      | none => .ok m
    else .error (ofpMkerr ofpetBadMatch ofpbmcBadPrereq)
  | ipDscp =>
    if load 1 value &&& 0xc0 != 0 then .error (ofpMkerr ofpetBadMatch ofpbmcBadValue)
    else .ok (oflStructsMatchPut8 m f.header (load 1 value))
  | ipEcn | ipProto => .ok (oflStructsMatchPut8 m f.header (load 1 value))
  | ipv4Src | ipv4Dst | arpTpa | arpSpa => .ok (oflStructsMatchPut32 m f.header (load 4 value))
  | ipv4DstW | ipv4SrcW | arpSpaW | arpTpaW =>
    .ok (oflStructsMatchPut32m m f.header (load 4 value) (load 4 mask))
  | arpSha | arpTha => .ok (oflStructsMatchPutEth m f.header value)
  | arpShaW | arpThaW => .ok (oflStructsMatchPutEthM m f.header value mask)
  | ipv6Src | ipv6Dst => .ok (oflStructsMatchPutIpv6 m f.header value)
  | ipv6SrcW | ipv6DstW => .ok (oflStructsMatchPutIpv6m m f.header value mask)
  | ipv6Flabel => .ok (oflStructsMatchPut32 m f.header (hton 4 (load 4 value)))
  | ipv6FlabelW =>
    .ok (oflStructsMatchPut32m m f.header (hton 4 (load 4 value)) (hton 4 (load 4 mask)))
  | tcpSrc | tcpDst | udpSrc | udpDst | sctpSrc | sctpDst =>
    .ok (oflStructsMatchPut16 m f.header (hton 2 (load 2 value)))
  | icmpv4Type | icmpv4Code | icmpv6Type | icmpv6Code =>
    .ok (oflStructsMatchPut8 m f.header (load 1 value))
  | ipv6NdTarget => .ok (oflStructsMatchPutIpv6 m f.header value)
  | ipv6NdSll | ipv6NdTll => .ok (oflStructsMatchPutEth m f.header value)
  | arpOp => .ok (oflStructsMatchPut16 m f.header (hton 2 (load 2 value)))
  | mplsLabel => .ok (oflStructsMatchPut32 m f.header (hton 4 (load 4 value)))
  | mplsTc => .ok (oflStructsMatchPut8 m f.header (load 1 value))
  | mplsBos => .ok (oflStructsMatchPut8 m f.header (load 1 value))
  | pbbIsid => .ok (oflStructsMatchPut32 m f.header (hton 4 (load 4 value)))
  | pbbIsidW =>
    .ok (oflStructsMatchPut32m m f.header (hton 4 (load 4 value)) (hton 4 (load 4 mask)))
  -- the tunnel id is not swapped back
  | tunnelId => .ok (oflStructsMatchPut64 m f.header (load 8 value))
  | tunnelIdW => .ok (oflStructsMatchPut64m m f.header (load 8 value) (load 8 mask))
  | ipv6Exthdr => .ok (oflStructsMatchPut16 m f.header (hton 2 (load 2 value)))
  | ipv6ExthdrW =>
    .ok (oflStructsMatchPut16m m f.header (hton 2 (load 2 value)) (hton 2 (load 2 mask)))

/-- `oxm_entry_ok`: the header at `p`, or zero. -/
def oxmEntryOk (p : Bytes) (matchLen : Nat) : UInt32 :=
  if matchLen < 4 then 0
  else
    let header := UInt32.ofNat (hton 4 (load 4 p))
    let payloadLen := oxmLength header
    if payloadLen = 0 then 0
    else if matchLen < payloadLen + 4 then 0
    else header

/-- One pass through the loop body of `oxm_pull_match` for a nonzero header. -/
def pullEntry (m : OflMatch) (header : UInt32) (p : Bytes) : Except Nat OflMatch :=
  match oxmFieldLookup header with
  | none => .error (ofpMkerr ofpetBadMatch ofpbmcBadField)
  | some f =>
    if oxmHasmask header && !f.maskable then .error (ofpMkerr ofpetBadMatch ofpbmcBadMask)
    else if !oxmPrereqsOk f m then .error (ofpMkerr ofpetBadMatch ofpbmcBadPrereq)
    else if checkOxmDup m f then .error (ofpMkerr ofpetBadMatch ofpbmcDupField)
    else parseOxmEntry m f (p.drop 4) (p.drop (4 + oxmLength header / 2))

/-- The loop of `oxm_pull_match`.  Every pass consumes at least five of the
remaining bytes, so `matchLen` passes are enough; the result after the last
pass is the one the loop exit returns. -/
def pullLoop : Nat → OflMatch → Bytes → Nat → Except Nat OflMatch
  | 0, m, _, matchLen =>
    if matchLen ≠ 0 then .error (ofpMkerr ofpetBadMatch ofpbmcBadLen) else .ok m
  | fuel + 1, m, p, matchLen =>
    let header := oxmEntryOk p matchLen
    if header = 0 then
      if matchLen ≠ 0 then .error (ofpMkerr ofpetBadMatch ofpbmcBadLen) else .ok m
    else do
      let m ← pullEntry m header p
      pullLoop fuel m (p.drop (4 + oxmLength header)) (matchLen - (4 + oxmLength header))

/-- `oxm_pull_match`: the decoded match and the buffer left behind it. -/
def oxmPullMatch (buf : Bytes) (matchLen : Nat) : Except Nat (OflMatch × Bytes) :=
  if buf.length < matchLen then .error (ofpMkerr ofpetBadMatch ofpbrcBadLen)
  else do
    let m ← pullLoop matchLen oflStructsMatchInit buf matchLen
    return (m, buf.drop matchLen)

end Nox.Oxm

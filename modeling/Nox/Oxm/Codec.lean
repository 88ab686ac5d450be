import Nox.Oxm.Match

/-!
# The wire form of one entry

What `oxm_put_match` writes for an entry and what `parse_oxm_entry` stores when
it reads such bytes, both as functions of the entry alone: the header in network
order, then the value, in which the words of some fields are reversed.  The
encoder reverses them by width, the decoder field by field, and the two agree
except on the tunnel id.
-/

namespace Nox.Oxm

open OxmFieldIndex

/-! ## Words in memory -/

section Words

variable {k : Nat} {v rest : Bytes}

theorem leBytes_load (h : k ≤ v.length) : leBytes k (load k v) = v.take k := by
  rw [load, leBytes_leNat_of_length (by simp [h])]

theorem leBytes_hton_load (h : k ≤ v.length) :
    leBytes k (hton k (load k v)) = (v.take k).reverse := by
  rw [load, leBytes_hton_leNat (by simp [h])]

/-- Loading looks no further than the word. -/
theorem load_append (h : k ≤ v.length) : load k (v ++ rest) = load k v := by
  simp [load, List.take_append_of_le_length h]

end Words

/-! ## Sizes -/

/-- The length of a value without its mask, the `length` of `oxm_put_match`. -/
def wordSize (header : UInt32) : Nat :=
  if oxmHasmask header then oxmLength header / 2 else oxmLength header

/-- The sizes `oxm_put_match` has a case for. -/
def writtenSizes : List Nat := [1, 2, 4, 6, 8, 16]

/-- The entry owns the memory its header announces, in a size the encoder writes. -/
structure Sized (e : OflMatchTlv) : Prop where
  length_value : e.value.length = oxmLength e.header
  mem_sizes : wordSize e.header ∈ writtenSizes

/-- A value and, behind it, a mask, each with its bytes reversed. -/
def flipWords (header : UInt32) (v : Bytes) : Bytes :=
  (v.take (wordSize header)).reverse ++ (v.drop (wordSize header)).reverse

/-- The headers whose words `oxm_put_match` passes through a byte swap. -/
def putSwaps (header : UInt32) : Bool :=
  [2, 4, 8].contains (wordSize header) && !isIpv4Header header && !isIpv4HeaderW header

/-- The fields `parse_oxm_entry` stores without swapping, though written swapped. -/
def isTunnelId (i : OxmFieldIndex) : Bool := i == tunnelId || i == tunnelIdW

/-- The bytes `oxm_put_match` writes behind the header. -/
def payload (e : OflMatchTlv) : Bytes :=
  if putSwaps e.header then flipWords e.header e.value else e.value

@[simp] theorem flipWords_length (header : UInt32) (v : Bytes) :
    (flipWords header v).length = v.length := by
  simp [flipWords]
  omega

@[simp] theorem payload_length (e : OflMatchTlv) : (payload e).length = e.value.length := by
  unfold payload
  split <;> simp

section KnownFields

variable {f : OxmField}

theorem header_eq_of_mem (hf : f ∈ oxmFields) : f.header = f.index.header := by
  revert f
  decide

/-- In the table a mask is as long as its value. -/
theorem length_of_mem (hf : f ∈ oxmFields) :
    oxmLength f.header =
      if oxmHasmask f.header then wordSize f.header + wordSize f.header else wordSize f.header := by
  revert f
  decide

theorem wordSize_mem (hf : f ∈ oxmFields) : wordSize f.header ∈ writtenSizes := by
  revert f
  decide

/-- No field of the table has a one-byte mask, which `oxm_put_8w` would write as two. -/
theorem wordSize_ne_one (hf : f ∈ oxmFields) (hm : oxmHasmask f.header = true) :
    wordSize f.header ≠ 1 := by
  revert f
  decide

end KnownFields

theorem flipWords_flipWords {header : UInt32} {v : Bytes}
    (h : v.length = if oxmHasmask header then wordSize header + wordSize header
      else wordSize header) : flipWords header (flipWords header v) = v := by
  have hle : wordSize header ≤ v.length := by
    split at h <;> omega
  have hlen : (v.take (wordSize header)).reverse.length = wordSize header := by simp [hle]
  simp only [flipWords]
  rw [List.take_append_of_le_length (by omega), List.take_of_length_le (by omega),
    List.drop_append_of_le_length (by omega), List.drop_of_length_le (by omega)]
  simp

/-! ## Encoding -/

theorem isIpv4Header_spec {h : UInt32} (hh : isIpv4Header h = true) :
    oxmHasmask h = false ∧ wordSize h = 4 := by
  simp only [isIpv4Header, Bool.or_eq_true, beq_iff_eq] at hh
  rcases hh with ((rfl | rfl) | rfl) | rfl <;> decide

theorem isIpv4HeaderW_spec {h : UInt32} (hh : isIpv4HeaderW h = true) :
    oxmHasmask h = true ∧ wordSize h = 4 := by
  simp only [isIpv4HeaderW, Bool.or_eq_true, beq_iff_eq] at hh
  rcases hh with ((rfl | rfl) | rfl) | rfl <;> decide

theorem isIpv4Header_eq_false {h : UInt32} (hh : oxmHasmask h = true ∨ wordSize h ≠ 4) :
    isIpv4Header h = false := by
  cases hi : isIpv4Header h with
  | false => rfl
  | true =>
    have hspec := isIpv4Header_spec hi
    simp [hspec] at hh

theorem isIpv4HeaderW_eq_false {h : UInt32} (hh : oxmHasmask h = false ∨ wordSize h ≠ 4) :
    isIpv4HeaderW h = false := by
  cases hi : isIpv4HeaderW h with
  | false => rfl
  | true =>
    have hspec := isIpv4HeaderW_spec hi
    simp [hspec] at hh

/-- Every entry of a size the encoder knows starts with its header. -/
theorem oxmPutTlv_prefix {e : OflMatchTlv} (hs : wordSize e.header ∈ writtenSizes) :
    ∃ tail, oxmPutTlv e = oxmPutHeader e.header ++ tail := by
  unfold wordSize at hs
  simp only [writtenSizes, List.mem_cons, List.not_mem_nil, or_false] at hs
  unfold oxmPutTlv
  rcases hs with h | h | h | h | h | h <;> simp only [h] <;>
    (repeat' split) <;>
    simp [oxmPut8, oxmPut8w, oxmPut16, oxmPut16w, oxmPut32, oxmPut32w, oxmPut64, oxmPut64w,
      oxmPutEth, oxmPutEthm, oxmPutIpv6, oxmPutIpv6m, List.append_assoc]

section PutTlv

variable {e : OflMatchTlv}

theorem oxmPutTlv_unmasked (hm : oxmHasmask e.header = false) (hs : Sized e) :
    oxmPutTlv e = oxmPutHeader e.header ++ payload e := by
  have hw : wordSize e.header = oxmLength e.header := by simp [wordSize, hm]
  have hlen := hs.length_value
  have hsz := hs.mem_sizes
  have hflip : flipWords e.header e.value = e.value.reverse := by
    simp [flipWords, List.take_of_length_le, List.drop_of_length_le, hw, hlen]
  have hswap {k : Nat} (h : wordSize e.header = k) :
      leBytes k (hton k (load k e.value)) = e.value.reverse := by
    rw [leBytes_hton_load (by omega), List.take_of_length_le (by omega)]
  have hcopy {k : Nat} (h : wordSize e.header = k) : leBytes k (load k e.value) = e.value := by
    rw [leBytes_load (by omega), List.take_of_length_le (by omega)]
  unfold oxmPutTlv payload putSwaps
  simp only [hm, hflip, ← hw, isIpv4HeaderW_eq_false (.inl hm)]
  simp only [writtenSizes, List.mem_cons, List.not_mem_nil, or_false] at hsz
  rcases hsz with h | h | h | h | h | h
  · simp [h, oxmPut8, hcopy h]
  · have h4 : isIpv4Header e.header = false := isIpv4Header_eq_false (.inr (by omega))
    simp [h, h4, oxmPut16, hswap h]
  · cases h4 : isIpv4Header e.header
    · simp [h, oxmPut32, hswap h]
    · simp [h, oxmPut32, hcopy h]
  · simp [h, oxmPutEth, ethAddrLen, List.take_of_length_le, hlen, ← hw]
  · have h4 : isIpv4Header e.header = false := isIpv4Header_eq_false (.inr (by omega))
    simp [h, h4, oxmPut64, hswap h]
  · simp [h, oxmPutIpv6, ipv6AddrLen, List.take_of_length_le, hlen, ← hw]

theorem oxmPutTlv_masked (hm : oxmHasmask e.header = true) (hs : Sized e)
    (hl : oxmLength e.header = wordSize e.header + wordSize e.header)
    (hne : wordSize e.header ≠ 1) :
    oxmPutTlv e = oxmPutHeader e.header ++ payload e := by
  have hw : oxmLength e.header / 2 = wordSize e.header := by omega
  have hlen := hs.length_value
  have hsz := hs.mem_sizes
  have hswap {k : Nat} (h : wordSize e.header = k) :
      leBytes k (hton k (load k e.value)) ++ leBytes k (hton k (load k (e.value.drop k))) =
        flipWords e.header e.value := by
    rw [leBytes_hton_load (by omega), leBytes_hton_load (by simp; omega), flipWords, h,
      List.take_of_length_le (l := e.value.drop k) (by simp; omega)]
  have hsplit {k : Nat} (h : wordSize e.header = k) :
      e.value.take k ++ (e.value.drop k).take k = e.value := by
    rw [List.take_of_length_le (l := e.value.drop k) (by simp; omega), List.take_append_drop]
  have hcopy {k : Nat} (h : wordSize e.header = k) :
      leBytes k (load k e.value) ++ leBytes k (load k (e.value.drop k)) = e.value := by
    rw [leBytes_load (by omega), leBytes_load (by simp; omega), hsplit h]
  unfold oxmPutTlv payload putSwaps
  simp only [hm, hw, isIpv4Header_eq_false (.inl hm)]
  simp only [writtenSizes, List.mem_cons, List.not_mem_nil, or_false] at hsz
  rcases hsz with h | h | h | h | h | h
  · exact absurd h hne
  · have h4 : isIpv4HeaderW e.header = false := isIpv4HeaderW_eq_false (.inr (by omega))
    simp [h, h4, oxmPut16w, hswap h]
  · cases h4 : isIpv4HeaderW e.header
    · simp [h, oxmPut32w, hswap h]
    · simp [h, oxmPut32w, hcopy h]
  · simp [h, oxmPutEthm, ethAddrLen, hsplit h]
  · have h4 : isIpv4HeaderW e.header = false := isIpv4HeaderW_eq_false (.inr (by omega))
    simp [h, h4, oxmPut64w, hswap h]
  · simp [h, oxmPutIpv6m, ipv6AddrLen, hsplit h]

/-- An entry of a known field is written as its header and its payload. -/
theorem oxmPutTlv_known {f : OxmField} (hf : f ∈ oxmFields) (he : e.header = f.header)
    (hs : Sized e) : oxmPutTlv e = oxmPutHeader e.header ++ payload e := by
  have hl := length_of_mem hf
  rw [← he] at hl
  cases hm : oxmHasmask e.header with
  | false => exact oxmPutTlv_unmasked hm hs
  | true =>
    have hne := wordSize_ne_one hf (by rw [← he]; exact hm)
    rw [← he] at hne
    exact oxmPutTlv_masked hm hs (by simpa [hm] using hl) hne

end PutTlv

/-! ## Decoding -/

/-- The fields whose words `parse_oxm_entry` swaps. -/
def pullSwaps (i : OxmFieldIndex) : Bool := putSwaps i.header && !isTunnelId i

/-- The value memory `parse_oxm_entry` fills from the bytes `v`. -/
def stored (i : OxmFieldIndex) (v : Bytes) : Bytes :=
  if pullSwaps i then flipWords i.header v else v

/-- The error `parse_oxm_entry` returns for a field other than `IN_PHY_PORT`. -/
def parseError (m : OflMatch) (i : OxmFieldIndex) (v : Bytes) : Option Nat :=
  match i with
  | vlanVid | vlanVidW =>
    if hton 2 (load 2 v) > ofpvidPresent + vlanVidMax then
      some (ofpMkerr ofpetBadMatch ofpbmcBadValue)
    else none
  | vlanPcp =>
    if checkPresentPrereq m vlanVid.header then none
    else some (ofpMkerr ofpetBadMatch ofpbmcBadPrereq)
  | ipDscp =>
    if load 1 v &&& 0xc0 != 0 then some (ofpMkerr ofpetBadMatch ofpbmcBadValue) else none
  | _ => none

/-- `parse_oxm_entry` accepts the entry without adding it. -/
def parseDrops (m : OflMatch) (i : OxmFieldIndex) : Bool :=
  i == vlanPcp && ((getOxmValue m vlanVid.header).all fun p => load 2 p == ofpvidNone)

section Stored

variable {i : OxmFieldIndex} {k : Nat} {v r : Bytes}

theorem stored_swap (hs : pullSwaps i = true) (hw : wordSize i.header = k) (hlen : v.length = k) :
    leBytes k (hton k (load k (v ++ r))) = stored i v := by
  rw [load_append (by omega), leBytes_hton_load (by omega), List.take_of_length_le (by omega)]
  simp [stored, hs, flipWords, List.take_of_length_le, List.drop_of_length_le, hw, hlen]

theorem stored_load (hs : pullSwaps i = false) (hlen : v.length = k) :
    leBytes k (load k (v ++ r)) = stored i v := by
  rw [load_append (by omega), leBytes_load (by omega), List.take_of_length_le (by omega)]
  simp [stored, hs]

theorem stored_take (hs : pullSwaps i = false) (hlen : v.length = k) :
    (v ++ r).take k = stored i v := by
  rw [List.take_append_of_le_length (by omega), List.take_of_length_le (by omega)]
  simp [stored, hs]

/-- The mask pointer stands behind the value. -/
theorem drop_append_mask (hlen : v.length = k + k) :
    (v ++ r).drop ((k + k) / 2) = v.drop k ++ r := by
  rw [show (k + k) / 2 = k by omega, List.drop_append_of_le_length (by omega)]

theorem stored_swap_mask (hs : pullSwaps i = true) (hw : wordSize i.header = k)
    (hlen : v.length = k + k) :
    leBytes k (hton k (load k (v ++ r))) ++
      leBytes k (hton k (load k ((v ++ r).drop ((k + k) / 2)))) = stored i v := by
  rw [drop_append_mask hlen, load_append (by omega), load_append (by simp; omega),
    leBytes_hton_load (by omega), leBytes_hton_load (by simp; omega),
    List.take_of_length_le (l := v.drop k) (by simp; omega)]
  simp [stored, hs, flipWords, hw]

theorem stored_take_mask (hs : pullSwaps i = false) (hlen : v.length = k + k) :
    (v ++ r).take k ++ ((v ++ r).drop ((k + k) / 2)).take k = stored i v := by
  rw [drop_append_mask hlen, List.take_append_of_le_length (by omega),
    List.take_append_of_le_length (by simp; omega),
    List.take_of_length_le (l := v.drop k) (by simp; omega), List.take_append_drop]
  simp [stored, hs]

theorem stored_load_mask (hs : pullSwaps i = false) (hlen : v.length = k + k) :
    leBytes k (load k (v ++ r)) ++ leBytes k (load k ((v ++ r).drop ((k + k) / 2))) =
      stored i v := by
  rw [← stored_take_mask (r := r) hs hlen, leBytes_load (by simp; omega),
    leBytes_load (by simp; omega)]

end Stored

/-- Outside of `IN_PHY_PORT`, `parse_oxm_entry` refuses, drops or stores an entry. -/
theorem parseOxmEntry_eq {f : OxmField} (hf : f ∈ oxmFields) (hne : f.index ≠ inPhyPort)
    {v : Bytes} (hlen : v.length = oxmLength f.header) (m : OflMatch) (rest : Bytes) :
    parseOxmEntry m f (v ++ rest) ((v ++ rest).drop (oxmLength f.header / 2)) =
      match parseError m f.index v with
      | some err => .error err
      | none =>
        if parseDrops m f.index then .ok m
        else .ok (matchPut m f.header (stored f.index v)) := by
  have hh := header_eq_of_mem hf
  -- a case that neither refuses nor drops stores what the word lemmas compute
  have hput {i : OxmFieldIndex} {x : Bytes} (hx : x = stored i v)
      (hd : parseDrops m i = false) (he : parseError m i v = none) :
      Except.ok (matchPut m i.header x) =
        match parseError m i v with
        | some err => .error err
        | none =>
          if parseDrops m i then .ok m else .ok (matchPut m i.header (stored i v)) := by
    simp [he, hd, hx]
  rw [hh] at hlen ⊢
  unfold parseOxmEntry
  rw [hh]
  cases hi : f.index <;> rw [hi] at hlen
  case inPhyPort => exact absurd hi hne
  case ethType | tcpSrc | tcpDst | udpSrc | udpDst | sctpSrc | sctpDst | arpOp | ipv6Exthdr =>
    exact hput (stored_swap (k := 2) rfl rfl hlen) rfl rfl
  case inPort | ipv6Flabel | mplsLabel | pbbIsid =>
    exact hput (stored_swap (k := 4) rfl rfl hlen) rfl rfl
  case metadata => exact hput (stored_swap (k := 8) rfl rfl hlen) rfl rfl
  case ipv6ExthdrW => exact hput (stored_swap_mask (k := 2) rfl rfl hlen) rfl rfl
  case ipv6FlabelW | pbbIsidW => exact hput (stored_swap_mask (k := 4) rfl rfl hlen) rfl rfl
  case metadataW => exact hput (stored_swap_mask (k := 8) rfl rfl hlen) rfl rfl
  case ipEcn | ipProto | icmpv4Type | icmpv4Code | icmpv6Type | icmpv6Code | mplsTc | mplsBos =>
    exact hput (stored_load (k := 1) rfl hlen) rfl rfl
  case ipv4Src | ipv4Dst | arpTpa | arpSpa => exact hput (stored_load (k := 4) rfl hlen) rfl rfl
  case tunnelId => exact hput (stored_load (k := 8) rfl hlen) rfl rfl
  case ipv4SrcW | ipv4DstW | arpTpaW | arpSpaW =>
    exact hput (stored_load_mask (k := 4) rfl hlen) rfl rfl
  case tunnelIdW => exact hput (stored_load_mask (k := 8) rfl hlen) rfl rfl
  case ethDst | ethSrc | arpSha | arpTha | ipv6NdSll | ipv6NdTll =>
    exact hput (stored_take (k := 6) rfl hlen) rfl rfl
  case ipv6Src | ipv6Dst | ipv6NdTarget => exact hput (stored_take (k := 16) rfl hlen) rfl rfl
  case ethDstW | ethSrcW | arpShaW | arpThaW =>
    exact hput (stored_take_mask (k := 6) rfl hlen) rfl rfl
  case ipv6SrcW | ipv6DstW => exact hput (stored_take_mask (k := 16) rfl hlen) rfl rfl
  case vlanVid =>
    have hst := stored_swap (i := vlanVid) (k := 2) (r := rest) rfl rfl hlen
    have hld : load 2 (v ++ rest) = load 2 v := load_append (by rw [hlen]; decide)
    simp only [parseError, parseDrops, oflStructsMatchPut16, hst]
    rw [hld]
    split <;> rfl
  case vlanVidW =>
    have hst := stored_swap_mask (i := vlanVidW) (k := 2) (r := rest) rfl rfl hlen
    have hld : load 2 (v ++ rest) = load 2 v := load_append (by rw [hlen]; decide)
    have hmask : oxmLength vlanVidW.header = 2 + 2 := rfl
    simp only [parseError, parseDrops, oflStructsMatchPut16m, hmask, hst]
    rw [hld]
    split <;> rfl
  case vlanPcp =>
    have hst := stored_load (i := vlanPcp) (k := 1) (r := rest) rfl hlen
    simp only [parseError, parseDrops, oflStructsMatchPut8, hst]
    obtain hg | ⟨p, hg⟩ := (getOxmValue m vlanVid.header).eq_none_or_eq_some
    · cases hc : checkPresentPrereq m vlanVid.header <;> simp [hg]
    · cases hc : checkPresentPrereq m vlanVid.header <;>
        cases hp : load 2 p == ofpvidNone <;> simp [hg, hp, bne]
  case ipDscp =>
    have hst := stored_load (i := ipDscp) (k := 1) (r := rest) rfl hlen
    have hld : load 1 (v ++ rest) = load 1 v := load_append (by rw [hlen]; decide)
    simp only [parseError, parseDrops, oflStructsMatchPut8, hst]
    rw [hld]
    split <;> rfl

/-! ## One pass of the decoder -/

@[simp] theorem oxmPutHeader_length (header : UInt32) : (oxmPutHeader header).length = 4 := by
  simp [oxmPutHeader]

/-- The header comes back from its network representation. -/
theorem ofNat_hton_load_header (header : UInt32) (rest : Bytes) :
    UInt32.ofNat (hton 4 (load 4 (oxmPutHeader header ++ rest))) = header := by
  have hlt : header.toNat < 256 ^ 4 := header.toNat_lt
  rw [load_append (by simp), load, List.take_of_length_le (by simp), oxmPutHeader,
    leNat_leBytes_of_lt (hton_lt 4 _), hton_hton hlt, UInt32.ofNat_toNat]

/-- The header is read, or nothing is when the entry is cut off. -/
theorem oxmEntryOk_eq (header : UInt32) (rest : Bytes) {matchLen : Nat} (h : 4 ≤ matchLen) :
    oxmEntryOk (oxmPutHeader header ++ rest) matchLen =
      if oxmLength header = 0 then 0
      else if matchLen < oxmLength header + 4 then 0
      else header := by
  simp only [oxmEntryOk, ofNat_hton_load_header]
  rw [if_neg (by omega)]

section KnownEntry

variable {e : OflMatchTlv} {f : OxmField} (hl : oxmFieldLookup e.header = some f) (hs : Sized e)

include hl

theorem known_ne_zero : e.header ≠ 0 ∧ oxmLength e.header ≠ 0 := by
  have hf := mem_oxmFields_of_lookup hl
  rw [← header_of_lookup hl]
  clear hl
  revert f
  decide

include hs

theorem oxmPutTlv_lookup : oxmPutTlv e = oxmPutHeader e.header ++ payload e :=
  oxmPutTlv_known (mem_oxmFields_of_lookup hl) (header_of_lookup hl).symm hs

theorem oxmPutTlv_length : (oxmPutTlv e).length = 4 + oxmLength e.header := by
  rw [oxmPutTlv_lookup hl hs]
  simp [hs.length_value]

/-- A known entry passes the mask check. -/
theorem pullEntry_known (m : OflMatch) (rest : Bytes) :
    pullEntry m e.header (oxmPutTlv e ++ rest) =
      if !oxmPrereqsOk f m then .error (ofpMkerr ofpetBadMatch ofpbmcBadPrereq)
      else if checkOxmDup m f then .error (ofpMkerr ofpetBadMatch ofpbmcDupField)
      else parseOxmEntry m f (payload e ++ rest)
        ((payload e ++ rest).drop (oxmLength f.header / 2)) := by
  have hmask : (oxmHasmask e.header && !f.maskable) = false := by
    cases hm : oxmHasmask e.header with
    | false => rfl
    | true =>
      rw [← header_of_lookup hl] at hm
      simp [maskable_of_hasmask (mem_oxmFields_of_lookup hl) hm]
  have hdrop (k : Nat) : (oxmPutTlv e ++ rest).drop (4 + k) = (payload e ++ rest).drop k := by
    rw [oxmPutTlv_lookup hl hs, List.append_assoc, ← List.drop_drop,
      List.drop_left' (oxmPutHeader_length _)]
  have hdrop0 := hdrop 0
  simp only [Nat.add_zero, List.drop_zero] at hdrop0
  simp only [pullEntry, hl, hmask, hdrop0, hdrop, header_of_lookup hl, Bool.false_eq_true,
    if_false]

/-- Everything a successful pass over a known entry can do. -/
theorem pullEntry_cases {m m' : OflMatch} {rest : Bytes}
    (h : pullEntry m e.header (oxmPutTlv e ++ rest) = .ok m') :
    oxmPrereqsOk f m = true ∧ checkOxmDup m f = false ∧
      ((f.index = inPhyPort ∧ ∃ v w, w.length = 8 ∧
          m' = matchPut (matchPut m e.header v) e.header w) ∨
        (parseDrops m f.index = true ∧ m' = m) ∨
        (f.index ≠ inPhyPort ∧ parseError m f.index (payload e) = none ∧
          parseDrops m f.index = false ∧
          m' = matchPut m e.header (stored f.index (payload e)))) := by
  have hh := header_of_lookup hl
  have hf := mem_oxmFields_of_lookup hl
  rw [pullEntry_known hl hs] at h
  split at h
  · cases h
  next hpre =>
  split at h
  · cases h
  next hdup =>
  refine ⟨by simpa using hpre, by simpa using hdup, ?_⟩
  by_cases hi : f.index = inPhyPort
  · simp only [parseOxmEntry, hi] at h
    split at h
    · cases h
      rw [hh]
      exact .inl ⟨hi, _, _, by simp, rfl⟩
    · cases h
  · rw [parseOxmEntry_eq hf hi (by simp [hs.length_value, hh])] at h
    split at h
    · cases h
    next herr =>
    split at h
    · next hd => cases h; exact .inr (.inl ⟨hd, rfl⟩)
    · next hd =>
      cases h
      rw [hh]
      exact .inr (.inr ⟨hi, herr, by simpa using hd, rfl⟩)

/-- When a pass stores the entry. -/
theorem pullEntry_stores {m : OflMatch} {rest : Bytes} (hi : f.index ≠ inPhyPort)
    (hpre : oxmPrereqsOk f m = true) (hdup : checkOxmDup m f = false)
    (herr : parseError m f.index (payload e) = none) (hd : parseDrops m f.index = false) :
    pullEntry m e.header (oxmPutTlv e ++ rest) =
      .ok (matchPut m e.header (stored f.index (payload e))) := by
  have hh := header_of_lookup hl
  rw [pullEntry_known hl hs, parseOxmEntry_eq (mem_oxmFields_of_lookup hl) hi
    (by simp [hs.length_value, hh])]
  simp [hpre, hdup, herr, hd, hh]

end KnownEntry

theorem pullEntry_unknown {e : OflMatchTlv} (hl : oxmFieldLookup e.header = none) (m : OflMatch)
    (p : Bytes) : pullEntry m e.header p = .error (ofpMkerr ofpetBadMatch ofpbmcBadField) := by
  simp [pullEntry, hl]

/-! ## The decoder on encoded entries -/

/-- The passes of the decoder over encoded entries, with what follows them. -/
def feed (rest : Bytes) : OflMatch → List OflMatchTlv → Except Nat OflMatch
  | m, [] => .ok m
  | m, e :: es => do
    let m ← pullEntry m e.header (oxmPutTlv e ++ (es.flatMap oxmPutTlv ++ rest))
    feed rest m es

/-- `oxm_pull_match` succeeds on encoded entries exactly when every pass does. -/
theorem pullLoop_flatMap {rest : Bytes} {es : List OflMatchTlv} (hs : ∀ e ∈ es, Sized e)
    {m m' : OflMatch} {fuel : Nat} (hfuel : (es.flatMap oxmPutTlv).length ≤ fuel) :
    pullLoop fuel m (es.flatMap oxmPutTlv ++ rest) (es.flatMap oxmPutTlv).length = .ok m' ↔
      feed rest m es = .ok m' := by
  induction es generalizing m fuel with
  | nil =>
    have h0 : oxmEntryOk rest 0 = 0 := by simp [oxmEntryOk]
    cases fuel <;> simp [pullLoop, feed, h0]
  | cons e es ih =>
    have hse := hs e List.mem_cons_self
    have hstail := fun e' he' => hs e' (List.mem_cons_of_mem e he')
    obtain ⟨tail, htail⟩ := oxmPutTlv_prefix hse.mem_sizes
    have hlen4 : 4 ≤ ((e :: es).flatMap oxmPutTlv).length := by simp [htail]
    obtain ⟨fuel, rfl⟩ : ∃ n, fuel = n + 1 := ⟨fuel - 1, by omega⟩
    have hok := oxmEntryOk_eq e.header (tail ++ (es.flatMap oxmPutTlv ++ rest)) hlen4
    rw [← List.append_assoc, ← htail, ← List.append_assoc, ← List.flatMap_cons] at hok
    simp only [pullLoop, feed]
    cases hl : oxmFieldLookup e.header with
    | none =>
      have hne : ((e :: es).flatMap oxmPutTlv).length ≠ 0 := by omega
      -- the header of an entry that is cut off reads as zero, and the loop fails as well
      have hcase : oxmEntryOk ((e :: es).flatMap oxmPutTlv ++ rest)
            ((e :: es).flatMap oxmPutTlv).length = 0 ∨
          oxmEntryOk ((e :: es).flatMap oxmPutTlv ++ rest)
            ((e :: es).flatMap oxmPutTlv).length = e.header := by
        rw [hok]
        split
        · exact .inl rfl
        · split
          · exact .inl rfl
          · exact .inr rfl
      rw [pullEntry_unknown hl, if_pos hne]
      rcases hcase with h0 | h0 <;> rw [h0]
      · simp [bind, Except.bind]
      · rw [pullEntry_unknown hl]
        split <;> simp [bind, Except.bind]
    | some f =>
      rw [hok]
      have hlen := oxmPutTlv_length hl hse
      obtain ⟨hh0, hl0⟩ := known_ne_zero hl
      have hfit : ¬ ((e :: es).flatMap oxmPutTlv).length < oxmLength e.header + 4 := by
        simp [hlen]
        omega
      rw [if_neg hl0, if_neg hfit, if_neg hh0]
      rw [List.flatMap_cons, List.append_assoc]
      cases hp : pullEntry m e.header (oxmPutTlv e ++ (es.flatMap oxmPutTlv ++ rest)) with
      | error err => simp [bind, Except.bind]
      | ok m₁ =>
        have hrest : (oxmPutTlv e ++ (es.flatMap oxmPutTlv ++ rest)).drop
            (4 + oxmLength e.header) = es.flatMap oxmPutTlv ++ rest :=
          List.drop_left' hlen
        have hcount : (oxmPutTlv e ++ es.flatMap oxmPutTlv).length - (4 + oxmLength e.header) =
            (es.flatMap oxmPutTlv).length := by simp [hlen]
        simp only [bind, Except.bind, hrest, hcount]
        refine ih hstail ?_
        rw [List.flatMap_cons, List.length_append, hlen] at hfuel
        omega

end Nox.Oxm

import Nox.Oxm.RoundTrip

/-!
# What the match decoder accepts

The grammar of a match, apart from the decoder: a sequence of TLVs of known fields, each a
header in network order and as many bytes as the header says.  What a match decoded from it
has to be is said of the entries the TLVs stand for.  Every byte string that
`oxm_pull_match` accepts is such a sequence; that the decoded match is the one it stands for
fails where a field stands there with and without mask, where the protocol or the VLAN a
field needs is missing, on an `IN_PHY_PORT`, and on a tunnel id.
-/

namespace Nox.Oxm

open OxmFieldIndex

section Grammar

/-! ## The grammar -/

/-- A TLV on the wire: here `value` is what stands behind the header. -/
def wireBytes (t : OflMatchTlv) : Bytes := beBytes 4 t.header.toNat ++ t.value

/-- The bytes are the TLVs, one after the other, of known fields, masked where they may be. -/
structure TlvSequence (bytes : Bytes) (ts : List OflMatchTlv) : Prop where
  bytes_eq : bytes = ts.flatMap wireBytes
  length : ∀ t ∈ ts, t.value.length = oxmLength t.header
  known : ∀ t ∈ ts, ∃ f, oxmFieldLookup t.header = some f ∧
    (oxmHasmask t.header = true → f.maskable = true)

/-- The fields whose value is a number: it is kept in host order.  Addresses, IPv4 addresses
among them, are kept as they are. -/
def isHostOrder (i : OxmFieldIndex) : Bool :=
  match i with
  | inPort | inPhyPort | metadata | metadataW | ethType | vlanVid | vlanVidW => true
  | tcpSrc | tcpDst | udpSrc | udpDst | sctpSrc | sctpDst | arpOp => true
  | ipv6Flabel | ipv6FlabelW | mplsLabel | pbbIsid | pbbIsidW => true
  | tunnelId | tunnelIdW | ipv6Exthdr | ipv6ExthdrW => true
  | _ => false

/-- The entry a TLV stands for, with the TLV's value and mask. -/
def entryOf (t : OflMatchTlv) : OflMatchTlv :=
  match oxmFieldLookup t.header with
  | some f => if isHostOrder f.index then ⟨t.header, flipWords t.header t.value⟩ else t
  | none => t

end Grammar

section Prerequisites

/-! ## Prerequisites -/

/-- What a field asks of the other entries of a match. -/
inductive Prerequisite
  | inPort
  | vlanVid
  | ethType (types : List Nat)
  | ipProto (proto : Nat)
  deriving DecidableEq

/-- A prerequisite is present with an admissible value. -/
def Prerequisite.Present (es : List OflMatchTlv) : Prerequisite → Prop
  | .inPort => ∃ t ∈ es, t.header = OxmFieldIndex.inPort.header
  | .vlanVid => ∃ t ∈ es, (t.header = OxmFieldIndex.vlanVid.header ∨
      t.header = vlanVidW.header) ∧ load 2 t.value ≠ ofpvidNone
  | .ethType types => ∃ t ∈ es, t.header = OxmFieldIndex.ethType.header ∧ load 2 t.value ∈ types
  | .ipProto proto => ∃ t ∈ es, t.header = OxmFieldIndex.ipProto.header ∧ load 1 t.value = proto

/-- The prerequisites OpenFlow 1.3 gives the fields. -/
def prerequisites : OxmFieldIndex → List Prerequisite
  | inPhyPort => [.inPort]
  | vlanPcp => [.vlanVid]
  | ipDscp | ipEcn | ipProto => [.ethType [0x0800, 0x86dd]]
  | ipv4Src | ipv4SrcW | ipv4Dst | ipv4DstW => [.ethType [0x0800]]
  | tcpSrc | tcpDst => [.ethType [0x0800, 0x86dd], .ipProto 6]
  | udpSrc | udpDst => [.ethType [0x0800, 0x86dd], .ipProto 17]
  | sctpSrc | sctpDst => [.ethType [0x0800, 0x86dd], .ipProto 132]
  | icmpv4Type | icmpv4Code => [.ethType [0x0800], .ipProto 1]
  | arpOp | arpSpa | arpSpaW | arpTpa | arpTpaW | arpSha | arpShaW | arpTha | arpThaW =>
    [.ethType [0x0806]]
  | ipv6Src | ipv6SrcW | ipv6Dst | ipv6DstW | ipv6Flabel | ipv6FlabelW => [.ethType [0x86dd]]
  | icmpv6Type | icmpv6Code | ipv6NdTarget | ipv6NdSll | ipv6NdTll =>
    [.ethType [0x86dd], .ipProto 58]
  | mplsLabel | mplsTc | mplsBos => [.ethType [0x8847, 0x8848]]
  | pbbIsid | pbbIsidW => [.ethType [0x88e7]]
  | ipv6Exthdr | ipv6ExthdrW => [.ethType [0x86dd]]
  | _ => []

/-- The match is the one the bytes stand for. -/
def Decodes (bytes : Bytes) (m : OflMatch) : Prop :=
  ∃ ts, TlvSequence bytes ts ∧ (ts.map fun t => headerField t.header).Nodup ∧
    m.entries.Perm (ts.map entryOf) ∧
    ∀ t ∈ ts, ∀ f, oxmFieldLookup t.header = some f →
      ∀ p ∈ prerequisites f.index, p.Present m.entries

end Prerequisites

section Table

/-! ## The table against the prerequisites -/

theorem putSwaps_eq (i : OxmFieldIndex) : putSwaps i.header = isHostOrder i := by
  cases i <;> rfl

/-- The columns of the table are the prerequisites on types and protocols. -/
theorem prerequisites_eq {f : OxmField} (hf : f ∈ oxmFields) : prerequisites f.index =
    (if f.index = inPhyPort then [.inPort] else []) ++
    (if f.index = vlanPcp then [.vlanVid] else []) ++
    (if f.dlType.1 = 0 then []
      else [.ethType (f.dlType.1 :: if f.dlType.2 = 0 then [] else [f.dlType.2])]) ++
    (if f.nwProto = 0 then [] else [.ipProto f.nwProto]) := by
  revert f
  decide

/-- Two headers of the table are of one field when they are the same, or one is the other
with a mask. -/
theorem headerField_eq_iff {f g : OxmField} (hf : f ∈ oxmFields) (hg : g ∈ oxmFields) :
    headerField f.header = headerField g.header ↔
      f.header = g.header ∨
      (oxmHasmask g.header = false ∧ f.header = oxmMakeWildHeader g.header) ∨
      (oxmHasmask f.header = false ∧ g.header = oxmMakeWildHeader f.header) := by
  have hall : ∀ f ∈ oxmFields, ∀ g ∈ oxmFields, headerField f.header = headerField g.header ↔
      f.header = g.header ∨
      (oxmHasmask g.header = false ∧ f.header = oxmMakeWildHeader g.header) ∨
      (oxmHasmask f.header = false ∧ g.header = oxmMakeWildHeader f.header) := by
    decide +kernel
  exact hall f hf g hg

theorem makeWildHeader_ne {f : OxmField} (hf : f ∈ oxmFields)
    (h : oxmHasmask f.header = false) : oxmMakeWildHeader f.header ≠ f.header := by
  revert f
  decide

end Table

section Entries

/-! ## TLVs and entries -/

variable {t : OflMatchTlv} {f : OxmField}

theorem header_entryOf (t : OflMatchTlv) : (entryOf t).header = t.header := by
  unfold entryOf
  split
  · split <;> rfl
  · rfl

theorem wireBytes_eq (t : OflMatchTlv) : wireBytes t = oxmPutHeader t.header ++ t.value := by
  rw [wireBytes, oxmPutHeader, leBytes_hton]

theorem wireBytes_length (t : OflMatchTlv) : (wireBytes t).length = 4 + t.value.length := by
  simp [wireBytes]

variable (hl : oxmFieldLookup t.header = some f) (hlen : t.value.length = oxmLength t.header)

include hl

theorem entryOf_eq :
    entryOf t = ⟨t.header, if putSwaps t.header then flipWords t.header t.value else t.value⟩ := by
  have hh : t.header = f.index.header := by
    rw [← header_of_lookup hl, header_eq_of_mem (mem_oxmFields_of_lookup hl)]
  have hswap : putSwaps t.header = isHostOrder f.index := by rw [hh, putSwaps_eq]
  unfold entryOf
  rw [hl, hswap]
  dsimp only
  split <;> rfl

include hlen

theorem sized_entryOf : Sized (entryOf t) := by
  have hl' : oxmFieldLookup (entryOf t).header = some f := by rw [header_entryOf, hl]
  apply sized_of_known hl'
  rw [header_entryOf, ← hlen, entryOf_eq hl]
  dsimp only
  split <;> simp

/-- The encoder writes the TLV for its entry. -/
theorem payload_entryOf : payload (entryOf t) = t.value := by
  have hflip : flipWords t.header (flipWords t.header t.value) = t.value := by
    apply flipWords_flipWords
    rw [hlen, ← header_of_lookup hl]
    exact length_of_mem (mem_oxmFields_of_lookup hl)
  rw [entryOf_eq hl]
  unfold payload
  dsimp only
  split
  · exact hflip
  · rfl

theorem oxmPutTlv_entryOf : oxmPutTlv (entryOf t) = wireBytes t := by
  have hl' : oxmFieldLookup (entryOf t).header = some f := by rw [header_entryOf, hl]
  rw [oxmPutTlv_lookup hl' (sized_entryOf hl hlen), payload_entryOf hl hlen, header_entryOf,
    wireBytes_eq]

end Entries

section Sequences

/-! ## Sequences of TLVs -/

variable {bytes buf rest : Bytes} {ts : List OflMatchTlv} {m : OflMatch} {len : Nat}

theorem TlvSequence.sized (h : TlvSequence bytes ts) : ∀ e ∈ ts.map entryOf, Sized e := by
  rw [List.forall_mem_map]
  intro t ht
  obtain ⟨f, hl, -⟩ := h.known t ht
  exact sized_entryOf hl (h.length t ht)

/-- The entries of a sequence are encoded as its bytes. -/
theorem TlvSequence.encoded (h : TlvSequence bytes ts) :
    (ts.map entryOf).flatMap oxmPutTlv = bytes := by
  rw [h.bytes_eq, List.flatMap_map]
  apply List.flatMap_congr
  intro t ht
  obtain ⟨f, hl, -⟩ := h.known t ht
  exact oxmPutTlv_entryOf hl (h.length t ht)

theorem TlvSequence.tail {t : OflMatchTlv} (h : TlvSequence bytes (t :: ts)) :
    ∃ tail, bytes = wireBytes t ++ tail ∧ TlvSequence tail ts := by
  refine ⟨ts.flatMap wireBytes, by rw [h.bytes_eq, List.flatMap_cons], rfl, ?_, ?_⟩
  · exact fun u hu => h.length u (List.mem_cons_of_mem t hu)
  · exact fun u hu => h.known u (List.mem_cons_of_mem t hu)

theorem header_of_wireBytes (t : OflMatchTlv) (tail : Bytes) :
    UInt32.ofNat (hton 4 (load 4 (wireBytes t ++ tail))) = t.header := by
  rw [wireBytes_eq, List.append_assoc, ofNat_hton_load_header]

/-- Bytes are read as TLVs in one way. -/
theorem TlvSequence.unique {us : List OflMatchTlv} (h : TlvSequence bytes ts)
    (h' : TlvSequence bytes us) : ts = us := by
  induction ts generalizing bytes us with
  | nil =>
    have hnil := h.bytes_eq
    cases us with
    | nil => rfl
    | cons u us =>
      obtain ⟨tail, htail, -⟩ := h'.tail
      have hlen := congrArg List.length (hnil.symm.trans htail)
      simp [wireBytes_length] at hlen
      omega
  | cons t ts ih =>
    obtain ⟨tail, htail, hts⟩ := h.tail
    cases us with
    | nil =>
      have hnil := h'.bytes_eq
      have hlen := congrArg List.length (hnil.symm.trans htail)
      simp [wireBytes_length] at hlen
      omega
    | cons u us =>
      obtain ⟨tail', htail', hus⟩ := h'.tail
      have hheader : t.header = u.header := by
        rw [← header_of_wireBytes t tail, ← htail, htail', header_of_wireBytes]
      have hvalue : t.value.length = u.value.length := by
        rw [h.length t List.mem_cons_self, h'.length u List.mem_cons_self, hheader]
      have hboth := htail.symm.trans htail'
      obtain ⟨hwire, rfl⟩ := List.append_inj hboth (by rw [wireBytes_length, wireBytes_length,
        hvalue])
      have heq : t = u := by
        rw [wireBytes, wireBytes, hheader] at hwire
        obtain ⟨th, tv⟩ := t
        obtain ⟨uh, uv⟩ := u
        cases hheader
        cases List.append_cancel_left hwire
        rfl
      rw [heq, ih hts hus]

/-- A header that is read stands at the front of the bytes, with its value behind it. -/
theorem wireBytes_of_entryOk {p : Bytes} (hp : len ≤ p.length) (h : oxmEntryOk p len ≠ 0) :
    ∃ t : OflMatchTlv, t.header = oxmEntryOk p len ∧ t.value.length = oxmLength t.header ∧
      p.take len = wireBytes t ++
        (p.drop (4 + oxmLength t.header)).take (len - (4 + oxmLength t.header)) := by
  unfold oxmEntryOk at h ⊢
  dsimp only at h ⊢
  split at h
  · exact absurd rfl h
  split at h
  · exact absurd rfl h
  split at h
  · exact absurd rfl h
  next hfour hzero hfits =>
  rw [if_neg hfour, if_neg hzero, if_neg hfits]
  generalize hheader : UInt32.ofNat (hton 4 (load 4 p)) = header at hfits ⊢
  have hvalue : ((p.drop 4).take (oxmLength header)).length = oxmLength header := by
    rw [List.length_take, List.length_drop]
    omega
  refine ⟨⟨header, (p.drop 4).take (oxmLength header)⟩, rfl, hvalue, ?_⟩
  have hfront : beBytes 4 header.toNat = p.take 4 := by
    have hnat : header.toNat = hton 4 (load 4 p) := by
      rw [← hheader, UInt32.toNat_ofNat']
      exact Nat.mod_eq_of_lt (hton_lt 4 _)
    have hload : load 4 p < 256 ^ 4 := by
      have hlt := leNat_lt (p.take 4)
      rwa [List.length_take, Nat.min_eq_left (by omega)] at hlt
    rw [← leBytes_hton, hnat, hton_hton hload, leBytes_load (by omega)]
  have hsplit : len = 4 + (oxmLength header + (len - (4 + oxmLength header))) := by omega
  rw [wireBytes, hfront]
  dsimp only
  conv => lhs; rw [hsplit, List.take_add, List.take_add, List.drop_drop]
  rw [List.append_assoc]

/-- What the loop accepts is a sequence of TLVs with nothing left over. -/
theorem tlvSequence_of_pullLoop {fuel : Nat} {m m' : OflMatch} {p : Bytes}
    (hp : len ≤ p.length) (h : pullLoop fuel m p len = .ok m') :
    ∃ ts, TlvSequence (p.take len) ts := by
  induction fuel generalizing m p len with
  | zero =>
    unfold pullLoop at h
    split at h
    · cases h
    · next hzero =>
      refine ⟨[], ?_, List.forall_mem_nil _, List.forall_mem_nil _⟩
      rw [not_not.mp hzero]
      rfl
  | succ fuel ih =>
    unfold pullLoop at h
    dsimp only at h
    split at h
    · split at h
      · cases h
      · next hzero =>
        refine ⟨[], ?_, List.forall_mem_nil _, List.forall_mem_nil _⟩
        rw [not_not.mp hzero]
        rfl
    · next hheader =>
      simp only [bind, Except.bind] at h
      split at h
      · cases h
      next m₁ hpull =>
      have hloop := h
      obtain ⟨t, ht, hlen, hbytes⟩ := wireBytes_of_entryOk hp hheader
      rw [← ht] at hpull hloop
      have hle : 4 + oxmLength t.header ≤ len := by
        have hcount := congrArg List.length hbytes
        rw [List.length_append, wireBytes_length, List.length_take, hlen] at hcount
        omega
      obtain ⟨ts, hts⟩ := ih (by rw [List.length_drop]; omega) hloop
      obtain ⟨f, hl, hmask⟩ : ∃ f, oxmFieldLookup t.header = some f ∧
          (oxmHasmask t.header = true → f.maskable = true) := by
        unfold pullEntry at hpull
        split at hpull
        · cases hpull
        · next f hl =>
          refine ⟨f, hl, fun hm => ?_⟩
          by_contra hno
          have hfalse : f.maskable = false := by simpa using hno
          rw [hm, hfalse] at hpull
          cases hpull
      refine ⟨t :: ts, ?_, ?_, ?_⟩
      · rw [hbytes, hts.bytes_eq, List.flatMap_cons]
      · rw [List.forall_mem_cons]
        exact ⟨hlen, hts.length⟩
      · rw [List.forall_mem_cons]
        exact ⟨⟨f, hl, hmask⟩, hts.known⟩

/-- A match that is pulled off a buffer is fed its entries. -/
theorem feed_of_pull (h : oxmPullMatch buf len = .ok (m, rest))
    (hts : TlvSequence (buf.take len) ts) :
    rest = buf.drop len ∧ feed (buf.drop len) oflStructsMatchInit (ts.map entryOf) = .ok m := by
  unfold oxmPullMatch at h
  split at h
  · cases h
  next hlt =>
  simp only [bind, Except.bind] at h
  split at h
  · cases h
  next m₁ hloop =>
  cases h
  have hfuel : ((ts.map entryOf).flatMap oxmPutTlv).length ≤ len := by
    rw [hts.encoded, List.length_take]
    omega
  refine ⟨rfl, (pullLoop_flatMap hts.sized hfuel).mp ?_⟩
  rw [hts.encoded, List.take_append_drop, List.length_take, Nat.min_eq_left (by omega)]
  exact hloop

theorem tlvSequence_of_pull (h : oxmPullMatch buf len = .ok (m, rest)) :
    ∃ ts, TlvSequence (buf.take len) ts := by
  unfold oxmPullMatch at h
  split at h
  · cases h
  next hlt =>
  simp only [bind, Except.bind] at h
  split at h
  · cases h
  next m₁ hloop => exact tlvSequence_of_pullLoop (by omega) hloop

end Sequences

section Passes

/-! ## What is stored -/

variable {rest : Bytes} {m m' : OflMatch} {e : OflMatchTlv} {es acc : List OflMatchTlv}
  {f : OxmField}

theorem parseError_of_pull (hl : oxmFieldLookup e.header = some f) (hs : Sized e)
    (hi : f.index ≠ inPhyPort) (h : pullEntry m e.header (oxmPutTlv e ++ rest) = .ok m') :
    parseError m f.index (payload e) = none := by
  rw [pullEntry_known hl hs] at h
  split at h
  · cases h
  split at h
  · cases h
  rw [parseOxmEntry_eq (mem_oxmFields_of_lookup hl) hi
    (by simp [hs.length_value, header_of_lookup hl])] at h
  split at h
  · cases h
  · assumption

/-- A header that is stored does not come again. -/
theorem feed_fresh (hs : ∀ e ∈ es, Sized e) (h : feed rest m es = .ok m') :
    ∀ e ∈ es, ∀ t ∈ m.entries, t.header ≠ e.header := by
  induction es generalizing m with
  | nil => exact fun _ he => nomatch he
  | cons e es ih =>
    have hs' := fun t ht => hs t (List.mem_cons_of_mem e ht)
    obtain ⟨m₁, f, hl, hpull, hfeed⟩ := feed_cons_ok h
    obtain ⟨-, hdup, hcases⟩ := pullEntry_cases hl (hs e List.mem_cons_self) hpull
    have hkept : ∀ t ∈ m.entries, t ∈ m₁.entries := by
      intro t ht
      have hput {m : OflMatch} {v : Bytes} (ht : t ∈ m.entries) :
          t ∈ (matchPut m e.header v).entries :=
        (entries_matchPut _ _ _).mem_iff.mpr (List.mem_cons_of_mem _ ht)
      rcases hcases with ⟨-, v, w, -, rfl⟩ | ⟨-, rfl⟩ | ⟨-, -, -, rfl⟩
      · exact hput (hput ht)
      · exact ht
      · exact hput ht
    rw [List.forall_mem_cons]
    constructor
    · intro t ht
      rw [← header_of_lookup hl]
      exact checkOxmDup_eq_false_iff.mp hdup t ht
    · exact fun u hu t ht => ih hs' hfeed u hu t (hkept t ht)

theorem echo_of_vlanVid (h : e.header = vlanVid.header) : echo e = e := by
  rw [echo_eq_iff, h]
  exact fun hor => absurd hor (by decide)

/-- Without `IN_PHY_PORT`, and with a VLAN for each `VLAN_PCP`, all entries are stored. -/
theorem enter_of_feed_vlan (hs : ∀ e ∈ es, Sized e)
    (hphy : ∀ e ∈ es, e.header ≠ inPhyPort.header)
    (hvlan : ∀ e ∈ es, e.header = vlanPcp.header → HasVlan (acc ++ es))
    (hp : m.entries.Perm acc) (hnd : Distinct acc) (h : feed rest m es = .ok m') :
    Enter acc es ∧ m'.entries.Perm (es.map echo ++ acc) := by
  induction es generalizing m acc with
  | nil =>
    cases h
    exact ⟨.nil, hp⟩
  | cons e es ih =>
    have hs' := fun t ht => hs t (List.mem_cons_of_mem e ht)
    have hphy' := fun t ht => hphy t (List.mem_cons_of_mem e ht)
    have hfresh := feed_fresh hs h
    obtain ⟨m₁, f, hl, hpull, hfeed⟩ := feed_cons_ok h
    have hse := hs e List.mem_cons_self
    have hi : f.index ≠ inPhyPort := fun hi =>
      hphy e List.mem_cons_self ((index_eq_iff hl inPhyPort).mp hi)
    obtain ⟨hpre, hdup, ⟨hphy', -⟩ | ⟨hdrop, rfl⟩ | ⟨-, herr, hd, rfl⟩⟩ :=
      pullEntry_cases hl hse hpull
    · exact absurd hphy' hi
    · -- a `VLAN_PCP` is dropped: the VLAN that is there has to be the one that is stored
      exfalso
      have hpcp : f.index = vlanPcp := by
        unfold parseDrops at hdrop
        simpa using (Bool.and_eq_true_iff.mp hdrop).1
      have hheader := (index_eq_iff hl vlanPcp).mp hpcp
      have herr := parseError_of_pull hl hse hi hpull
      rw [hpcp] at hdrop herr
      have hpresent : checkPresentPrereq m₁ vlanVid.header = true := by
        by_contra hno
        rw [parseError, if_neg hno] at herr
        cases herr
      obtain ⟨t, ht, hth, htv⟩ := hvlan e List.mem_cons_self hheader
      rcases List.mem_append.mp ht with ht | ht
      · have hhas : HasVlan m₁.entries := ⟨t, hp.mem_iff.mpr ht, hth, htv⟩
        have hstored := ((vlanPcp_stored_iff (hnd.perm hp.symm)).mpr hhas).2
        rw [hstored] at hdrop
        cases hdrop
      · rcases List.mem_cons.mp ht with rfl | ht
        · rw [hth] at hheader
          exact absurd hheader (by decide)
        · rw [checkPresentPrereq, OflMatch.withHash_eq, Bool.not_eq_true',
            List.isEmpty_eq_false_iff_exists_mem] at hpresent
          obtain ⟨u, hu⟩ := hpresent
          obtain ⟨hu, huh⟩ := List.mem_filter.mp hu
          have heq : u.header = t.header := by rw [hth]; simpa using huh
          exact feed_fresh hs' hfeed t ht u hu heq
    · have hput : (⟨e.header, stored f.index (payload e)⟩ : OflMatchTlv) = echo e :=
        stored_payload hl hse
      have hp' : (matchPut m e.header (stored f.index (payload e))).entries.Perm
          (echo e :: acc) := by
        rw [← hput]
        exact (entries_matchPut _ _ _).trans (hp.cons _)
      have hfit : Fits acc e f := by
        rw [parseError_eq_none_iff hl hse] at herr
        rw [oxmPrereqsOk_eq] at hpre
        rw [checkOxmDup_eq_false_iff, header_of_lookup hl] at hdup
        have hfit : Fits m.entries e f :=
          { lookup := hl, index_ne := hi, prereqs := hpre, fresh := hdup, admissible := herr.1
            vlan := fun hv =>
              (vlanPcp_stored_iff (hnd.perm hp.symm)).mp ⟨herr.2 hv, hv ▸ hd⟩ }
        exact hfit.perm hp
      have hvlan' : ∀ t ∈ es, t.header = vlanPcp.header → HasVlan (echo e :: acc ++ es) := by
        intro t ht hth
        obtain ⟨u, hu, huh, huv⟩ := hvlan t (List.mem_cons_of_mem e ht) hth
        refine ⟨u, ?_, huh, huv⟩
        rcases List.mem_append.mp hu with hu | hu
        · exact List.mem_append_left _ (List.mem_cons_of_mem _ hu)
        · rcases List.mem_cons.mp hu with rfl | hu
          · rw [echo_of_vlanVid huh]
            exact List.mem_append_left _ List.mem_cons_self
          · exact List.mem_append_right _ hu
      obtain ⟨henter, hperm⟩ :=
        ih hs' (fun t ht => hphy t (List.mem_cons_of_mem e ht)) hvlan' hp'
          (distinct_cons_echo hnd hfit) hfeed
      exact ⟨.cons hfit henter, hperm.trans List.perm_middle⟩

end Passes

section Acceptance

/-! ## Where the decoder goes wrong -/

/-- What the TLVs of an accepted match have to be like for the match to be the one they stand
for. -/
structure Plain (ts : List OflMatchTlv) : Prop where
  unmixed : ∀ t ∈ ts, oxmHasmask t.header = false →
    ∀ u ∈ ts, u.header ≠ oxmMakeWildHeader t.header
  inPhyPort : ∀ t ∈ ts, t.header ≠ inPhyPort.header
  tunnelId : ∀ t ∈ ts, t.header = tunnelId.header ∨ t.header = tunnelIdW.header →
    flipWords t.header t.value = t.value
  ipProto : ∀ t ∈ ts, ∀ f, oxmFieldLookup t.header = some f → f.nwProto ≠ 0 →
    (Prerequisite.ipProto f.nwProto).Present (ts.map entryOf)
  vlanPcp : ∀ t ∈ ts, t.header = vlanPcp.header → HasVlan (ts.map entryOf)

variable {bytes buf rest : Bytes} {ts : List OflMatchTlv} {m : OflMatch} {len : Nat}

theorem echo_entryOf {t : OflMatchTlv} {f : OxmField} (hl : oxmFieldLookup t.header = some f)
    (hlen : t.value.length = oxmLength t.header) :
    echo (entryOf t) = entryOf t ↔ (t.header = tunnelId.header ∨ t.header = tunnelIdW.header →
      flipWords t.header t.value = t.value) := by
  have hflip : flipWords t.header (flipWords t.header t.value) = t.value := by
    apply flipWords_flipWords
    rw [hlen, ← header_of_lookup hl]
    exact length_of_mem (mem_oxmFields_of_lookup hl)
  rw [echo_eq_iff, header_entryOf]
  apply imp_congr_right
  intro htunnel
  have hswap : putSwaps t.header = true := by
    rcases htunnel with h | h <;> rw [h] <;> decide
  rw [entryOf_eq hl, if_pos hswap]
  dsimp only
  rw [hflip]
  exact eq_comm

/-- Without a mixed field, TLVs with different headers are of different fields. -/
theorem headerField_nodup_of_plain (hts : TlvSequence bytes ts) (hplain : Plain ts)
    (hnd : (ts.map (·.header)).Nodup) : (ts.map fun t => headerField t.header).Nodup := by
  apply List.Nodup.map_on ?_ (List.Nodup.of_map _ hnd)
  intro t ht u hu heq
  obtain ⟨f, hl, -⟩ := hts.known t ht
  obtain ⟨g, hl', -⟩ := hts.known u hu
  have hcases := headerField_eq_iff (mem_oxmFields_of_lookup hl) (mem_oxmFields_of_lookup hl')
  rw [header_of_lookup hl, header_of_lookup hl'] at hcases
  rcases hcases.mp heq with h | ⟨hm, h⟩ | ⟨hm, h⟩
  · exact List.inj_on_of_nodup_map hnd ht hu h
  · exact absurd h (hplain.unmixed u hu hm t ht)
  · exact absurd h (hplain.unmixed t ht hm u hu)

theorem distinct_entryOf : Distinct (ts.map entryOf) ↔ (ts.map (·.header)).Nodup := by
  unfold Distinct
  rw [List.map_map]
  have heq : (fun e : OflMatchTlv => e.header) ∘ entryOf = fun t => t.header := by
    funext t
    exact header_entryOf t
  rw [heq]

/-- Entries that have entered have the prerequisites of the table. -/
theorem present_of_enter {es : List OflMatchTlv} (henter : Enter [] es)
    (hecho : ∀ e ∈ es, echo e = e) {e : OflMatchTlv} (he : e ∈ es) {f : OxmField}
    (hl : oxmFieldLookup e.header = some f)
    (hproto : f.nwProto ≠ 0 → (Prerequisite.ipProto f.nwProto).Present es) :
    ∀ p ∈ prerequisites f.index, p.Present es := by
  obtain ⟨pre, post, rfl⟩ := List.append_of_mem he
  obtain ⟨g, hfit⟩ := (enter_iff hecho).mp henter pre e post rfl
  cases hl.symm.trans hfit.lookup
  rw [List.append_nil] at hfit
  have hmem : ∀ t ∈ pre, t ∈ pre ++ e :: post := fun t ht => List.mem_append_left _ ht
  intro p hp
  rw [prerequisites_eq (mem_oxmFields_of_lookup hl)] at hp
  simp only [List.mem_append] at hp
  rcases hp with ((hp | hp) | hp) | hp
  · rw [if_neg hfit.index_ne] at hp
    cases hp
  · split at hp
    · next hi =>
      cases List.mem_singleton.mp hp
      obtain ⟨t, ht, hth, htv⟩ := hfit.vlan hi
      exact ⟨t, hmem t ht, .inl hth, htv⟩
    · cases hp
  · split at hp
    · cases hp
    · next hdl =>
      cases List.mem_singleton.mp hp
      have hpre := (Bool.and_eq_true_iff.mp hfit.prereqs).2
      have hany : (withHeader ethType.header pre).any (fun t => f.dlType.1 == load 2 t.value ||
          (f.dlType.2 != 0 && f.dlType.2 == load 2 t.value)) = true := by
        simpa [hdl] using hpre
      obtain ⟨t, ht, htype⟩ := List.any_eq_true.mp hany
      obtain ⟨ht, hth⟩ := List.mem_filter.mp ht
      refine ⟨t, hmem t ht, by simpa using hth, ?_⟩
      rw [Bool.or_eq_true, beq_iff_eq] at htype
      rcases htype with htype | htype
      · rw [← htype]
        exact List.mem_cons_self
      · rw [Bool.and_eq_true, bne_iff_ne, beq_iff_eq] at htype
        rw [if_neg htype.1, ← htype.2]
        exact List.mem_cons_of_mem _ List.mem_cons_self
  · split at hp
    · cases hp
    · next hne =>
      cases List.mem_singleton.mp hp
      exact hproto hne

theorem Prerequisite.Present.of_mem {p : Prerequisite} {es es' : List OflMatchTlv}
    (h : p.Present es) (hmem : ∀ e ∈ es, e ∈ es') : p.Present es' := by
  cases p <;> exact h.imp fun t ht => ⟨hmem t ht.1, ht.2⟩

/-- A match that is the one its bytes stand for has plain TLVs. -/
theorem plain_of_decodes (hts : TlvSequence bytes ts)
    (hfeed : feed rest oflStructsMatchInit (ts.map entryOf) = .ok m) (h : Decodes bytes m) :
    Plain ts := by
  obtain ⟨ts', hts', hnodup, hperm, hpresent⟩ := h
  obtain rfl := hts'.unique hts
  have hs := hts.sized
  have hinit : oflStructsMatchInit.entries.Perm [] := .refl []
  have hphy : ∀ e ∈ ts'.map entryOf, e.header ≠ inPhyPort.header := by
    intro e he hh
    -- the doubled entry is longer than any entry of a TLV
    obtain ⟨t, ht, hth, hlen⟩ := feed_inPhyPort hs hfeed he hh
    have hsz := (hs t (hperm.mem_iff.mp ht)).length_value
    rw [hth, hlen] at hsz
    exact absurd hsz (by decide)
  obtain ⟨henter, hechoes⟩ :=
    (enter_of_feed hs hphy hinit List.nodup_nil hfeed).2 (by simpa using hperm.length_eq)
  rw [List.append_nil] at hechoes
  have hnd : Distinct (ts'.map entryOf) := by
    simpa using distinct_of_enter henter List.nodup_nil
  have hecho := echo_eq_of_perm hnd (hechoes.symm.trans hperm)
  constructor
  · intro t ht hm u hu heq
    obtain ⟨f, hl, -⟩ := hts.known t ht
    obtain ⟨g, hl', -⟩ := hts.known u hu
    have hf := mem_oxmFields_of_lookup hl
    have hfields : headerField u.header = headerField t.header := by
      have hiff := headerField_eq_iff (mem_oxmFields_of_lookup hl') hf
      rw [header_of_lookup hl, header_of_lookup hl'] at hiff
      exact hiff.mpr (.inr (.inl ⟨hm, heq⟩))
    cases List.inj_on_of_nodup_map hnodup hu ht hfields
    have hne := makeWildHeader_ne hf
    rw [header_of_lookup hl] at hne
    exact hne hm heq.symm
  · intro t ht
    rw [← header_entryOf]
    exact hphy _ (List.mem_map_of_mem ht)
  · intro t ht
    obtain ⟨f, hl, -⟩ := hts.known t ht
    exact (echo_entryOf hl (hts.length t ht)).mp (hecho _ (List.mem_map_of_mem ht))
  · intro t ht f hl hne
    have hmem : Prerequisite.ipProto f.nwProto ∈ prerequisites f.index := by
      rw [prerequisites_eq (mem_oxmFields_of_lookup hl), if_neg hne]
      exact List.mem_append_right _ List.mem_cons_self
    exact (hpresent t ht f hl _ hmem).of_mem fun e he => hperm.mem_iff.mp he
  · intro t ht hh
    obtain ⟨pre, post, hsplit⟩ := List.append_of_mem (List.mem_map_of_mem (f := entryOf) ht)
    obtain ⟨f, hfit⟩ := (enter_iff hecho).mp henter pre _ post hsplit
    have hi := (index_eq_iff hfit.lookup vlanPcp).mpr (by rw [header_entryOf, hh])
    obtain ⟨u, hu, hvlan⟩ := hfit.vlan hi
    rw [List.append_nil] at hu
    exact ⟨u, hsplit ▸ List.mem_append_left _ hu, hvlan⟩

/-- Plain TLVs are stored one by one. -/
theorem decodes_of_plain (hts : TlvSequence bytes ts)
    (hfeed : feed rest oflStructsMatchInit (ts.map entryOf) = .ok m) (h : Plain ts) :
    Decodes bytes m := by
  have hs := hts.sized
  have hinit : oflStructsMatchInit.entries.Perm [] := .refl []
  have hphy : ∀ e ∈ ts.map entryOf, e.header ≠ inPhyPort.header := by
    rw [List.forall_mem_map]
    intro t ht
    rw [header_entryOf]
    exact h.inPhyPort t ht
  have hvlan : ∀ e ∈ ts.map entryOf, e.header = vlanPcp.header →
      HasVlan ([] ++ ts.map entryOf) := by
    rw [List.forall_mem_map]
    intro t ht hh
    rw [header_entryOf] at hh
    exact h.vlanPcp t ht hh
  have hecho : ∀ e ∈ ts.map entryOf, echo e = e := by
    rw [List.forall_mem_map]
    intro t ht
    obtain ⟨f, hl, -⟩ := hts.known t ht
    exact (echo_entryOf hl (hts.length t ht)).mpr (h.tunnelId t ht)
  obtain ⟨henter, hperm⟩ :=
    enter_of_feed_vlan hs hphy hvlan hinit List.nodup_nil hfeed
  rw [List.append_nil, List.map_congr_left hecho, List.map_id'] at hperm
  have hnd : Distinct (ts.map entryOf) := by
    simpa using distinct_of_enter henter List.nodup_nil
  refine ⟨ts, hts, headerField_nodup_of_plain hts h (distinct_entryOf.mp hnd), hperm, ?_⟩
  intro t ht f hl p hp
  have hl' : oxmFieldLookup (entryOf t).header = some f := by rw [header_entryOf, hl]
  have hpresent := present_of_enter henter hecho (List.mem_map_of_mem ht) hl'
    (h.ipProto t ht f hl) p hp
  exact hpresent.of_mem fun e he => hperm.mem_iff.mpr he

/-- An accepted match is the one its bytes stand for exactly when no field stands there with
and without mask, no `IN_PHY_PORT` does, tunnel ids read the same in both byte orders, and
the protocol or the VLAN a field needs is there. -/
theorem decodes_iff (h : oxmPullMatch buf len = .ok (m, rest)) :
    Decodes (buf.take len) m ∧ rest = buf.drop len ↔
      ∀ ts, TlvSequence (buf.take len) ts → Plain ts := by
  constructor
  · rintro ⟨hdec, -⟩ ts hts
    exact plain_of_decodes hts (feed_of_pull h hts).2 hdec
  · intro hall
    obtain ⟨ts, hts⟩ := tlvSequence_of_pull h
    obtain ⟨hrest, hfeed⟩ := feed_of_pull h hts
    exact ⟨decodes_of_plain hts hfeed (hall ts hts), hrest⟩

/-- The TLV of the Ethernet type of IPv4. -/
def ethTypeIpTlv : OflMatchTlv := ⟨ethType.header, [0x08, 0x00]⟩

/-- The TLV of the TCP port 80. -/
def tcpDstTlv : OflMatchTlv := ⟨tcpDst.header, [0, 80]⟩

theorem tlvSequence_ethType : TlvSequence (wireBytes ethTypeIpTlv) [ethTypeIpTlv] where
  bytes_eq := (List.append_nil _).symm
  length := by decide
  known := by
    rw [List.forall_mem_singleton]
    exact ⟨defineField ethType oxmDlNone 0 false, rfl, nofun⟩

/-- A match on the Ethernet type alone is decoded as it stands. -/
theorem ethType_decodes : ∃ m, oxmPullMatch (wireBytes ethTypeIpTlv) 6 = .ok (m, []) ∧
    Decodes (wireBytes ethTypeIpTlv) m := by
  have hpull : ∃ m, oxmPullMatch (wireBytes ethTypeIpTlv) 6 = .ok (m, []) := ⟨_, rfl⟩
  obtain ⟨m, hm⟩ := hpull
  refine ⟨m, hm, ((decodes_iff hm).mpr fun ts hts => ?_).1⟩
  cases hts.unique tlvSequence_ethType
  refine ⟨by decide, by decide, by decide, ?_, ?_⟩
  · rw [List.forall_mem_singleton]
    intro f hl
    cases (Option.some.inj hl : defineField ethType oxmDlNone 0 false = f)
    exact fun hne => absurd rfl hne
  · rw [List.forall_mem_singleton]
    exact fun hh => absurd hh (by decide)

/-- A TCP port is accepted without the protocol. -/
theorem tcp_without_ipProto :
    ∃ m, oxmPullMatch (wireBytes ethTypeIpTlv ++ wireBytes tcpDstTlv) 12 = .ok (m, []) ∧
      ¬Decodes (wireBytes ethTypeIpTlv ++ wireBytes tcpDstTlv) m := by
  have hts : TlvSequence (wireBytes ethTypeIpTlv ++ wireBytes tcpDstTlv)
      [ethTypeIpTlv, tcpDstTlv] :=
    { bytes_eq := by simp
      length := by decide
      known := by
        rw [List.forall_mem_cons, List.forall_mem_singleton]
        exact ⟨⟨defineField ethType oxmDlNone 0 false, rfl, nofun⟩,
          ⟨defineField tcpDst oxmDlIpAny ipprotoTcp false, rfl, nofun⟩⟩ }
  refine ⟨_, rfl, ?_⟩
  rintro ⟨ts, hts', -, hperm, hpresent⟩
  cases hts'.unique hts
  obtain ⟨t, ht, hth, -⟩ := hpresent tcpDstTlv (by simp)
    (defineField tcpDst oxmDlIpAny ipprotoTcp false) rfl (.ipProto 6) (by decide)
  have hmem := hperm.mem_iff.mp ht
  revert hth
  revert t
  decide

end Acceptance

end Nox.Oxm

import Nox.Interserver.MatchMemory
import Nox.Ofl.Lengths

/-!
# The packed size of a match

`Flow::Add_Field` counts the length of a match as the fields are added, `oxm_put_match` writes them
later, each by the width and the mask of its header.  The two agree, and what is packed stays in
the space that is left for it, as long as no field of one byte has a mask, no field of another width
is given as an Ethernet address, and the length has sixteen bits.
-/

namespace Nox.Interserver

open Nox.Oxm OxmFieldIndex
open Ofl
open Stores (Store)

section Calls

/-! ## Calls of `Add_Field` -/

/-- What a pointer points to: the memory from there on, as far as `memcpy` can read it. -/
structure Pointed where
  bytes : Bytes
  enough : 255 ≤ bytes.length

/-- A call of `Flow::Add_Field`, by the overload that is taken. -/
inductive AddField
  -- `(std::string, T)`
  | plain (name : String) (value : Pointed)
  -- `(std::string, T, T)`
  | masked (name : String) (value mask : Pointed)
  -- `(std::string, uint8_t[ETH_ADDR_LEN])`
  | address (name : String) (value : Pointed)
  -- `(std::string, uint8_t[ETH_ADDR_LEN], uint8_t[ETH_ADDR_LEN])`
  | addressMasked (name : String) (value mask : Pointed)
  -- `(std::string, std::string)`, and what is in `addr` before
  | text (name value : String) (addr : Pointed)

/-- An `ethernetaddr` of a text that is none throws, and nothing is added. -/
def AddField.run (f : OflMatch) : AddField → OflMatch
  | .plain name value => addField f name value.bytes
  | .masked name value mask => addFieldMasked f name value.bytes mask.bytes
  | .address name value =>
    match findField name with
    | none => f
    | some fld => oflStructsMatchPutEth f fld.index.header value.bytes
  | .addressMasked name value mask =>
    match findField name with
    | none => f
    | some fld =>
      oflStructsMatchPutEthM f (oxmMakeWildHeader fld.index.header) value.bytes mask.bytes
  | .text name value addr =>
    match findField name with
    | none => f
    | some fld =>
      if fld.size = ethAddrLen then
        match ethernetaddr value with
        | none => f
        | some octet => oflStructsMatchPutEth f fld.index.header octet
      else oflStructsMatchPut f fld.index.header ((ipv6addr value).getD addr.bytes)

/-- The match of a `Flow` after calls of `Add_Field`. -/
def matchOf (calls : List AddField) : OflMatch :=
  calls.foldl AddField.run oflStructsMatchInit

/-- The entry a call adds. -/
def AddField.tlv : AddField → Option OflMatchTlv
  | .plain name value => (findField name).map fun fld =>
    ⟨fld.index.header, value.bytes.take (oxmLength fld.index.header)⟩
  | .masked name value mask => (findField name).map fun fld =>
    let header := oxmMakeWildHeader fld.index.header
    ⟨header, value.bytes.take (oxmLength header / 2) ++ mask.bytes.take (oxmLength header / 2)⟩
  | .address name value => (findField name).map fun fld =>
    ⟨fld.index.header, value.bytes.take ethAddrLen⟩
  | .addressMasked name value mask => (findField name).map fun fld =>
    ⟨oxmMakeWildHeader fld.index.header,
      value.bytes.take ethAddrLen ++ mask.bytes.take ethAddrLen⟩
  | .text name value addr => (findField name).bind fun fld =>
    if fld.size = ethAddrLen then
      (ethernetaddr value).map fun octet => ⟨fld.index.header, octet.take ethAddrLen⟩
    else some ⟨fld.index.header,
      ((ipv6addr value).getD addr.bytes).take (oxmLength fld.index.header)⟩

theorem AddField.run_eq (c : AddField) (f : OflMatch) :
    c.run f = c.tlv.elim f fun e => matchPut f e.header e.value := by
  cases c with
  | plain name value =>
    simp only [run, tlv, addField]
    cases findField name <;> rfl
  | masked name value mask =>
    simp only [run, tlv, addFieldMasked]
    cases findField name <;> rfl
  | address name value =>
    simp only [run, tlv]
    cases findField name <;> rfl
  | addressMasked name value mask =>
    simp only [run, tlv]
    cases findField name <;> rfl
  | text name value addr =>
    simp only [run, tlv]
    cases findField name with
    | none => rfl
    | some fld =>
      simp only [Option.bind_some]
      split
      · cases ethernetaddr value <;> rfl
      · rfl

/-- The calls add their entries to those of the match. -/
theorem entries_foldl (calls : List AddField) (f : OflMatch) :
    (calls.foldl AddField.run f).entries.Perm (calls.filterMap AddField.tlv ++ f.entries) := by
  induction calls generalizing f with
  | nil => exact .refl _
  | cons c calls ih =>
    have hrest := ih (c.run f)
    rw [c.run_eq] at hrest
    rw [List.foldl_cons, c.run_eq]
    cases htlv : c.tlv with
    | none =>
      rw [htlv] at hrest
      rw [List.filterMap_cons_none htlv]
      exact hrest
    | some e =>
      rw [htlv] at hrest
      rw [List.filterMap_cons_some htlv]
      exact (hrest.trans ((entries_matchPut f e.header e.value).append_left _)).trans
        List.perm_middle

theorem entries_matchOf (calls : List AddField) :
    (matchOf calls).entries.Perm (calls.filterMap AddField.tlv) := by
  simpa [matchOf] using entries_foldl calls oflStructsMatchInit

theorem measured_matchOf (calls : List AddField) : Measured (matchOf calls) := by
  have hfold : ∀ f, Measured f → Measured (calls.foldl AddField.run f) := by
    induction calls with
    | nil => exact fun f hf => hf
    | cons c calls ih =>
      intro f hf
      refine ih (c.run f) ?_
      rw [c.run_eq]
      cases c.tlv with
      | none => exact hf
      | some e => exact hf.put e.header e.value
  exact hfold _ ⟨rfl, rfl⟩

end Calls

section Space

/-! ## The space for a match -/

/-- The functions that have a match packed. -/
inductive MatchCaller
  | packetIn
  | flowRemoved
  | flowMod
  | flowStatsRequest
  | flowStats

/-- `HOST_ORDER`, not `NETWORK_ORDER` -/
def MatchCaller.hostOrder : MatchCaller → Bool
  | .packetIn => false
  | _ => true

/-- From the match on to what comes next in the buffer, or to its end. -/
def MatchCaller.space (length : Nat) : MatchCaller → Int
  | .packetIn => Ofl.roundUp (32 - 4 + length) 8 - 24
  | .flowRemoved | .flowMod | .flowStats => Ofl.roundUp (56 - 4 + length) 8 - 48
  | .flowStatsRequest => (16 + 40 + length) - 48

/-- `ofl_structs_match_pack` -/
def oflStructsMatchPack (hostOrder : Bool) (src : OflMatch) : List Store :=
  if src.type = ofpmtOxm then
    let init : List Store := [⟨0, beBytes 2 src.type⟩, ⟨2, beBytes 2 4⟩]
    if src.length ≠ 0 then
      let oxmFields := if hostOrder then (oxmPutMatch [] src).1.take (oxmPutMatch [] src).2
        else oxmPutPacketMatch src
      init ++ [⟨4, oxmFields⟩, ⟨2, beBytes 2 (oxmFields.length + 4)⟩]
    else init
  else []

/-- A match is packed so in a flow modification, and the space for it is the room there. -/
theorem pack_eq (m : AnyMatch) : m.pack.1 = oflStructsMatchPack true m.toOflMatch := by
  unfold AnyMatch.pack oflStructsMatchPack AnyMatch.oxmFields
  dsimp only
  split
  · split <;> rfl
  · rfl

theorem matchRoom_eq_space (m : FlowMod) :
    m.matchRoom = MatchCaller.flowMod.space m.oflMatch.toOflMatch.length := rfl

/-- The bytes that are put of a match are those of its entries. -/
theorem oxmPutMatch_length (buf : Bytes) (f : OflMatch) :
    (oxmPutMatch buf f).2 = (f.entries.map fun e => (oxmPutTlv e).length).sum := by
  obtain ⟨pad, hput⟩ := oxmPutMatch_eq buf f
  have hperm := (wireOrder_perm f.entries).map fun e => (oxmPutTlv e).length
  rw [hput, List.length_flatMap, hperm.sum_eq]

/-- What is packed of a match is the first four bytes and what is put. -/
theorem oflStructsMatchPack_within {hostOrder : Bool} {f : OflMatch} {s : Store}
    (h : s ∈ oflStructsMatchPack hostOrder f) : 0 ≤ s.off ∧ s.stop ≤ 4 + (oxmPutMatch [] f).2 := by
  have hput : ((oxmPutMatch [] f).1.take (oxmPutMatch [] f).2).length ≤ (oxmPutMatch [] f).2 :=
    List.length_take_le _ _
  have hpacket := oxmPutPacketMatch_length f
  unfold oflStructsMatchPack at h
  split at h
  · dsimp only at h
    split at h
    · simp only [List.cons_append, List.nil_append, List.mem_cons, List.not_mem_nil, or_false] at h
      rcases h with rfl | rfl | rfl | rfl <;> simp only [Store.stop, beBytes_length]
      · omega
      · omega
      · refine ⟨by omega, ?_⟩
        split <;> omega
      · omega
    · simp only [List.mem_cons, List.not_mem_nil, or_false] at h
      rcases h with rfl | rfl <;> simp only [Store.stop, beBytes_length] <;> omega
  · cases h

/-- The space is that of the length that is announced. -/
theorem MatchCaller.le_space (caller : MatchCaller) (length : Nat) :
    (4 + length : Int) ≤ caller.space length := by
  cases caller with
  | flowStatsRequest =>
    simp only [space]
    omega
  | _ =>
    simp only [space, Ofl.roundUp]
    omega

end Space

section Sizes

/-! ## Sizes -/

theorem sizes_of_mem {fld : MatchField} (h : fld ∈ fields) :
    entrySize fld.index.header = 4 + oxmLength fld.index.header ∧
      oxmLength (oxmMakeWildHeader fld.index.header) =
        oxmLength fld.index.header + oxmLength fld.index.header ∧
      entrySize (oxmMakeWildHeader fld.index.header) =
        4 + oxmLength fld.index.header + max 2 (oxmLength fld.index.header) ∧
      0 < oxmLength fld.index.header ∧ oxmLength fld.index.header ≤ 16 ∧
      (fld.size = ethAddrLen → oxmLength fld.index.header = ethAddrLen) := by
  revert fld
  decide

theorem mem_of_findField {name : String} {fld : MatchField} (h : findField name = some fld) :
    fld ∈ fields :=
  List.mem_of_find?_eq_some h

/-- A field of one byte has no mask, and what is given as an Ethernet address is one. -/
def AddField.Fits : AddField → Prop
  | .plain _ _ | .text _ _ _ => True
  | .masked name _ _ => ∀ fld, findField name = some fld → oxmLength fld.index.header ≠ 1
  | .address name _ | .addressMasked name _ _ =>
    ∀ fld, findField name = some fld → oxmLength fld.index.header = ethAddrLen

theorem AddField.fits_of_tlv_eq_none {c : AddField} (h : c.tlv = none) : c.Fits := by
  cases c with
  | plain => trivial
  | text => trivial
  | masked name value mask =>
    intro fld hfld
    simp [tlv, hfld] at h
  | address name value =>
    intro fld hfld
    simp [tlv, hfld] at h
  | addressMasked name value mask =>
    intro fld hfld
    simp [tlv, hfld] at h

/-- The value of an entry is as long as its header says, and so is what is put of it, if and only if
the call fits. -/
theorem AddField.fits_iff {c : AddField} {e : OflMatchTlv} (h : c.tlv = some e) :
    c.Fits ↔ e.value.length = oxmLength e.header ∧ entrySize e.header = 4 + oxmLength e.header := by
  cases c with
  | plain name value =>
    obtain ⟨fld, hfld, rfl⟩ := Option.map_eq_some_iff.mp h
    obtain ⟨hentry, -, -, -, hle, -⟩ := sizes_of_mem (mem_of_findField hfld)
    have henough := value.enough
    refine iff_of_true trivial ⟨List.length_take.trans (Nat.min_eq_left ?_), hentry⟩
    omega
  | masked name value mask =>
    obtain ⟨fld, hfld, rfl⟩ := Option.map_eq_some_iff.mp h
    obtain ⟨-, hwild, hentry, hpos, hle, -⟩ := sizes_of_mem (mem_of_findField hfld)
    have henough := value.enough
    have henough' := mask.enough
    simp only [Fits, hfld, Option.some.injEq, forall_eq', List.length_append, List.length_take,
      hwild, hentry]
    omega
  | address name value =>
    obtain ⟨fld, hfld, rfl⟩ := Option.map_eq_some_iff.mp h
    obtain ⟨hentry, -, -, -, hle, -⟩ := sizes_of_mem (mem_of_findField hfld)
    have henough := value.enough
    simp only [Fits, hfld, Option.some.injEq, forall_eq', List.length_take, hentry, and_true,
      ethAddrLen]
    omega
  | addressMasked name value mask =>
    obtain ⟨fld, hfld, rfl⟩ := Option.map_eq_some_iff.mp h
    obtain ⟨-, hwild, hentry, -, hle, -⟩ := sizes_of_mem (mem_of_findField hfld)
    have henough := value.enough
    have henough' := mask.enough
    simp only [Fits, hfld, Option.some.injEq, forall_eq', List.length_append, List.length_take,
      hwild, hentry, ethAddrLen]
    omega
  | text name value addr =>
    obtain ⟨fld, hfld, h⟩ := Option.bind_eq_some_iff.mp h
    obtain ⟨hentry, -, -, -, hle, hsize⟩ := sizes_of_mem (mem_of_findField hfld)
    have henough := addr.enough
    split at h
    · next heth =>
      obtain ⟨octet, hoctet, rfl⟩ := Option.map_eq_some_iff.mp h
      have hlength := ethernetaddr_length hoctet
      refine iff_of_true trivial ⟨?_, hentry⟩
      rw [List.length_take, hsize heth, ethAddrLen]
      omega
    · cases h
      have hlength : 16 ≤ ((ipv6addr value).getD addr.bytes).length := by
        cases haddr : ipv6addr value with
        | none => exact Nat.le_trans (by decide) henough
        | some b => exact Nat.le_of_eq (Libc.inetPton6_length haddr).symm
      exact iff_of_true trivial
        ⟨List.length_take.trans (Nat.min_eq_left (Nat.le_trans hle hlength)), hentry⟩

/-- What is put of the match, what is announced of it and the space that is left for it agree. -/
structure PackedRight (f : OflMatch) : Prop where
  -- `oxm_put_match` returns how many bytes it has put
  length : ∀ buf, (oxmPutMatch buf f).2 = f.length
  -- the sum of the headers and payloads
  announced : f.length = (f.entries.map fun e => 4 + oxmLength e.header).sum
  -- the payload in memory, and as it is put behind its header
  stored : ∀ e ∈ f.entries, e.value.length = oxmLength e.header
  payload : ∀ e ∈ f.entries, ∃ v, oxmPutTlv e = oxmPutHeader e.header ++ v ∧
    v.length = oxmLength e.header
  space : ∀ caller : MatchCaller, ∀ s ∈ oflStructsMatchPack caller.hostOrder f,
    0 ≤ s.off ∧ s.stop ≤ caller.space f.length

/-- What the entry of a call takes by its header. -/
def AddField.size (c : AddField) : Nat := c.tlv.elim 0 fun e => 4 + oxmLength e.header

theorem sum_size (calls : List AddField) :
    (calls.map AddField.size).sum =
      ((calls.filterMap AddField.tlv).map fun e => 4 + oxmLength e.header).sum := by
  induction calls with
  | nil => rfl
  | cons c calls ih =>
    rw [List.map_cons, List.sum_cons, ih, AddField.size]
    cases htlv : c.tlv with
    | none =>
      rw [List.filterMap_cons_none htlv]
      exact Nat.zero_add _
    | some e =>
      rw [List.filterMap_cons_some htlv]
      rfl

/-- After any calls of `Add_Field` the match is packed right if and only if no field of one byte was
given a mask, nothing but Ethernet addresses was given as one, and the entries together are
shorter than two to the sixteenth. -/
theorem packed_right_iff (calls : List AddField) :
    PackedRight (matchOf calls) ↔
      (∀ c ∈ calls, c.Fits) ∧ (calls.map AddField.size).sum < 2 ^ 16 := by
  have hperm := entries_matchOf calls
  have hmeasured := measured_matchOf calls
  have hsum : ((matchOf calls).entries.map fun e => 4 + oxmLength e.header).sum =
      (calls.map AddField.size).sum := by
    rw [(hperm.map _).sum_eq, sum_size]
  have hcall {e : OflMatchTlv} : e ∈ (matchOf calls).entries ↔ ∃ c ∈ calls, c.tlv = some e := by
    rw [hperm.mem_iff, List.mem_filterMap]
  constructor
  · intro h
    refine ⟨fun c hc => ?_, ?_⟩
    · cases htlv : c.tlv with
      | none => exact c.fits_of_tlv_eq_none htlv
      | some e =>
        have he : e ∈ (matchOf calls).entries := hcall.mpr ⟨c, hc, htlv⟩
        have hstored := h.stored e he
        obtain ⟨v, hput, hv⟩ := h.payload e he
        have hlength := oxmPutTlv_length (Nat.le_of_eq hstored.symm)
        refine (AddField.fits_iff htlv).mpr ⟨hstored, ?_⟩
        rw [← hlength, hput, List.length_append, hv]
        congr 1
    · rw [← hsum, ← h.announced, hmeasured.length]
      exact Nat.mod_lt _ (by decide)
  · rintro ⟨hfits, hlt⟩
    have hentry : ∀ e ∈ (matchOf calls).entries, e.value.length = oxmLength e.header ∧
        entrySize e.header = 4 + oxmLength e.header := by
      intro e he
      obtain ⟨c, hc, htlv⟩ := hcall.mp he
      exact (AddField.fits_iff htlv).mp (hfits c hc)
    have hput : ∀ e ∈ (matchOf calls).entries, (oxmPutTlv e).length = 4 + oxmLength e.header := by
      intro e he
      obtain ⟨hvalue, hsize⟩ := hentry e he
      rw [oxmPutTlv_length (Nat.le_of_eq hvalue.symm), hsize]
    have hannounced : (matchOf calls).length =
        ((matchOf calls).entries.map fun e => 4 + oxmLength e.header).sum := by
      have hvalues : ((matchOf calls).entries.map fun e => 4 + e.value.length) =
          (matchOf calls).entries.map fun e => 4 + oxmLength e.header :=
        List.map_congr_left fun e he => by rw [(hentry e he).1]
      rw [hmeasured.length, hvalues, hsum]
      exact Nat.mod_eq_of_lt hlt
    have hlength (buf : Bytes) : (oxmPutMatch buf (matchOf calls)).2 = (matchOf calls).length := by
      rw [oxmPutMatch_length, hannounced, List.map_congr_left hput]
    refine ⟨hlength, hannounced, fun e he => (hentry e he).1, fun e he => ?_, fun caller s hs => ?_⟩
    · have hword : wordSize e.header ∈ writtenSizes := by
        by_contra hnot
        have hsize := (hentry e he).2
        rw [entrySize, if_neg hnot] at hsize
        omega
      obtain ⟨v, hv⟩ := oxmPutTlv_prefix hword
      refine ⟨v, hv, ?_⟩
      have hlen := hput e he
      have hheader : (oxmPutHeader e.header).length = 4 := leBytes_length 4 _
      rw [hv, List.length_append, hheader] at hlen
      omega
    · obtain ⟨hoff, hstop⟩ := oflStructsMatchPack_within hs
      rw [hlength] at hstop
      exact ⟨hoff, hstop.trans (caller.le_space _)⟩

def Pointed.fill (b : UInt8) : Pointed := ⟨List.replicate 255 b, Nat.le_of_eq List.length_replicate.symm⟩

/-- Two fields of one byte with masks -/
def maskedBytes : List AddField :=
  [.masked "ip_dscp" (.fill 0x2e) (.fill 0x3f), .masked "ip_ecn" (.fill 0x01) (.fill 0x03)]

/-- Fourteen bytes are put of them where twelve are announced, and the last two come where the
instructions begin. -/
theorem masked_bytes_overrun :
    ((matchOf maskedBytes).length = 12 ∧ (oxmPutMatch [] (matchOf maskedBytes)).2 = 14 ∧
      ∃ s ∈ oflStructsMatchPack true (matchOf maskedBytes),
        MatchCaller.flowMod.space (matchOf maskedBytes).length + 2 = s.stop) ∧
      ¬PackedRight (matchOf maskedBytes) := by
  have hlength : (matchOf maskedBytes).length = 12 := by decide +kernel
  have hput : (oxmPutMatch [] (matchOf maskedBytes)).2 = 14 := by decide +kernel
  refine ⟨⟨hlength, hput, by decide +kernel⟩, fun h => ?_⟩
  have heq := h.length []
  rw [hlength, hput] at heq
  cases heq

end Sizes

end Nox.Interserver

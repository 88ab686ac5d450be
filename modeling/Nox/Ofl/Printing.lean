import Nox.Oxm.Codec
import Nox.Ofl.SetField
import Nox.Ofl.Unpacked

/-!
# What the printers read

`ofl_structs_*_print` and `ofl_action_print` follow the pointers of a message and write its
text.  Of a printer this module keeps what it reads, not the text: a read outside the memory
of a value, or of something that was not written, ends it.  The numbers of a structure are
written with the structure, so reading them is left out.
-/

namespace Nox.Ofl

open Oxm OxmFieldIndex

section Reads

/-! ## Reads -/

/-- How a read goes wrong: the pointer was cast to a structure that was not allocated
there, or what it points to was not written. -/
inductive ReadFault
  | wrongCast
  | unwritten
  deriving DecidableEq, Repr

abbrev Read := Except ReadFault

/-- Memory, byte by byte; a byte holds nothing until it is written. -/
abbrev Cells := List (Option UInt8)

/-- Reads `k` bytes from `off` on. -/
def Cells.touch (m : Cells) (off k : Nat) : Read Unit :=
  if off + k ≤ m.length ∧ ((m.drop off).take k).all Option.isSome then .ok ()
  else .error .unwritten

/-- An entry of an array of pointers. -/
def readEntry {α : Type} (print : α → Read Unit) : Option α → Read Unit
  | some a => print a
  | none => .error .unwritten

theorem readEntry_eq_ok {α : Type} {o : Option α} :
    readEntry (fun _ => .ok ()) o = .ok () ↔ o ≠ none := by
  cases o with
  | none => exact ⟨fun h => (nomatch h), fun h => absurd rfl h⟩
  | some a => exact ⟨fun _ => nofun, fun _ => rfl⟩

end Reads

section Tlvs

/-! ## TLVs -/

/-- The reads of `print_oxm_tlv` at the value of a field, each with its offset.  A mask of
numbers is looked for behind as many numbers as the value has bytes.  A `vlan_vid` whose
first byte is `OFPVID_NONE` is not read further. -/
def tlvReads (i : OxmFieldIndex) (vidNone : Bool) : List (Nat × Nat) :=
  match i with
  | inPort | inPhyPort => [(0, 4)]
  | vlanVid => if vidNone then [(0, 1)] else [(0, 1), (0, 2)]
  | vlanPcp => [(0, 1)]
  | ethType | tcpSrc | tcpDst | udpSrc | udpDst | sctpSrc | sctpDst | arpOp => [(0, 2)]
  | ethSrc | ethDst | ipv6NdSll | ipv6NdTll => [(0, 6)]
  | ethSrcW | ethDstW => [(0, 6), (6, 6)]
  | ipv4Src | ipv4Dst | arpSpa | arpTpa => [(0, 4)]
  | ipv4SrcW | ipv4DstW | arpSpaW | arpTpaW => [(0, 4), (4, 4)]
  | ipProto | ipDscp | ipEcn | icmpv4Type | icmpv4Code | icmpv6Type | icmpv6Code => [(0, 1)]
  | ipv6Src | ipv6Dst | ipv6NdTarget => [(0, 16)]
  | ipv6SrcW | ipv6DstW => [(0, 16), (16, 16)]
  | ipv6Flabel | mplsLabel | mplsTc => [(0, 1)]
  | metadata | tunnelId => [(0, 8)]
  -- `(uint64_t *) f->value + 8`
  | metadataW | tunnelIdW => [(0, 8), (64, 8)]
  | pbbIsid => [(0, 4)]
  -- `(uint32_t *) f->value + 4`
  | pbbIsidW => [(0, 4), (16, 4)]
  | ipv6Exthdr => [(0, 2)]
  -- `(uint16_t *) f->value + 4`
  | ipv6ExthdrW => [(0, 2), (8, 2)]
  -- no case
  | vlanVidW | arpSha | arpShaW | arpTha | arpThaW | ipv6FlabelW | mplsBos => []

/-- `print_oxm_tlv`, which compares the header with the headers of the known fields. -/
def printOxmTlv (header : UInt32) (value : Cells) : Read Unit :=
  match oxmFieldLookup header with
  | some f =>
    (tlvReads f.index (value.head? = some (some 0))).forM fun r => value.touch r.1 r.2
  | none => .ok ()

/-- `ofl_actions_unpack` has cases for values of these sizes only. -/
def fillsValue (header : UInt32) : Bool := setFieldSizes.contains (oxmLength header)

/-- The memory `ofl_actions_unpack` gives the value of a `set_field`. -/
def setFieldCells (header : UInt32) (value : Bytes) : Cells :=
  if fillsValue header then value.map some else List.replicate (oxmLength header) none

/-- `ofl_action_print` -/
def oflActionPrint : OflAction → Read Unit
  | .setField header value => printOxmTlv header (setFieldCells header value)
  | _ => .ok ()

end Tlvs

section Printers

/-! ## Printers -/

namespace Unpacked

/-- `print_oxm_match` -/
def Match.print (m : Match) : Read Unit :=
  if m.length = 0 then .ok ()
  else readEntry (fun f => f.entries.forM fun e => printOxmTlv e.header (e.value.map some))
    m.matchFields

/-- `ofl_structs_instruction_print` -/
def Instruction.print : Instruction → Read Unit
  | .plain _ _ => .ok ()
  | .actions _ acts => acts.forM oflActionPrint

/-- `ofl_structs_flow_stats_print` -/
def FlowStats.print (s : FlowStats) : Read Unit := do
  s.oflMatch.print
  s.instructions.forM (·.print)

/-- `ofl_structs_bucket_print` -/
def Bucket.print (b : Bucket) : Read Unit := b.actions.forM oflActionPrint

/-- `ofl_structs_group_desc_stats_print` -/
def GroupDescStats.print (s : GroupDescStats) : Read Unit := s.buckets.forM (·.print)

/-- `ofl_structs_meter_config_print`; a band that is there has its numbers. -/
def MeterConfig.print (c : MeterConfig) : Read Unit :=
  c.bands.forM (readEntry fun _ => .ok ())

/-- `ofl_structs_queue_print` -/
def PacketQueue.print (q : PacketQueue) : Read Unit :=
  q.properties.forM (readEntry fun _ => .ok ())

end Unpacked

end Printers

section Printable

/-! ## Which fields can be printed -/

/-- The fields whose mask is looked for behind the value. -/
def overreads : List OxmFieldIndex := [metadataW, pbbIsidW, tunnelIdW, ipv6ExthdrW]

/-- The fields that are printed, of sizes no value of a `set_field` is filled for. -/
def unfilled : List OxmFieldIndex := [ethSrcW, ethDstW, ipv6SrcW, ipv6DstW]

variable {i : OxmFieldIndex} {b : Bool} {header : UInt32} {v : Bytes} {off k n : Nat}

theorem touch_written_iff : Cells.touch (v.map some) off k = .ok () ↔ off + k ≤ v.length := by
  have hall : (((v.map some).drop off).take k).all Option.isSome = true := by
    rw [← List.map_drop, ← List.map_take, List.all_map, List.all_eq_true]
    exact fun _ _ => rfl
  unfold Cells.touch
  rw [List.length_map, hall]
  split
  · next h => exact ⟨fun _ => h.1, fun _ => rfl⟩
  · next h => exact ⟨fun heq => (nomatch heq), fun hle => absurd ⟨hle, rfl⟩ h⟩

theorem touch_unwritten (h : 0 < k) :
    Cells.touch (List.replicate n none) off k ≠ .ok () := by
  unfold Cells.touch
  rw [if_neg]
  · nofun
  rintro ⟨hle, hall⟩
  rw [List.length_replicate] at hle
  rw [List.drop_replicate, List.take_replicate, List.all_replicate] at hall
  simp only [Option.isSome_none, ite_eq_left_iff] at hall
  exact absurd (hall (by omega)) nofun

/-- A read stays within the value, unless it is the mask of one of four fields. -/
theorem tlvReads_within (h : i ∉ overreads) : ∀ r ∈ tlvReads i b, r.1 + r.2 ≤ oxmLength i.header := by
  revert h
  cases i <;> cases b <;> decide

theorem tlvReads_beyond (h : i ∈ overreads) :
    ∃ r ∈ tlvReads i b, oxmLength i.header < r.1 + r.2 := by
  revert h
  cases i <;> cases b <;> decide

/-- The fields of the table that are printed though their value is not filled. -/
theorem tlvReads_unfilled (h : fillsValue i.header = false) :
    tlvReads i b = [] ↔ i ∉ unfilled := by
  revert h
  cases i <;> cases b <;> decide

theorem fillsValue_of_overreads (h : i ∈ overreads) : fillsValue i.header = true := by
  revert h
  cases i <;> decide

theorem fillsValue_of_unfilled (h : i ∈ unfilled) : fillsValue i.header = false := by
  revert h
  cases i <;> decide

theorem tlvReads_pos : ∀ r ∈ tlvReads i b, 0 < r.2 := by
  cases i <;> cases b <;> decide

theorem header_eq_iff {f : OxmField} (hl : oxmFieldLookup header = some f) :
    header = i.header ↔ f.index = i := by
  have hf := header_of_lookup hl ▸ header_eq_of_mem (mem_oxmFields_of_lookup hl)
  constructor
  · intro h
    have hi := lookup_header i
    rw [← h, hl] at hi
    exact Option.some.inj hi
  · rintro rfl
    exact hf

/-- The header of none of the fields in the list. -/
def NoneOf (is : List OxmFieldIndex) (header : UInt32) : Prop := ∀ i ∈ is, header ≠ i.header

instance (is : List OxmFieldIndex) (header : UInt32) : Decidable (NoneOf is header) :=
  inferInstanceAs (Decidable (∀ i ∈ is, header ≠ i.header))

theorem noneOf_iff {is : List OxmFieldIndex} {f : OxmField}
    (hl : oxmFieldLookup header = some f) : NoneOf is header ↔ f.index ∉ is := by
  constructor
  · exact fun h hmem => h _ hmem ((header_eq_iff hl).mpr rfl)
  · exact fun h i hi heq => h ((header_eq_iff hl).mp heq ▸ hi)

theorem noneOf_unknown {is : List OxmFieldIndex} (hl : oxmFieldLookup header = none) :
    NoneOf is header := by
  rintro i - rfl
  have hi := lookup_header i
  rw [hl] at hi
  cases hi

/-- A value that is written as long as its header says is printed without leaving it,
unless the mask is looked for behind it.  The value may be longer where the field has no
mask. -/
theorem printOxmTlv_written_iff (hle : oxmLength header ≤ v.length)
    (hover : ¬ NoneOf overreads header → v.length = oxmLength header) :
    printOxmTlv header (v.map some) = .ok () ↔ NoneOf overreads header := by
  unfold printOxmTlv
  cases hl : oxmFieldLookup header with
  | none => exact ⟨fun _ => noneOf_unknown hl, fun _ => rfl⟩
  | some f =>
    have hf : header = f.index.header := (header_eq_iff hl).mpr rfl
    rw [noneOf_iff hl] at hover ⊢
    dsimp only
    rw [forM_eq_ok]
    simp only [touch_written_iff]
    constructor
    · intro h hmem
      obtain ⟨r, hr, hlt⟩ := tlvReads_beyond hmem
        (b := decide ((v.map some).head? = some (some 0)))
      have hfits := h r hr
      rw [hover (not_not.mpr hmem), hf] at hfits
      omega
    · intro h r hr
      have hwithin := tlvReads_within h r hr
      rw [← hf] at hwithin
      omega

/-- Whether the value of a `set_field` is printed as far as it is written. -/
theorem printOxmTlv_setField_iff (hv : fillsValue header = true → v.length = oxmLength header) :
    printOxmTlv header (setFieldCells header v) = .ok () ↔
      NoneOf (overreads ++ unfilled) header := by
  unfold setFieldCells
  cases hfill : fillsValue header with
  | true =>
    rw [if_pos rfl, printOxmTlv_written_iff (hv hfill).ge fun _ => hv hfill]
    constructor
    · intro h i hi heq
      rcases List.mem_append.mp hi with hover | hun
      · exact h i hover heq
      · rw [heq, fillsValue_of_unfilled hun] at hfill
        cases hfill
    · exact fun h i hi => h i (List.mem_append_left _ hi)
  | false =>
    rw [if_neg nofun, printOxmTlv]
    cases hl : oxmFieldLookup header with
    | none => exact ⟨fun _ => noneOf_unknown hl, fun _ => rfl⟩
    | some f =>
      have hf : header = f.index.header := (header_eq_iff hl).mpr rfl
      rw [hf] at hfill
      rw [noneOf_iff hl, List.mem_append, not_or]
      dsimp only
      rw [forM_eq_ok]
      constructor
      · intro h
        refine ⟨fun hover => ?_, (tlvReads_unfilled hfill).mp
          (List.eq_nil_iff_forall_not_mem.mpr fun r hr =>
            touch_unwritten (tlvReads_pos r hr) (h r hr))⟩
        rw [fillsValue_of_overreads hover] at hfill
        cases hfill
      · rintro ⟨-, hun⟩ r hr
        rw [(tlvReads_unfilled hfill).mpr hun] at hr
        cases hr

end Printable

end Nox.Ofl

import Nox.Ofl.Sizes

/-!
# The requests of the controller

The messages the controller is asked to send, as `ofl_msg_pack` reads them, and the stores
it makes of each.  The buffer is fresh memory: a message is determined when all the packer
stores lies in the buffer and no byte of it but declared padding is left as `malloc` gave
it (`determined_iff_fills`).
-/

namespace Nox.Ofl

open Oxm Stores

section Multipart

/-! ## Multipart requests -/

/-- What follows the header of a multipart request, as the case of its type takes it.  The
empty ones are those of a description, and that for table features without tables. -/
inductive MultipartBody
  | empty
  | flow (tableId outPort outGroup cookie cookieMask : Nat) (oflMatch : AnyMatch)
  | port (portNo : Nat)
  | queue (portNo queueId : Nat)
  | group (groupId : Nat)
  | meter (meterId : Nat)

namespace MultipartBody

def size : MultipartBody → Nat
  | empty => 0
  | flow _ _ _ _ _ oflMatch => 40 + oflMatch.toOflMatch.length
  | port _ | queue _ _ | group _ | meter _ => 8

/-- `ofl_msg_pack_multipart_request_*` -/
def stores : MultipartBody → List Store
  | empty => []
  | flow tableId outPort outGroup cookie cookieMask oflMatch =>
    [⟨16, beBytes 1 tableId⟩, ⟨17, zeros 3⟩, ⟨20, beBytes 4 outPort⟩, ⟨24, beBytes 4 outGroup⟩,
      ⟨28, zeros 4⟩, ⟨32, beBytes 8 cookie⟩, ⟨40, beBytes 8 cookieMask⟩] ++
    shift 48 oflMatch.pack.1
  | port portNo => [⟨16, beBytes 4 portNo⟩, ⟨20, zeros 4⟩]
  | queue portNo queueId => [⟨16, beBytes 4 portNo⟩, ⟨20, beBytes 4 queueId⟩]
  | group groupId => [⟨16, beBytes 4 groupId⟩, ⟨20, zeros 4⟩]
  | meter meterId => [⟨16, beBytes 4 meterId⟩, ⟨20, zeros 4⟩]

def pad : MultipartBody → Int → Prop
  | flow _ _ _ _ _ oflMatch => fun i => oflMatch.pad (i - 48)
  | _ => noPad

end MultipartBody

end Multipart

section Requests

/-! ## Requests -/

/-- An `ofl_msg_header` the controller makes for a request. -/
inductive Request
  -- a header and no more
  | empty (type : Nat)
  | setConfig (flags missSendLen : Nat)
  | queueGetConfig (port : Nat)
  | portMod (portNo : Nat) (hwAddr : Bytes) (config mask advertise : Nat)
    (hwAddr_length : hwAddr.length = ethAddrLen)
  | flowMod (m : FlowMod)
  | groupMod (m : GroupMod)
  | meterMod (m : MeterMod)
  | multipart (type : Nat) (flags : UInt16) (body : MultipartBody)

namespace Request

/-- The length `ofl_msg_pack` allocates. -/
def bufLen : Request → Int
  | empty _ => 8
  | setConfig _ _ => 12
  | queueGetConfig _ => 16
  | portMod .. => 40
  | flowMod m => m.bufLen
  | groupMod m => m.bufLen
  | meterMod m => m.bufLen
  | multipart _ _ body => 16 + body.size

/-- `ofl_msg_pack` -/
def pack (xid : Nat) : Request → List Store
  | empty type => headerStores type xid 8
  | setConfig flags missSendLen =>
    [⟨10, beBytes 2 missSendLen⟩, ⟨8, beBytes 2 flags⟩] ++ headerStores 9 xid 12
  | queueGetConfig port => [⟨8, beBytes 4 port⟩, ⟨12, zeros 4⟩] ++ headerStores 22 xid 16
  | portMod portNo hwAddr config mask advertise _ =>
    [⟨8, beBytes 4 portNo⟩, ⟨12, zeros 4⟩, ⟨16, hwAddr⟩, ⟨22, zeros 2⟩, ⟨24, beBytes 4 config⟩,
      ⟨28, beBytes 4 mask⟩, ⟨32, beBytes 4 advertise⟩, ⟨36, zeros 4⟩] ++ headerStores 16 xid 40
  | flowMod m => m.pack xid
  | groupMod m => m.pack xid
  | meterMod m => m.pack xid
  | multipart type flags body =>
    body.stores ++ [⟨8, beBytes 2 type⟩, ⟨10, beBytes 2 flags.toNat⟩, ⟨12, zeros 4⟩] ++
      headerStores 18 xid (16 + body.size)

/-- The declared padding that is not stored: that of a match. -/
def pad : Request → Int → Prop
  | flowMod m => fun i => m.oflMatch.pad (i - 48)
  | multipart _ _ body => body.pad
  | _ => noPad

/-- The packer stays in its buffer, and what it sends does not depend on what `malloc` gave,
declared padding excepted. -/
def Determined (r : Request) : Prop :=
  ∀ xid, (∀ s ∈ r.pack xid, 0 ≤ s.off ∧ s.stop ≤ r.bufLen) ∧
    Determines r.pad r.bufLen (r.pack xid)

variable {r : Request}

theorem determined_of_fills (h : ∀ xid, Fills r.pad r.bufLen (r.pack xid)) : r.Determined :=
  fun xid => (fills_iff_determines.mp (h xid)).2

/-- The version of OpenFlow is stored by all packers, so no buffer is empty. -/
theorem version_mem_pack (xid : Nat) : (⟨0, beBytes 1 4⟩ : Store) ∈ r.pack xid := by
  cases r <;>
    simp [pack, headerStores, FlowMod.pack, GroupMod.pack, MeterMod.pack]

theorem determined_iff_fills : r.Determined ↔ ∀ xid, Fills r.pad r.bufLen (r.pack xid) := by
  refine ⟨fun h xid => fills_iff_determines.mpr ⟨?_, h xid⟩, determined_of_fills⟩
  have hstop := ((h xid).1 _ (version_mem_pack xid)).2
  simp only [Store.stop, beBytes_length] at hstop
  omega

end Request

end Requests

section Fixed

/-! ## Requests of a fixed size -/

namespace Request

theorem determined_empty (type : Nat) : (empty type).Determined :=
  determined_of_fills fun _ => fills_of_tiles (k := 8) rfl

theorem determined_setConfig (flags missSendLen : Nat) :
    (setConfig flags missSendLen).Determined :=
  determined_of_fills fun _ => fills_of_tiles (k := 12) rfl

theorem determined_queueGetConfig (port : Nat) : (queueGetConfig port).Determined :=
  determined_of_fills fun _ => fills_of_tiles (k := 16) rfl

theorem determined_portMod {portNo config mask advertise : Nat} {hwAddr : Bytes}
    (h : hwAddr.length = ethAddrLen) :
    (portMod portNo hwAddr config mask advertise h).Determined := by
  refine determined_of_fills fun xid => fills_of_tiles (k := 40) ?_
  simp only [pack, headerStores, List.map_append, List.map_cons, List.map_nil, Store.extent, h,
    beBytes_length, zeros, List.length_replicate, AnyInstruction.field]
  decide

theorem determined_groupMod {m : GroupMod} (h : ∀ b ∈ m.buckets, b.Sound) :
    (groupMod m).Determined :=
  determined_of_fills fun xid => (m.fits_iff.mpr h).2 xid

theorem determined_meterMod {m : MeterMod} (h : ∀ b ∈ m.bands, b.Sound) :
    (meterMod m).Determined :=
  determined_of_fills fun xid => (m.fits_iff.mpr h).2 xid

end Request

end Fixed

section FlowMod

/-! ## Flow modifications

A match may be longer on the wire than its length says.  What is behind its room is stored
over by the instructions, so only the end of the buffer matters. -/

/-- A flow modification fills its buffer when its match ends in it, provided that no gap is
left behind the match. -/
theorem FlowMod.fills_iff_inside {m : FlowMod} (hsound : ∀ i ∈ m.instructions, i.Sound)
    (htype : m.oflMatch.toOflMatch.type = ofpmtOxm)
    (hgap : m.matchEnd ≤ 48 + roundUp m.oflMatch.writtenLen 8) (xid : Nat) :
    Fills (fun i => m.oflMatch.pad (i - 48)) m.bufLen (m.pack xid) ↔
      48 + (m.oflMatch.writtenLen : Int) ≤ m.bufLen := by
  obtain ⟨hmatch, s, hs, hstop⟩ := AnyMatch.fills_written htype
  have hhead : Fills noPad (48 : Nat) (m.fieldStores ++ headerStores 14 xid m.bufLen) :=
    fills_of_tiles rfl
  have hloop : Fills noPad (instructionsTotalLen m.instructions)
      (packLoop AnyInstruction.pack 0 m.instructions) :=
    fills_packLoop fun i hi => AnyInstruction.exact_of_sound (hsound i hi)
  have hpack : m.pack xid = m.fieldStores ++ shift 48 m.oflMatch.pack.1 ++
      shift m.matchEnd (packLoop AnyInstruction.pack 0 m.instructions) ++
        headerStores 14 xid m.bufLen := by
    rw [pack, packLoop_eq_shift]
  have hlen : m.bufLen = m.matchEnd + instructionsTotalLen m.instructions := rfl
  have hend : 52 ≤ m.matchEnd := by
    have hle := (roundUp_eight (52 + m.oflMatch.toOflMatch.length)).1
    rw [matchEnd]
    omega
  have hnonneg := hloop.nonneg
  rw [hpack]
  constructor
  · intro h
    have hin := (h.within (s.shift 48)
      (by simp only [List.mem_append, shift_mem hs, or_true, true_or])).2
    rw [Store.shift_stop, hstop] at hin
    omega
  · intro hinside
    refine ⟨by omega, fun t ht => ?_, fun i hi hlt hnot => ?_⟩
    · simp only [List.mem_append] at ht
      rcases ht with ((ht | ht) | ht) | ht
      · have hin := hhead.within t (List.mem_append_left _ ht)
        omega
      · obtain ⟨u, hu, rfl⟩ := mem_shift ht
        have hin := hmatch.within u hu
        rw [Store.shift_stop]
        simp only [Store.shift]
        omega
      · obtain ⟨u, hu, rfl⟩ := mem_shift ht
        have hin := hloop.within u hu
        rw [Store.shift_stop]
        simp only [Store.shift]
        omega
      · have hin := hhead.within t (List.mem_append_right _ ht)
        omega
    · simp only [List.mem_append]
      by_cases hfields : i < 48
      · obtain ⟨t, ht, hit⟩ := hhead.covers i hi hfields id
        exact ⟨t, (List.mem_append.mp ht).elim (fun h => .inl (.inl (.inl h))) .inr, hit⟩
      by_cases hwritten : i < 48 + m.oflMatch.writtenLen
      · obtain ⟨t, ht, hit⟩ := hmatch.covers (i - 48) (by omega) (by omega) id
        exact ⟨t.shift 48, .inl (.inl (.inr (shift_mem ht))), Store.shift_hits.mpr hit⟩
      · -- behind the match comes its padding, and then the instructions
        have hbehind : m.matchEnd ≤ i := by
          by_contra hbefore
          exact hnot ⟨by omega, by omega⟩
        obtain ⟨t, ht, hit⟩ := hloop.covers (i - m.matchEnd) (by omega) (by omega) id
        exact ⟨t.shift m.matchEnd, .inl (.inr (shift_mem ht)), Store.shift_hits.mpr hit⟩

theorem Request.determined_flowMod_iff {m : FlowMod} (hsound : ∀ i ∈ m.instructions, i.Sound)
    (htype : m.oflMatch.toOflMatch.type = ofpmtOxm)
    (hgap : m.matchEnd ≤ 48 + roundUp m.oflMatch.writtenLen 8) :
    (Request.flowMod m).Determined ↔ 48 + (m.oflMatch.writtenLen : Int) ≤ m.bufLen := by
  rw [determined_iff_fills]
  refine (forall_congr' fun xid => ?_).trans (forall_const Nat)
  exact m.fills_iff_inside hsound htype hgap xid

end FlowMod

end Nox.Ofl

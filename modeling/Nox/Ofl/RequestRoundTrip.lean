import Nox.Ofl.RequestDecoder

/-!
# Requests come back

What `ofl_msg_pack` makes of a request, `ofl_msg_unpack` takes apart again: with the transaction
id, the type and the structure it was made of, to its last byte, and whatever the buffer held
before (`Request.comes_back`).  Requests for flow statistics are in `FlowStats`; they rarely do.
-/

namespace Nox.Ofl

open Oxm Stores Records Unpacked

section Definitions

/-! ## Requests that come back -/

/-- The types of messages that are but a header. -/
def emptyTypes : List Nat := [0, 5, 7, 20, 21, 26]

/-- The types of multipart requests that nothing follows; that for table features has no
tables. -/
def emptyParts : List Nat := [0, 3, 7, 8, 12, 13]

/-- The match is one of OXM, its length is that of its entries, and they come back. -/
structure AnyMatch.Whole (m : AnyMatch) : Prop where
  type : m.toOflMatch.type = ofpmtOxm
  length : m.toOflMatch.length = m.entriesSize
  valued : ∀ e ∈ m.toOflMatch.entries, e.value.length = oxmLength e.header
  wellFormed : WellFormed m.toOflMatch
  survives : ∀ e ∈ m.toOflMatch.entries, Survives m.toOflMatch.entries e

structure FlowMod.WellFormed (m : FlowMod) : Prop where
  cookie : m.cookie < 2 ^ 64
  cookieMask : m.cookieMask < 2 ^ 64
  tableId : m.tableId < 2 ^ 8
  command : m.command < 2 ^ 8
  idleTimeout : m.idleTimeout < 2 ^ 16
  hardTimeout : m.hardTimeout < 2 ^ 16
  priority : m.priority < 2 ^ 16
  bufferId : m.bufferId < 2 ^ 32
  outPort : m.outPort < 2 ^ 32
  outGroup : m.outGroup < 2 ^ 32
  flags : m.flags < 2 ^ 16
  oflMatch : m.oflMatch.Whole
  instructions : ∀ i ∈ m.instructions, i.WellFormed

/-- No buckets go with a deletion, and one with an indirect group; so no indirect group is
deleted by its type. -/
structure GroupMod.WellFormed (m : GroupMod) : Prop where
  command : m.command ≤ commandDelete
  type : m.type < 2 ^ 8
  groupId : m.groupId ≤ ofpgMax ∨ m.command = commandDelete ∧ m.groupId = ofpgAll
  deleted : m.command = commandDelete → m.buckets = []
  indirect : m.type = ofpgtIndirect → m.buckets.length = 1
  buckets : ∀ b ∈ m.buckets, b.WellFormed m.type

structure MeterMod.WellFormed (m : MeterMod) : Prop where
  command : m.command ≤ commandDelete
  flags : m.flags < 2 ^ 4
  meterId : m.meterId ≤ ofpmMax ∨ m.command = commandDelete ∧ m.meterId = ofpmAll
  bands : ∀ b ∈ m.bands, b.WellFormed

def MultipartBody.WellFormed (type : Nat) : MultipartBody → Prop
  | empty => type ∈ emptyParts
  | flow .. => False
  | port portNo => type = 4 ∧ portNo < 2 ^ 32 ∧ ¬badStatsPort portNo
  | queue portNo queueId => type = 5 ∧ portNo < 2 ^ 32 ∧ ¬badStatsPort portNo ∧ queueId < 2 ^ 32
  | group groupId => type = 6 ∧ groupId < 2 ^ 32
  | meter meterId => (type = 9 ∨ type = 10) ∧ meterId < 2 ^ 32

namespace Request

/-- The numbers have the widths of their fields and pass the checks of the decoders. -/
def WellFormed : Request → Prop
  | empty type => type ∈ emptyTypes
  | setConfig flags missSendLen => flags < 2 ^ 16 ∧ missSendLen < 2 ^ 16
  | queueGetConfig port => 0 < port ∧ port ≤ ofppMax
  | portMod portNo _ config mask advertise _ =>
    portNo < 2 ^ 32 ∧ config < 2 ^ 32 ∧ mask < 2 ^ 32 ∧ advertise < 2 ^ 32
  | flowMod m => m.WellFormed
  | groupMod m => m.WellFormed
  | meterMod m => m.WellFormed
  | multipart type _ body => body.WellFormed type

/-- The type in the header. -/
def typeNo : Request → Nat
  | empty type => type
  | setConfig _ _ => 9
  | queueGetConfig _ => 22
  | portMod .. => 16
  | flowMod _ => 14
  | groupMod _ => 15
  | meterMod _ => 29
  | multipart .. => 18

/-- The bytes that packing produces, in memory that held other bytes before. -/
def packed (r : Request) (xid : Nat) (mem : Int → UInt8) : Bytes :=
  window (run (r.pack xid) mem) 0 r.bufLen.toNat

end Request

/-- The numbers, as they are unpacked. -/
def FlowMod.numbers (m : FlowMod) : List Nat :=
  [m.cookie, m.cookieMask, m.tableId, m.command, m.idleTimeout, m.hardTimeout, m.priority,
    m.bufferId, m.outPort, m.outGroup, m.flags]

/-- What is unpacked behind the type and the flags is what was packed. -/
inductive MultipartBody.Carries (type : Nat) : MultipartBody → RequestPart → Prop
  | empty (h : type ≠ 12) : Carries type .empty .empty
  | noTables (h : type = 12) : Carries type .empty (.tableFeatures [])
  | port (portNo : Nat) : Carries type (.port portNo) (.port portNo)
  | queue (portNo queueId : Nat) : Carries type (.queue portNo queueId) (.queue portNo queueId)
  | group (groupId : Nat) : Carries type (.group groupId) (.group groupId)
  | meter (meterId : Nat) : Carries type (.meter meterId) (.meter meterId)

/-- What is unpacked is what was packed; the entries of a match may be in another order, and a
`set_field` comes as it is carried. -/
inductive Request.Carries : Request → RequestBody → Prop
  | empty (type : Nat) : Carries (.empty type) .empty
  | setConfig (flags missSendLen : Nat) :
    Carries (.setConfig flags missSendLen) (.setConfig [missSendLen, flags])
  | queueGetConfig (port : Nat) : Carries (.queueGetConfig port) (.queueGetConfig port)
  | portMod (portNo : Nat) (hwAddr : Bytes) (config mask advertise : Nat)
    (h : hwAddr.length = ethAddrLen) :
    Carries (.portMod portNo hwAddr config mask advertise h)
      (.portMod [portNo, config, mask, advertise] hwAddr)
  | flowMod (m : FlowMod) (om : Match) (h : om.Is m.oflMatch.toOflMatch) :
    Carries (.flowMod m) (.flowMod m.numbers om (m.instructions.map AnyInstruction.back))
  | groupMod (m : GroupMod) :
    Carries (.groupMod m) (.groupMod [m.command, m.type, m.groupId] (m.buckets.map AnyBucket.back))
  | meterMod (m : MeterMod) :
    Carries (.meterMod m) (.meterMod [m.command, m.flags, m.meterId] (m.bands.map AnyBand.back))
  | multipart (type : Nat) (flags : UInt16) (body : MultipartBody) (part : RequestPart)
    (h : body.Carries type part) :
    Carries (.multipart type flags body) (.multipart type flags.toNat part)

end Definitions

section Header

/-! ## The header -/

variable {D : RequestDecoders} {fresh : Bytes → Nat → Bytes} {type len xid : Nat} {bs : Bytes}
  {body : RequestBody} {r : Request} {mem : Int → UInt8}

/-- The header of a message. -/
def header (type len xid : Nat) : Bytes :=
  beBytes 1 4 ++ (beBytes 1 type ++ (beBytes 2 len ++ beBytes 4 xid))

/-- With the header read, the message is what the case of its type makes of it. -/
theorem oflMsgUnpackRequest_ok (hlen : (header type len xid ++ bs).length = len)
    (htype : type < 2 ^ 8) (hxid : xid < 2 ^ 32) (hlt : len < 2 ^ 16)
    (hbody : unpackRequestBody D fresh type (header type len xid ++ bs) len = .ok (body, 0)) :
    oflMsgUnpackRequest D fresh (header type len xid ++ bs) len = .ok (⟨type, xid, body⟩, 0) := by
  have hlong : ¬len < 8 := by
    rw [List.length_append] at hlen
    exact Nat.not_lt.mpr (hlen ▸ Nat.le_add_right 8 _)
  have hversion : readNtoh (header type len xid ++ bs) 0 1 = .ok ofpVersion :=
    readNtoh_of_bytes (by decide) rfl (by decide)
  have hread : readNtoh (header type len xid ++ bs) 2 2 = .ok len :=
    readNtoh_of_bytes (by decide) rfl hlt
  have hid : readNtoh (header type len xid ++ bs) 4 4 = .ok xid :=
    readNtoh_of_bytes (by decide) rfl hxid
  have hno : readNtoh (header type len xid ++ bs) 1 1 = .ok type :=
    readNtoh_of_bytes (by decide) rfl htype
  refine bind_eq_ok.mpr ⟨(), reject_neg hlong _, bind_eq_ok.mpr ⟨_, hversion, ?_⟩⟩
  refine bind_eq_ok.mpr ⟨(), reject_neg (not_not.mpr rfl) _, bind_eq_ok.mpr ⟨xid, hid, ?_⟩⟩
  refine bind_eq_ok.mpr ⟨len, hread, bind_eq_ok.mpr ⟨(), reject_neg (not_not.mpr rfl) _, ?_⟩⟩
  exact bind_eq_ok.mpr ⟨type, hno, bind_eq_ok.mpr ⟨(body, 0), hbody, rfl⟩⟩

/-- The request is unpacked to what it was made of, to the last byte. -/
def Request.ComesBack (D : RequestDecoders) (fresh : Bytes → Nat → Bytes) (r : Request) (xid : Nat)
    (mem : Int → UInt8) : Prop :=
  ∃ body, oflMsgUnpackRequest D fresh (r.packed xid mem) (r.packed xid mem).length =
    .ok (⟨r.typeNo, xid, body⟩, 0) ∧ r.Carries body

namespace Request

theorem typeNo_lt (h : r.WellFormed) : r.typeNo < 2 ^ 8 := by
  cases r with
  | empty type =>
    have hle : ∀ type ∈ emptyTypes, type < 2 ^ 8 := by decide
    exact hle type h
  | _ => exact of_decide_eq_true rfl

theorem comesBack_of_packed (h : r.WellFormed) (hshort : r.bufLen < 2 ^ 16) (hxid : xid < 2 ^ 32)
    (hlen : r.bufLen = len) (hpacked : r.packed xid mem = header r.typeNo len xid ++ bs)
    (hbody : unpackRequestBody D fresh r.typeNo (header r.typeNo len xid ++ bs) len = .ok (body, 0))
    (hcarries : r.Carries body) : r.ComesBack D fresh xid mem := by
  have hlength : (header r.typeNo len xid ++ bs).length = len := by
    rw [← hpacked, packed, window_length, hlen, Int.toNat_natCast]
  refine ⟨body, ?_, hcarries⟩
  rw [hpacked, hlength]
  exact oflMsgUnpackRequest_ok hlength (typeNo_lt h) hxid (by omega) hbody

/-- A request whose bytes do not depend on the memory. -/
theorem comesBack_of_leaves (h : r.WellFormed) (hshort : r.bufLen < 2 ^ 16) (hxid : xid < 2 ^ 32)
    (hlen : r.bufLen = (header r.typeNo len xid ++ bs).length)
    (hle : (header r.typeNo len xid ++ bs).length = len)
    (hleaves : Leaves (r.pack xid) (header r.typeNo len xid ++ bs))
    (hbody : unpackRequestBody D fresh r.typeNo (header r.typeNo len xid ++ bs) len = .ok (body, 0))
    (hcarries : r.Carries body) : r.ComesBack D fresh xid mem := by
  refine comesBack_of_packed h hshort hxid (hlen.trans (congrArg _ hle)) ?_ hbody hcarries
  rw [packed, hlen, Int.toNat_natCast]
  exact hleaves.left mem

end Request

end Header

section Fixed

/-! ## Requests of a fixed size -/

namespace Request

variable {D : RequestDecoders} {fresh : Bytes → Nat → Bytes} {xid : Nat} {mem : Int → UInt8}
  (hxid : xid < 2 ^ 32)

include hxid

theorem comesBack_empty {type : Nat} (h : type ∈ emptyTypes) :
    (empty type).ComesBack D fresh xid mem := by
  have hleaves : Leaves ((empty type).pack xid) (header type 8 xid ++ []) :=
    leaves_of_fills (fills_of_tiles (k := 8) rfl) rfl rfl
  refine comesBack_of_leaves h (show (8 : Int) < 2 ^ 16 by decide) hxid rfl rfl hleaves ?_
    (.empty type)
  have hbody : ∀ type ∈ emptyTypes, ∀ buf,
      unpackRequestBody D fresh type buf 8 = .ok (.empty, 0) := by
    simp only [emptyTypes, List.forall_mem_cons]
    exact ⟨fun _ => rfl, fun _ => rfl, fun _ => rfl, fun _ => rfl, fun _ => rfl, fun _ => rfl,
      List.forall_mem_nil _⟩
  exact hbody type h _

theorem comesBack_setConfig {flags missSendLen : Nat}
    (h : (setConfig flags missSendLen).WellFormed) :
    (setConfig flags missSendLen).ComesBack D fresh xid mem := by
  have hleaves : Leaves ((setConfig flags missSendLen).pack xid)
      (header 9 12 xid ++ (beBytes 2 flags ++ beBytes 2 missSendLen)) :=
    leaves_of_fills (fills_of_tiles (k := 12) rfl) rfl rfl
  refine comesBack_of_leaves h (show (12 : Int) < 2 ^ 16 by decide) hxid rfl rfl hleaves ?_
    (.setConfig _ _)
  refine bind_eq_ok.mpr ⟨(), reject_neg (by decide) _, ?_⟩
  refine bind_eq_ok.mpr ⟨_, numbersAt_ok (.cons ?_ (.cons ?_ .nil)), rfl⟩
  · exact readNtoh_of_bytes (by decide) rfl h.2
  · exact readNtoh_of_bytes (by decide) rfl h.1

theorem comesBack_queueGetConfig {port : Nat} (h : (queueGetConfig port).WellFormed) :
    (queueGetConfig port).ComesBack D fresh xid mem := by
  have hleaves : Leaves ((queueGetConfig port).pack xid)
      (header 22 16 xid ++ (beBytes 4 port ++ zeros 4)) :=
    leaves_of_fills (fills_of_tiles (k := 16) rfl) rfl rfl
  have hread : readNtoh (header 22 16 xid ++ (beBytes 4 port ++ zeros 4)) 8 4 = .ok port :=
    readNtoh_of_bytes (by decide) rfl (Nat.lt_of_le_of_lt h.2 (by decide))
  refine comesBack_of_leaves h (show (16 : Int) < 2 ^ 16 by decide) hxid rfl rfl hleaves ?_
    (.queueGetConfig _)
  refine bind_eq_ok.mpr ⟨(), reject_neg (by decide) _, bind_eq_ok.mpr ⟨port, hread, ?_⟩⟩
  have hport : ¬(port = 0 ∨ ofppMax < port) :=
    not_or.mpr ⟨Nat.ne_of_gt h.1, Nat.not_lt.mpr h.2⟩
  exact bind_eq_ok.mpr ⟨(), reject_neg hport _, rfl⟩

omit hxid in
/-- The fields of a port modification, in the order of the bytes. -/
theorem leaves_portMod (portNo config mask advertise : Nat) {hwAddr : Bytes}
    (hlength : hwAddr.length = ethAddrLen) (xid : Nat) :
    Leaves ((portMod portNo hwAddr config mask advertise hlength).pack xid)
      (header 16 40 xid ++ [beBytes 4 portNo, zeros 4, hwAddr, zeros 2, beBytes 4 config,
        beBytes 4 mask, beBytes 4 advertise, zeros 4].flatten) := by
  have hhead : Leaves (headerStores 16 xid 40) (header 16 40 xid) :=
    leaves_of_fills (fills_of_tiles (k := 8) rfl) rfl rfl
  have hstores : (portMod portNo hwAddr config mask advertise hlength).pack xid =
      shift 8 (row 0 [beBytes 4 portNo, zeros 4, hwAddr, zeros 2, beBytes 4 config, beBytes 4 mask,
        beBytes 4 advertise, zeros 4]) ++ headerStores 16 xid 40 := by
    simp only [pack, row, shift, Store.shift, List.map_cons, List.map_nil, beBytes_length, zeros,
      List.length_replicate, hlength]
    rfl
  rw [hstores]
  exact hhead.prepend (leaves_row _)

omit hxid in
theorem six_bytes {bs : Bytes} (h : bs.length = 6) : ∃ a b c d e f, bs = [a, b, c, d, e, f] := by
  obtain ⟨a, b, c, hfirst⟩ := List.length_eq_three.mp
    (show (bs.take 3).length = 3 by rw [List.length_take, h]; rfl)
  obtain ⟨d, e, f, hlast⟩ := List.length_eq_three.mp
    (show (bs.drop 3).length = 3 by rw [List.length_drop, h])
  refine ⟨a, b, c, d, e, f, ?_⟩
  rw [← List.take_append_drop 3 bs, hfirst, hlast]
  rfl

theorem comesBack_portMod {portNo config mask advertise : Nat} {hwAddr : Bytes}
    {hlength : hwAddr.length = ethAddrLen}
    (h : (portMod portNo hwAddr config mask advertise hlength).WellFormed) :
    (portMod portNo hwAddr config mask advertise hlength).ComesBack D fresh xid mem := by
  obtain ⟨hport, hconfig, hmask, hadvertise⟩ := h
  have hrest : ([beBytes 4 portNo, zeros 4, hwAddr, zeros 2, beBytes 4 config, beBytes 4 mask,
      beBytes 4 advertise, zeros 4] : List Bytes).flatten.length = 32 := by
    simp only [List.length_flatten, List.map_cons, List.map_nil, beBytes_length, zeros,
      List.length_replicate, hlength]
    rfl
  have hlen : (header 16 40 xid ++ [beBytes 4 portNo, zeros 4, hwAddr, zeros 2, beBytes 4 config,
      beBytes 4 mask, beBytes 4 advertise, zeros 4].flatten).length = 40 := by
    rw [List.length_append, hrest]
    rfl
  refine comesBack_of_leaves ⟨hport, hconfig, hmask, hadvertise⟩
    (show (40 : Int) < 2 ^ 16 by decide) hxid
    (congrArg _ hlen.symm) hlen (leaves_portMod _ _ _ _ hlength xid) ?_ (.portMod _ _ _ _ _ hlength)
  obtain ⟨a, b, c, d, e, f, rfl⟩ := six_bytes hlength
  refine bind_eq_ok.mpr ⟨(), reject_neg (by decide) _, ?_⟩
  refine bind_eq_ok.mpr ⟨portNo, readNtoh_of_bytes (by decide) rfl hport, ?_⟩
  refine bind_eq_ok.mpr ⟨_, rfl, ?_⟩
  refine bind_eq_ok.mpr ⟨_, numbersAt_ok (.cons ?_ (.cons ?_ (.cons ?_ .nil))), rfl⟩
  · exact readNtoh_of_bytes (by decide) rfl hconfig
  · exact readNtoh_of_bytes (by decide) rfl hmask
  · exact readNtoh_of_bytes (by decide) rfl hadvertise

end Request

end Fixed

section Modifications

/-! ## Modifications -/

namespace Request

variable {D : RequestDecoders} {fresh : Bytes → Nat → Bytes} {xid : Nat} {mem : Int → UInt8}
  (hxid : xid < 2 ^ 32)

/-- Behind 16 bytes of fields a loop leaves what it is given. -/
theorem leaves_behind {α : Type} {pack : α → List Store × Int} {wire : α → Bytes} {as : List α}
    {fields last : List Store} {bs : Bytes} (hhead : Leaves (fields ++ last) bs)
    (hlen : bs.length = 16)
    (h : ∀ a ∈ as, Leaves (pack a).1 (wire a) ∧ (pack a).2 = (wire a).length) :
    Leaves (fields ++ packLoop pack 16 as ++ last) (bs ++ as.flatMap wire) := by
  have hall := hhead.around (leaves_packLoop h)
  rw [hlen] at hall
  rw [packLoop_eq_shift]
  exact hall

/-- `ntohs` of a single byte. -/
theorem hton_two_of_lt {n : Nat} (h : n < 2 ^ 8) : hton 2 n = 256 * n := by
  simp only [hton, leBytes, leNat, List.reverse_cons, List.reverse_nil, List.nil_append,
    List.cons_append, UInt8.toNat_ofNat']
  omega

include hxid

/-- A request of fixed fields with a loop behind them. -/
theorem comesBack_of_loop {r : Request} {α : Type} {pack : α → List Store × Int} {wire : α → Bytes}
    {as : List α} {fields : List Store} {bs : Bytes} {len : Nat} {body : RequestBody}
    (h : r.WellFormed) (hshort : r.bufLen < 2 ^ 16) (hlen : len = 16 + (as.flatMap wire).length)
    (hbufLen : r.bufLen = len)
    (hpack : r.pack xid = fields ++ packLoop pack 16 as ++ headerStores r.typeNo xid r.bufLen)
    (hhead : Leaves (fields ++ headerStores r.typeNo xid r.bufLen) (header r.typeNo len xid ++ bs))
    (hbs : bs.length = 8)
    (hloop : ∀ a ∈ as, Leaves (pack a).1 (wire a) ∧ (pack a).2 = (wire a).length)
    (hbody : unpackRequestBody D fresh r.typeNo
      (header r.typeNo len xid ++ (bs ++ as.flatMap wire)) len = .ok (body, 0))
    (hcarries : r.Carries body) : r.ComesBack D fresh xid mem := by
  have hsixteen : (header r.typeNo len xid ++ bs).length = 16 := by
    rw [List.length_append, hbs]
    rfl
  have hsize : (header r.typeNo len xid ++ (bs ++ as.flatMap wire)).length = len := by
    rw [← List.append_assoc, List.length_append, hsixteen, hlen]
  refine comesBack_of_leaves h hshort hxid (hbufLen.trans (congrArg _ hsize.symm)) hsize ?_ hbody
    hcarries
  rw [hpack, ← List.append_assoc]
  exact leaves_behind hhead hsixteen hloop

theorem comesBack_groupMod {m : GroupMod} (h : m.WellFormed) (hshort : m.bufLen < 2 ^ 16) :
    (groupMod m).ComesBack D fresh xid mem := by
  have hbufLen : m.bufLen = (16 + (m.buckets.flatMap AnyBucket.wire).length : Nat) := by
    rw [GroupMod.bufLen, bucketsTotalLen,
      sum_announced fun b hb => AnyBucket.ofpLen_wire (h.buckets b hb)]
    rfl
  have hfield : AnyInstruction.field 2 m.bufLen =
      beBytes 2 (16 + (m.buckets.flatMap AnyBucket.wire).length) := by
    rw [hbufLen]
    exact field_of_lt (by omega)
  generalize hlen : 16 + (m.buckets.flatMap AnyBucket.wire).length = len at hbufLen hfield
  have hgroupId : m.groupId < 2 ^ 32 := by
    have hid := h.groupId
    unfold ofpgMax ofpgAll at hid
    omega
  have hcommand : m.command < 2 ^ 16 := Nat.lt_of_le_of_lt h.command (by decide)
  have hhead : Leaves (m.fieldStores ++ headerStores 15 xid m.bufLen) (header 15 len xid ++
      (beBytes 2 m.command ++ (beBytes 1 m.type ++ (zeros 1 ++ beBytes 4 m.groupId)))) := by
    rw [headerStores, hfield]
    exact leaves_of_fills (fills_of_tiles (k := 16) rfl) rfl rfl
  refine comesBack_of_loop hxid h hshort hlen.symm hbufLen rfl hhead rfl
    (fun b hb => AnyBucket.leaves (h.buckets b hb)) ?_ (.groupMod m)
  have hdrop : (header 15 len xid ++ ((beBytes 2 m.command ++ (beBytes 1 m.type ++
      (zeros 1 ++ beBytes 4 m.groupId))) ++ m.buckets.flatMap AnyBucket.wire)).drop 16 =
        m.buckets.flatMap AnyBucket.wire ++ [] := (List.append_nil _).symm
  have hrest : sizeSub len 16 = (m.buckets.flatMap AnyBucket.wire).length := by
    unfold sizeSub
    omega
  have hfits : (m.buckets.flatMap AnyBucket.wire).length < 2 ^ 64 := by omega
  have hcount : bucketLayout.count badLen (m.buckets.flatMap AnyBucket.wire ++ [])
      (m.buckets.flatMap AnyBucket.wire).length = .ok m.buckets.length :=
    Layout.count_wires (by decide) (fun b hb => AnyBucket.tells (h.buckets b hb)) []
  have hall : unpackAll bucketLayout.size (fun _ => oflStructsBucketUnpack fresh m.type)
      m.buckets.length (m.buckets.flatMap AnyBucket.wire ++ [])
      (m.buckets.flatMap AnyBucket.wire).length = .ok (m.buckets.map AnyBucket.back, 0) :=
    unpackAll_wires_all (fun b hb => AnyBucket.tells (h.buckets b hb))
      (fun b hb => AnyBucket.takes (h.buckets b hb) fresh) [] hfits
  rw [← hdrop, ← hrest] at hcount hall
  have htype : ¬(ofpgtFf < hton 2 m.type ∧ hton 2 m.type < 128) := by
    rw [hton_two_of_lt h.type]
    unfold ofpgtFf
    omega
  have hid : ¬(ofpgMax < m.groupId ∧ ¬(m.command = commandDelete ∧ m.groupId = ofpgAll)) :=
    fun hbad => h.groupId.elim (Nat.not_le.mpr hbad.1) hbad.2
  have hdeleted : ¬(m.command = commandDelete ∧ 0 < m.buckets.length) := fun hbad => by
    rw [h.deleted hbad.1] at hbad
    exact Nat.lt_irrefl 0 hbad.2
  have hindirect : ¬(m.type = ofpgtIndirect ∧ m.buckets.length ≠ 1) :=
    fun hbad => hbad.2 (h.indirect hbad.1)
  refine bind_eq_ok.mpr ⟨(), reject_neg (by omega) _, ?_⟩
  refine bind_eq_ok.mpr ⟨m.command, readNtoh_of_bytes (by decide) rfl hcommand, ?_⟩
  refine bind_eq_ok.mpr ⟨(), reject_neg (Nat.not_lt.mpr h.command) _, ?_⟩
  refine bind_eq_ok.mpr ⟨m.type, readNtoh_of_bytes (by decide) rfl h.type, ?_⟩
  refine bind_eq_ok.mpr ⟨(), reject_neg htype _, ?_⟩
  refine bind_eq_ok.mpr ⟨m.groupId, readNtoh_of_bytes (by decide) rfl hgroupId, ?_⟩
  refine bind_eq_ok.mpr ⟨(), reject_neg hid _, bind_eq_ok.mpr ⟨_, hcount, ?_⟩⟩
  refine bind_eq_ok.mpr ⟨(), reject_neg hdeleted _, bind_eq_ok.mpr ⟨(), reject_neg hindirect _, ?_⟩⟩
  exact bind_eq_ok.mpr ⟨_, hall, rfl⟩

theorem comesBack_meterMod {m : MeterMod} (h : m.WellFormed) (hshort : m.bufLen < 2 ^ 16) :
    (meterMod m).ComesBack D fresh xid mem := by
  have hbufLen : m.bufLen = (16 + (m.bands.flatMap AnyBand.wire).length : Nat) := by
    rw [MeterMod.bufLen, bandsTotalLen, sum_announced fun b hb => AnyBand.ofpLen_wire (h.bands b hb)]
    rfl
  have hfield : AnyInstruction.field 2 m.bufLen =
      beBytes 2 (16 + (m.bands.flatMap AnyBand.wire).length) := by
    rw [hbufLen]
    exact field_of_lt (by omega)
  generalize hlen : 16 + (m.bands.flatMap AnyBand.wire).length = len at hbufLen hfield
  have hmeterId : m.meterId < 2 ^ 32 := by
    have hid := h.meterId
    unfold ofpmMax ofpmAll at hid
    omega
  have hcommand : m.command < 2 ^ 16 := Nat.lt_of_le_of_lt h.command (by decide)
  have hflags : m.flags < 2 ^ 16 := Nat.lt_trans h.flags (by decide)
  have hhead : Leaves (m.fieldStores ++ headerStores 29 xid m.bufLen) (header 29 len xid ++
      (beBytes 2 m.command ++ (beBytes 2 m.flags ++ beBytes 4 m.meterId))) := by
    rw [headerStores, hfield]
    exact leaves_of_fills (fills_of_tiles (k := 16) rfl) rfl rfl
  refine comesBack_of_loop hxid h hshort hlen.symm hbufLen rfl hhead rfl
    (fun b hb => AnyBand.leaves (h.bands b hb)) ?_ (.meterMod m)
  have hdrop : (header 29 len xid ++ ((beBytes 2 m.command ++ (beBytes 2 m.flags ++
      beBytes 4 m.meterId)) ++ m.bands.flatMap AnyBand.wire)).drop 16 =
        m.bands.flatMap AnyBand.wire ++ [] := (List.append_nil _).symm
  have hrest : sizeSub len 16 = (m.bands.flatMap AnyBand.wire).length := by
    unfold sizeSub
    omega
  have hfits : (m.bands.flatMap AnyBand.wire).length < 2 ^ 64 := by omega
  have hall : unpackRecords meterBandLayout badLen (fun _ => oflStructsMeterBandUnpack)
      (m.bands.flatMap AnyBand.wire ++ []) (m.bands.flatMap AnyBand.wire).length
      (m.bands.flatMap AnyBand.wire).length = .ok (m.bands.map AnyBand.back, 0) :=
    unpackRecords_wires (by decide) (fun b hb => AnyBand.tells (h.bands b hb))
      (fun b hb => AnyBand.takes (h.bands b hb)) [] hfits
  rw [← hdrop, ← hrest] at hall
  have hshift : ¬1 < m.flags >>> 3 := by
    have hlt := h.flags
    rw [Nat.shiftRight_eq_div_pow]
    omega
  have hid : ¬(ofpmMax < m.meterId ∧ ¬(m.command = commandDelete ∧ m.meterId = ofpmAll)) :=
    fun hbad => h.meterId.elim (Nat.not_le.mpr hbad.1) hbad.2
  refine bind_eq_ok.mpr ⟨(), reject_neg (by omega) _, ?_⟩
  refine bind_eq_ok.mpr ⟨m.command, readNtoh_of_bytes (by decide) rfl hcommand, ?_⟩
  refine bind_eq_ok.mpr ⟨(), reject_neg (Nat.not_lt.mpr h.command) _, ?_⟩
  refine bind_eq_ok.mpr ⟨m.flags, readNtoh_of_bytes (by decide) rfl hflags, ?_⟩
  refine bind_eq_ok.mpr ⟨(), reject_neg hshift _, ?_⟩
  refine bind_eq_ok.mpr ⟨m.meterId, readNtoh_of_bytes (by decide) rfl hmeterId, ?_⟩
  exact bind_eq_ok.mpr ⟨(), reject_neg hid _, bind_eq_ok.mpr ⟨_, hall, rfl⟩⟩

end Request

end Modifications

section Multipart

/-! ## Multipart requests -/

namespace Request

variable {D : RequestDecoders} {fresh : Bytes → Nat → Bytes} {xid : Nat} {mem : Int → UInt8}
  {type : Nat} {flags : UInt16} {body : MultipartBody}

/-- The type and the flags of a multipart request. -/
def multipartHead (type : Nat) (flags : UInt16) : Bytes :=
  beBytes 2 type ++ (beBytes 2 flags.toNat ++ zeros 4)

/-- With the type and the flags read, the request is what the case of the type makes of it. -/
theorem unpackMultipart_ok {len : Nat} {tail : Bytes} {part : RequestPart} (htype : type < 2 ^ 16)
    (hlen : 16 ≤ len)
    (hpart : unpackPart D type (header 18 len xid ++ (multipartHead type flags ++ tail))
      (sizeSub len 16) = .ok (part, 0)) :
    unpackRequestBody D fresh 18 (header 18 len xid ++ (multipartHead type flags ++ tail)) len =
      .ok (.multipart type flags.toNat part, 0) := by
  refine bind_eq_ok.mpr ⟨(), reject_neg (Nat.not_lt.mpr hlen) _, ?_⟩
  refine bind_eq_ok.mpr ⟨type, readNtoh_of_bytes (by decide) rfl htype, ?_⟩
  refine bind_eq_ok.mpr ⟨(part, 0), hpart, ?_⟩
  exact bind_eq_ok.mpr ⟨_, readNtoh_of_bytes (by decide) rfl flags.toNat_lt, rfl⟩

theorem unpackPart_empty (h : type ∈ emptyParts) (os : Bytes) :
    ∃ part, unpackPart D type os 0 = .ok (part, 0) ∧ MultipartBody.empty.Carries type part := by
  have hall : ∀ type ∈ emptyParts, type = 12 ∨ type ≠ 12 ∧
      unpackPart D type os 0 = .ok (.empty, 0) := by
    simp only [emptyParts, List.forall_mem_cons]
    exact ⟨.inr ⟨by decide, rfl⟩, .inr ⟨by decide, rfl⟩, .inr ⟨by decide, rfl⟩,
      .inr ⟨by decide, rfl⟩, .inl trivial, .inr ⟨by decide, rfl⟩, List.forall_mem_nil _⟩
  rcases hall type h with rfl | ⟨hne, heq⟩
  · exact ⟨.tableFeatures [], rfl, .noTables rfl⟩
  · exact ⟨.empty, heq, .empty hne⟩

/-- A request with eight bytes at most behind the type and the flags. -/
theorem comesBack_part {ts : List Store} {bs : Bytes} {part : RequestPart} (hxid : xid < 2 ^ 32)
    (h : body.WellFormed type) (htype : type < 2 ^ 16) (hleaves : Leaves ts bs)
    (hstores : body.stores = shift 16 ts) (hsize : body.size = bs.length) (hle : bs.length ≤ 8)
    (hpart : unpackPart D type
      (header 18 (16 + bs.length) xid ++ (multipartHead type flags ++ bs)) bs.length = .ok (part, 0))
    (hcarries : body.Carries type part) : (multipart type flags body).ComesBack D fresh xid mem := by
  have hfield : AnyInstruction.field 2 (16 + (bs.length : Int)) = beBytes 2 (16 + bs.length) := by
    have hlt : 16 + bs.length < 2 ^ 16 := by omega
    exact field_of_lt hlt
  have hhead : Leaves ([⟨8, beBytes 2 type⟩, ⟨10, beBytes 2 flags.toNat⟩, ⟨12, zeros 4⟩] ++
      headerStores 18 xid (16 + bs.length))
      (header 18 (16 + bs.length) xid ++ multipartHead type flags) := by
    rw [headerStores, hfield]
    exact leaves_of_fills (fills_of_tiles (k := 16) rfl) rfl rfl
  have hall : Leaves (shift 16 ts ++ _) _ := hhead.prepend hleaves
  have hlen : (header 18 (16 + bs.length) xid ++ (multipartHead type flags ++ bs)).length =
      16 + bs.length := by
    rw [← List.append_assoc, List.length_append]
    rfl
  have hbufLen : (multipart type flags body).bufLen = (16 + bs.length : Nat) := by
    change (16 : Int) + body.size = _
    rw [hsize]
    rfl
  have hrest : sizeSub (16 + bs.length) 16 = bs.length := by
    unfold sizeSub
    omega
  refine comesBack_of_leaves h (by omega) hxid (hbufLen.trans (congrArg _ hlen.symm)) hlen ?_
    (unpackMultipart_ok htype (Nat.le_add_right _ _) (by rw [hrest, hpart]))
    (.multipart _ _ _ _ hcarries)
  change Leaves (body.stores ++ [⟨8, beBytes 2 type⟩, ⟨10, beBytes 2 flags.toNat⟩, ⟨12, zeros 4⟩] ++
    headerStores 18 xid (16 + body.size)) _
  rw [hstores, hsize, List.append_assoc, ← List.append_assoc (header _ _ _)]
  exact hall

theorem comesBack_multipart (hxid : xid < 2 ^ 32) (h : body.WellFormed type) :
    (multipart type flags body).ComesBack D fresh xid mem := by
  cases body with
  | flow => exact absurd h id
  | empty =>
    have hlt : ∀ type ∈ emptyParts, type < 2 ^ 16 := by decide
    obtain ⟨part, hpart, hcarries⟩ := @unpackPart_empty D type h
      (header 18 16 xid ++ (multipartHead type flags ++ []))
    exact comesBack_part hxid h (hlt type h) leaves_nil rfl rfl (Nat.zero_le 8) hpart hcarries
  | port portNo =>
    obtain ⟨rfl, hport, hgood⟩ := h
    have hleaves : Leaves [⟨0, beBytes 4 portNo⟩, ⟨4, zeros 4⟩] (beBytes 4 portNo ++ zeros 4) :=
      leaves_of_fills (fills_of_tiles (k := 8) rfl) rfl rfl
    have hpart : oflMsgUnpackMultipartRequestPort (header 18 24 xid ++
        (multipartHead 4 flags ++ (beBytes 4 portNo ++ zeros 4))) 8 = .ok (.port portNo, 0) := by
      refine bind_eq_ok.mpr ⟨(), reject_neg (by decide) _, ?_⟩
      refine bind_eq_ok.mpr ⟨portNo, readNtoh_of_bytes (by decide) rfl hport, ?_⟩
      exact bind_eq_ok.mpr ⟨(), reject_neg hgood _, rfl⟩
    exact comesBack_part hxid ⟨rfl, hport, hgood⟩ (by decide) hleaves rfl rfl (Nat.le_refl 8) hpart
      (.port portNo)
  | queue portNo queueId =>
    obtain ⟨rfl, hport, hgood, hqueue⟩ := h
    have hleaves : Leaves [⟨0, beBytes 4 portNo⟩, ⟨4, beBytes 4 queueId⟩]
        (beBytes 4 portNo ++ beBytes 4 queueId) :=
      leaves_of_fills (fills_of_tiles (k := 8) rfl) rfl rfl
    have hpart : oflMsgUnpackMultipartRequestQueue (header 18 24 xid ++
        (multipartHead 5 flags ++ (beBytes 4 portNo ++ beBytes 4 queueId))) 8 =
          .ok (.queue portNo queueId, 0) := by
      refine bind_eq_ok.mpr ⟨(), reject_neg (by decide) _, ?_⟩
      refine bind_eq_ok.mpr ⟨portNo, readNtoh_of_bytes (by decide) rfl hport, ?_⟩
      refine bind_eq_ok.mpr ⟨(), reject_neg hgood _, ?_⟩
      exact bind_eq_ok.mpr ⟨queueId, readNtoh_of_bytes (by decide) rfl hqueue, rfl⟩
    exact comesBack_part hxid ⟨rfl, hport, hgood, hqueue⟩ (by decide) hleaves rfl rfl (Nat.le_refl 8)
      hpart (.queue portNo queueId)
  | group groupId =>
    obtain ⟨rfl, hgroup⟩ := h
    have hleaves : Leaves [⟨0, beBytes 4 groupId⟩, ⟨4, zeros 4⟩] (beBytes 4 groupId ++ zeros 4) :=
      leaves_of_fills (fills_of_tiles (k := 8) rfl) rfl rfl
    have hpart : oflMsgUnpackMultipartRequestGroup (header 18 24 xid ++
        (multipartHead 6 flags ++ (beBytes 4 groupId ++ zeros 4))) 8 = .ok (.group groupId, 0) := by
      refine bind_eq_ok.mpr ⟨(), reject_neg (by decide) _, ?_⟩
      exact bind_eq_ok.mpr ⟨groupId, readNtoh_of_bytes (by decide) rfl hgroup, rfl⟩
    exact comesBack_part hxid ⟨rfl, hgroup⟩ (by decide) hleaves rfl rfl (Nat.le_refl 8) hpart
      (.group groupId)
  | meter meterId =>
    obtain ⟨htype, hmeter⟩ := h
    have hleaves : Leaves [⟨0, beBytes 4 meterId⟩, ⟨4, zeros 4⟩] (beBytes 4 meterId ++ zeros 4) :=
      leaves_of_fills (fills_of_tiles (k := 8) rfl) rfl rfl
    have hpart : oflMsgUnpackMeterMultipartRequest (header 18 24 xid ++
        (multipartHead type flags ++ (beBytes 4 meterId ++ zeros 4))) 8 = .ok (.meter meterId, 0) := by
      refine bind_eq_ok.mpr ⟨(), reject_neg (by decide) _, ?_⟩
      exact bind_eq_ok.mpr ⟨meterId, readNtoh_of_bytes (by decide) rfl hmeter, rfl⟩
    refine comesBack_part hxid ⟨htype, hmeter⟩ (by omega) hleaves rfl rfl (Nat.le_refl 8) ?_
      (.meter meterId)
    rcases htype with rfl | rfl
    · exact hpart
    · exact hpart

end Request

end Multipart

section FlowMods

/-! ## Flow modifications -/

/-- A match as it is to be sent, without the padding. -/
def AnyMatch.wire (m : AnyMatch) : Bytes :=
  beBytes 2 m.toOflMatch.type ++ (beBytes 2 (4 + m.oxmFields.length) ++ m.oxmFields)

theorem AnyMatch.wire_length (m : AnyMatch) : m.wire.length = 4 + m.oxmFields.length := by
  rw [AnyMatch.wire, List.length_append, List.length_append, beBytes_length, beBytes_length]
  omega

namespace AnyMatch.Whole

variable {m : AnyMatch} (h : m.Whole)

include h

theorem length_fields : m.toOflMatch.length = m.oxmFields.length :=
  h.length.trans m.oxmFields_length.symm

/-- `ofl_structs_match_pack` leaves a match as it is to be sent. -/
theorem leaves : Leaves m.pack.1 m.wire := by
  have hwritten : m.writtenLen ≤ 4 + m.oxmFields.length := by
    unfold AnyMatch.writtenLen
    split
    · exact Nat.le_add_right 4 _
    · exact Nat.le_refl _
  refine ⟨fun s hs => ?_, fun mem => ?_⟩
  · have hin := (AnyMatch.fills_written h.type).1.within s hs
    rw [AnyMatch.wire_length]
    omega
  · rw [AnyMatch.wire_length]
    exact AnyMatch.window_pack h.type h.length_fields mem

/-- An entry has more than four bytes. -/
theorem entries_of_short (hshort : m.oxmFields.length ≤ 4) : m.toOflMatch.entries = [] := by
  cases hentries : m.toOflMatch.entries with
  | nil => rfl
  | cons e es =>
    have he : e ∈ m.toOflMatch.entries := hentries ▸ List.mem_cons_self
    obtain ⟨f, hf, -⟩ := h.wellFormed.known e he
    have hsize := (sized_of_known hf (h.valued e he)).mem_sizes
    have hlong : 4 < entrySize e.header := by
      rw [entrySize, if_pos hsize]
      have hpos : ∀ n ∈ writtenSizes, 0 < n := by decide
      have hword := hpos _ hsize
      omega
    have hsum : m.entriesSize = entrySize e.header + (es.map fun e => entrySize e.header).sum := by
      rw [AnyMatch.entriesSize, hentries, List.map_cons, List.sum_cons]
    rw [m.oxmFields_length, hsum] at hshort
    omega

/-- `ofl_structs_match_unpack` gives the match back, and takes its padding with it. -/
theorem unpacks (hlt : 4 + m.oxmFields.length < 2 ^ 16) (rest : Bytes) (len : Nat) :
    ∃ om : Match, oflStructsMatchUnpack (m.wire ++ rest) (m.oxmFields ++ rest) len =
        .ok (om, sizeSub len (roundUp (4 + m.oxmFields.length) 8)) ∧ om.Is m.toOflMatch := by
  have hback := pull_fields_iff (q := ⟨0, 0, 0, 0, 0, m.toOflMatch, h.valued⟩)
  obtain ⟨om, r, hpull, hperm⟩ := hback.mpr ⟨h.wellFormed, h.survives⟩
  change oxmPullMatch m.oxmFields m.oxmFields.length = .ok (om, r) at hpull
  have hlength := h.length_fields
  rw [AnyMatch.wire, h.type, List.append_assoc, List.append_assoc, oflStructsMatchUnpack_eq hlt]
  by_cases hlong : 4 < m.oxmFields.length
  · rw [if_pos hlong, hpull]
    exact ⟨_, rfl, h.type, hlength.symm, hperm⟩
  · have hnil := h.entries_of_short (Nat.le_of_not_lt hlong)
    have hzero : m.oxmFields.length = 0 := by
      rw [m.oxmFields_length, AnyMatch.entriesSize, hnil]
      rfl
    rw [if_neg hlong]
    refine ⟨_, rfl, h.type, (hlength.trans hzero).symm, ?_⟩
    rw [hnil]
    exact List.Perm.nil

end AnyMatch.Whole

namespace FlowMod

variable {m : FlowMod}

/-- The fields in front of the match. -/
def fieldRow (m : FlowMod) : List Bytes :=
  [beBytes 8 m.cookie, beBytes 8 m.cookieMask, beBytes 1 m.tableId, beBytes 1 m.command,
    beBytes 2 m.idleTimeout, beBytes 2 m.hardTimeout, beBytes 2 m.priority, beBytes 4 m.bufferId,
    beBytes 4 m.outPort, beBytes 4 m.outGroup, beBytes 2 m.flags, zeros 2]

def fieldBytes (m : FlowMod) : Bytes := m.fieldRow.flatten

/-- The padding of the match. -/
def padLen (m : FlowMod) : Nat :=
  roundUp (4 + m.oflMatch.oxmFields.length) 8 - (4 + m.oflMatch.oxmFields.length)

def instructionsWire (m : FlowMod) : Bytes := m.instructions.flatMap AnyInstruction.wire

theorem matchEnd_eq (h : m.oflMatch.Whole) :
    m.matchEnd = 48 + ((4 + m.oflMatch.oxmFields.length) + m.padLen) := by
  obtain ⟨hle, -, -⟩ := roundUp_eight (4 + m.oflMatch.oxmFields.length)
  have hroom := m.matchRoom_eq
  rw [h.length_fields, FlowMod.matchRoom] at hroom
  unfold padLen
  omega

theorem bufLen_eq (h : m.WellFormed) : m.bufLen = (48 + ((4 + m.oflMatch.oxmFields.length) +
    m.padLen + m.instructionsWire.length) : Nat) := by
  rw [bufLen, instructionsTotalLen,
    sum_announced fun i hi => AnyInstruction.ofpLen_wire (h.instructions i hi),
    matchEnd_eq h.oflMatch, ← Nat.cast_add]
  exact congrArg _ (Nat.add_assoc _ _ _)

/-- The match, the memory that pads it and the instructions. -/
theorem leaves_tail (h : m.WellFormed) (pad : Bytes) : Leaves
    (⟨(4 + m.oflMatch.oxmFields.length : Nat), pad⟩ :: (m.oflMatch.pack.1 ++
      shift ((4 + m.oflMatch.oxmFields.length) + pad.length : Nat)
        (packLoop AnyInstruction.pack 0 m.instructions)))
    (m.oflMatch.wire ++ (pad ++ m.instructionsWire)) := by
  have hpad : Leaves [⟨0, pad⟩] pad := by
    have hrow := leaves_row [pad]
    rwa [List.flatten_singleton] at hrow
  have hmatch := h.oflMatch.leaves.prepend hpad
  have hloop : Leaves (packLoop AnyInstruction.pack 0 m.instructions) m.instructionsWire :=
    leaves_packLoop fun i hi => AnyInstruction.leaves (h.instructions i hi)
  have hall := hmatch.append hloop
  rw [List.length_append, AnyMatch.wire_length, List.append_assoc, List.append_assoc] at hall
  simpa only [shift, Store.shift, List.map_cons, List.map_nil, List.cons_append, List.nil_append,
    Int.zero_add] using hall

theorem leaves_head (m : FlowMod) {len : Nat} (hlen : m.bufLen = len) (hlt : len < 2 ^ 16)
    (xid : Nat) : Leaves (m.fieldStores ++ headerStores 14 xid m.bufLen)
      (header 14 len xid ++ m.fieldBytes) := by
  have hheader : Leaves (headerStores 14 xid m.bufLen) (header 14 len xid) := by
    rw [hlen, headerStores, field_of_lt hlt]
    exact leaves_of_fills (fills_of_tiles (k := 8) rfl) rfl rfl
  exact hheader.prepend (leaves_row m.fieldRow)

/-- What is sent is as it is to be, but for the padding of the match. -/
theorem packed_eq (h : m.WellFormed) {len : Nat} (hlen : m.bufLen = len) (hlt : len < 2 ^ 16)
    (xid : Nat) (mem : Int → UInt8) :
    ∃ pad : Bytes, pad.length = m.padLen ∧ (Request.flowMod m).packed xid mem =
      header 14 len xid ++ (m.fieldBytes ++ (m.oflMatch.wire ++ (pad ++ m.instructionsWire))) := by
  obtain ⟨n, hn⟩ : ∃ n, n = 4 + m.oflMatch.oxmFields.length := ⟨_, rfl⟩
  obtain ⟨pad, hpad⟩ : ∃ pad, pad = window (run m.fieldStores mem) ((n : Int) + 48) m.padLen :=
    ⟨_, rfl⟩
  have hpadLen : pad.length = m.padLen := by rw [hpad, window_length]
  have hend : (m.matchEnd : Int) = 48 + (n + pad.length : Nat) := by
    rw [matchEnd_eq h.oflMatch, hpadLen, hn, Nat.cast_add]
    rfl
  -- the padding may as well be stored
  have hrun : run (m.pack xid) mem = run (m.fieldStores ++ shift 48 (⟨n, pad⟩ ::
      (m.oflMatch.pack.1 ++ shift (n + pad.length : Nat) (packLoop AnyInstruction.pack 0
        m.instructions))) ++ headerStores 14 xid m.bufLen) mem := by
    rw [pack, packLoop_eq_shift, hend, ← shift_shift, List.append_assoc m.fieldStores,
      ← shift_append, run_append, run_append, run_append, run_append]
    refine congrArg (run _) ?_
    change _ = run (⟨(n : Int) + 48, pad⟩ :: shift 48 _) _
    rw [hpad, run_window]
  have hhead : (header 14 len xid ++ m.fieldBytes).length = 48 := rfl
  have hlength : (header 14 len xid ++ m.fieldBytes ++ (m.oflMatch.wire ++
      (pad ++ m.instructionsWire))).length = len := by
    have hbufLen := bufLen_eq h
    rw [List.length_append, hhead, List.length_append, AnyMatch.wire_length, List.length_append,
      hpadLen]
    omega
  have hall := (leaves_head m hlen hlt xid).around (hn ▸ leaves_tail h pad)
  rw [hhead] at hall
  have hleft := hall.left mem
  have hsize : m.bufLen.toNat = len := by rw [hlen, Int.toNat_natCast]
  refine ⟨pad, hpadLen, ?_⟩
  change window (run (m.pack xid) mem) 0 m.bufLen.toNat = _
  rw [hrun, hsize, ← List.append_assoc]
  rw [hlength] at hleft
  exact hleft

theorem numbersAt_fields (h : m.WellFormed) (len xid : Nat) (tail : Bytes) :
    numbersAt (header 14 len xid ++ (m.fieldBytes ++ tail)) [(8, 8), (16, 8), (24, 1), (25, 1),
      (26, 2), (28, 2), (30, 2), (32, 4), (36, 4), (40, 4), (44, 2)] = .ok m.numbers := by
  refine numbersAt_ok (.cons ?_ (.cons ?_ (.cons ?_ (.cons ?_ (.cons ?_ (.cons ?_ (.cons ?_
    (.cons ?_ (.cons ?_ (.cons ?_ (.cons ?_ .nil)))))))))))
  · exact readNtoh_of_bytes (by decide) rfl h.cookie
  · exact readNtoh_of_bytes (by decide) rfl h.cookieMask
  · exact readNtoh_of_bytes (by decide) rfl h.tableId
  · exact readNtoh_of_bytes (by decide) rfl h.command
  · exact readNtoh_of_bytes (by decide) rfl h.idleTimeout
  · exact readNtoh_of_bytes (by decide) rfl h.hardTimeout
  · exact readNtoh_of_bytes (by decide) rfl h.priority
  · exact readNtoh_of_bytes (by decide) rfl h.bufferId
  · exact readNtoh_of_bytes (by decide) rfl h.outPort
  · exact readNtoh_of_bytes (by decide) rfl h.outGroup
  · exact readNtoh_of_bytes (by decide) rfl h.flags

theorem comesBack {D : RequestDecoders} {fresh : Bytes → Nat → Bytes} {xid : Nat}
    {mem : Int → UInt8} (hxid : xid < 2 ^ 32) (h : m.WellFormed) (hshort : m.bufLen < 2 ^ 16) :
    (Request.flowMod m).ComesBack D fresh xid mem := by
  obtain ⟨len, hlen⟩ : ∃ len : Nat, m.bufLen = len := ⟨_, bufLen_eq h⟩
  have hbufLen := bufLen_eq h
  have hround := roundUp_eight (4 + m.oflMatch.oxmFields.length)
  obtain ⟨pad, hpad, hpacked⟩ := packed_eq h hlen (by omega) xid mem
  have hroom : (4 + m.oflMatch.oxmFields.length) + pad.length =
      roundUp (4 + m.oflMatch.oxmFields.length) 8 := by
    rw [hpad]
    unfold padLen
    omega
  rw [← hpad] at hbufLen
  have hlong : sizeSub len 48 = roundUp (4 + m.oflMatch.oxmFields.length) 8 +
      m.instructionsWire.length := by
    unfold sizeSub
    omega
  have hrest : sizeSub (sizeSub len 48) (roundUp (4 + m.oflMatch.oxmFields.length) 8) =
      m.instructionsWire.length := by
    rw [hlong]
    unfold sizeSub
    omega
  obtain ⟨om, hunpack, his⟩ := h.oflMatch.unpacks (by omega) (pad ++ m.instructionsWire)
    (sizeSub len 48)
  have hend : roundUp (52 + om.length) 8 =
      48 + ((4 + m.oflMatch.oxmFields.length) + pad.length) := by
    rw [his.length, h.oflMatch.length_fields, hroom]
    unfold roundUp
    omega
  refine Request.comesBack_of_packed h hshort hxid hlen hpacked ?_ (.flowMod m om his)
  have hdrop : (header 14 len xid ++ (m.fieldBytes ++ (m.oflMatch.wire ++
      (pad ++ m.instructionsWire)))).drop (roundUp (52 + om.length) 8) =
        m.instructionsWire ++ [] := by
    rw [hend, List.append_nil, ← List.drop_drop]
    change (m.oflMatch.wire ++ (pad ++ m.instructionsWire)).drop _ = _
    rw [← List.append_assoc, List.drop_left']
    rw [List.length_append, AnyMatch.wire_length]
  have hinstructions : unpackRecords instructionLayout badLen
      (fun _ => oflStructsInstructionsUnpack fresh) (m.instructionsWire ++ [])
      m.instructionsWire.length m.instructionsWire.length =
        .ok (m.instructions.map AnyInstruction.back, 0) := by
    have hfits : (m.instructions.flatMap AnyInstruction.wire).length < 2 ^ 64 := by
      change m.instructionsWire.length < 2 ^ 64
      omega
    exact unpackRecords_wires (by decide) (fun i hi => AnyInstruction.tells (h.instructions i hi))
      (fun i hi => AnyInstruction.takes (h.instructions i hi) fresh) [] hfits
  rw [hrest] at hunpack
  rw [← hdrop] at hinstructions
  refine bind_eq_ok.mpr ⟨(), reject_neg (by omega) _, ?_⟩
  refine bind_eq_ok.mpr ⟨m.numbers, numbersAt_fields h len xid _, ?_⟩
  refine bind_eq_ok.mpr ⟨(om, m.instructionsWire.length), hunpack, ?_⟩
  exact bind_eq_ok.mpr ⟨_, hinstructions, rfl⟩

end FlowMod

end FlowMods

section Requests

/-! ## All requests -/

/-- A well-formed request comes back, and nothing of it is left, whatever the buffer held before
and whatever memory the decoder is given. -/
theorem Request.comes_back {r : Request} (h : r.WellFormed) (hshort : r.bufLen < 2 ^ 16) {xid : Nat}
    (hxid : xid < 2 ^ 32) (D : RequestDecoders) (fresh : Bytes → Nat → Bytes) (mem : Int → UInt8) :
    r.ComesBack D fresh xid mem := by
  cases r with
  | empty type => exact comesBack_empty hxid h
  | setConfig flags missSendLen => exact comesBack_setConfig hxid h
  | queueGetConfig port => exact comesBack_queueGetConfig hxid h
  | portMod portNo hwAddr config mask advertise hlength => exact comesBack_portMod hxid h
  | flowMod m => exact FlowMod.comesBack hxid h hshort
  | groupMod m => exact comesBack_groupMod hxid h hshort
  | meterMod m => exact comesBack_meterMod hxid h hshort
  | multipart type flags body => exact comesBack_multipart hxid h

/-- A match on the Ethernet type of IP. -/
def ipMatch : OflMatch :=
  oflStructsMatchPut16 oflStructsMatchInit OxmFieldIndex.ethType.header ethTypeIp

theorem ipMatch_valued : ∀ e ∈ ipMatch.entries, e.value.length = oxmLength e.header := by
  intro e he
  cases List.mem_singleton.mp he
  rfl

def ipAnyMatch : AnyMatch := ⟨ipMatch, fun e he => (ipMatch_valued e he).ge⟩

theorem ipAnyMatch_whole : ipAnyMatch.Whole := by
  refine ⟨rfl, rfl, ipMatch_valued, ⟨by decide, ?_⟩, ?_⟩
  · intro e he
    cases List.mem_singleton.mp he
    exact ⟨defineField OxmFieldIndex.ethType oxmDlNone 0 false, rfl, rfl, trivial⟩
  · intro e he
    cases List.mem_singleton.mp he
    exact ⟨by decide, fun h => absurd h (by decide), fun h => absurd h (by decide)⟩

/-- A flow that gives IP packets the time to live 63, sends them out of a port and to another
table. -/
def ipFlow : FlowMod where
  cookie := 1
  cookieMask := 0
  tableId := 0
  command := 0
  idleTimeout := 60
  hardTimeout := 0
  priority := 0x8000
  bufferId := 0xffffffff
  outPort := ofppAny
  outGroup := ofpgAny
  flags := 0
  oflMatch := ipAnyMatch
  instructions :=
    [.applyActions [.known (.setNwTtl 63) trivial, .known (.output 2 0) trivial], .gotoTable 1]

theorem ipFlow_wellFormed : ipFlow.WellFormed where
  cookie := by decide
  cookieMask := by decide
  tableId := by decide
  command := by decide
  idleTimeout := by decide
  hardTimeout := by decide
  priority := by decide
  bufferId := by decide
  outPort := by decide
  outGroup := by decide
  flags := by decide
  oflMatch := ipAnyMatch_whole
  instructions := by
    intro i hi
    rcases List.mem_pair.mp hi with rfl | rfl
    · refine ⟨fun a ha => ?_, by decide⟩
      rcases List.mem_pair.mp ha with rfl | rfl
      · exact (show 63 < 2 ^ 8 by decide)
      · exact ⟨by decide, by decide, by decide⟩
    · exact (show 1 < 0xff by decide)

def noOtherRequests : RequestDecoders where
  message := fun _ _ len => .ok len
  tableFeatures := fun _ len => .ok (none, len)

/-- The six bytes that pad its match are what was there before. -/
theorem Request.comes_back_ip :
    (Request.flowMod ipFlow).ComesBack noOtherRequests (fun _ _ => []) 7 fun _ => 1 :=
  Request.comes_back (r := .flowMod ipFlow) ipFlow_wellFormed (by decide) (by decide) _ _ _

end Requests

end Nox.Ofl

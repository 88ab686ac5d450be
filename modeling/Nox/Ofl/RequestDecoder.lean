import Nox.Ofl.FlowStats
import Nox.Ofl.Wire

/-!
# Requests, unpacked

The decoders of `ofl-messages-unpack.c` for the requests a controller makes, as a switch that is
built with the same library calls them.  Each gives the structure and what is left of the length;
`ofl_msg_unpack` only logs that something is left.
-/

namespace Nox.Ofl

open Oxm Records

namespace Unpacked

section Structures

/-! ## Structures -/

def ofpetQueueOpFailed : Nat := 9
def ofpetMeterModFailed : Nat := 12
def ofpgmfcBadType : Nat := 10
def ofpgmfcBadCommand : Nat := 11
def ofpqofcBadPort : Nat := 0
def ofpmmfcInvalidMeter : Nat := 2
def ofpmmfcBadCommand : Nat := 4
def ofpmmfcBadFlags : Nat := 5
def ofpmMax : Nat := 0xffff0000

/-- `OFPGC_DELETE` and `OFPMC_DELETE` -/
def commandDelete : Nat := 2

def ofpgtIndirect : Nat := 2

def ofpgtFf : Nat := 3

/-- What follows the type and the flags of a multipart request. -/
inductive RequestPart
  | empty
  | flow (numbers : List Nat) (oflMatch : Match)
  | tableFeatures (tables : List (Option Unit))
  | port (portNo : Nat)
  | queue (portNo queueId : Nat)
  | group (groupId : Nat)
  | meter (meterId : Nat)

/-- The structure of a request.  `other` stands for a message that is not read here. -/
inductive RequestBody
  | empty
  | setConfig (config : List Nat)
  | queueGetConfig (port : Nat)
  | portMod (numbers : List Nat) (hwAddr : Bytes)
  | flowMod (numbers : List Nat) (oflMatch : Match) (instructions : List Instruction)
  | groupMod (numbers : List Nat) (buckets : List Bucket)
  | meterMod (numbers : List Nat) (bands : List (Option MeterBand))
  | multipart (type flags : Nat) (part : RequestPart)
  | other

/-- A request with the type and the transaction id in its header. -/
structure RequestMsg where
  type : Nat
  xid : Nat
  body : RequestBody

/-- The decoders of the messages that become `RequestBody.other`, with what they leave of the
length, and of a table of a request for table features. -/
structure RequestDecoders where
  message : Nat → Bytes → Nat → Unpack Nat
  tableFeatures : Bytes → Nat → Unpack (Option Unit × Nat)

end Structures

section Fixed

/-! ## Messages of a fixed size -/

/-- `ofl_msg_unpack_empty` -/
def oflMsgUnpackEmpty (len : Nat) : Unpack (RequestBody × Nat) := .ok (.empty, sizeSub len 8)

/-- `ofl_msg_unpack_set_config` -/
def oflMsgUnpackSetConfig (src : Bytes) (len : Nat) : Unpack (RequestBody × Nat) := do
  reject (len < 12) badLen
  return (.setConfig (← numbersAt src [(10, 2), (8, 2)]), sizeSub len 12)

/-- `ofl_msg_unpack_queue_get_config_request`: the length is compared to that of another
structure. -/
def oflMsgUnpackQueueGetConfigRequest (src : Bytes) (len : Nat) : Unpack (RequestBody × Nat) := do
  reject (len < 8) badLen
  let port ← readNtoh src 8 4
  reject (port = 0 ∨ ofppMax < port) (.oflError ofpetQueueOpFailed ofpqofcBadPort)
  return (.queueGetConfig port, sizeSub len 16)

/-- `ofl_msg_unpack_port_mod` -/
def oflMsgUnpackPortMod (src : Bytes) (len : Nat) : Unpack (RequestBody × Nat) := do
  reject (len < 40) badLen
  let portNo ← readNtoh src 8 4
  let hwAddr ← memcpy src 16 6
  let numbers ← numbersAt src [(24, 4), (28, 4), (32, 4)]
  return (.portMod (portNo :: numbers) hwAddr, sizeSub len 40)

end Fixed

section Modifications

/-! ## Modifications -/

/-- `ofl_msg_unpack_flow_mod` -/
def oflMsgUnpackFlowMod (fresh : Bytes → Nat → Bytes) (src : Bytes) (len : Nat) :
    Unpack (RequestBody × Nat) := do
  reject (len < 48) badLen
  let numbers ← numbersAt src [(8, 8), (16, 8), (24, 1), (25, 1), (26, 2), (28, 2), (30, 2), (32, 4),
    (36, 4), (40, 4), (44, 2)]
  let (m, len) ← oflStructsMatchUnpack (src.drop 48) (src.drop 52) (sizeSub len 48)
  let insts := src.drop (roundUp (52 + m.length) 8)
  let (instructions, len) ← unpackRecords instructionLayout badLen
    (fun _ => oflStructsInstructionsUnpack fresh) insts len len
  return (.flowMod numbers m instructions, len)

/-- `ofl_msg_unpack_group_mod`: the type, of one byte, goes through `ntohs` before it is checked.
The buckets are counted before they are unpacked. -/
def oflMsgUnpackGroupMod (fresh : Bytes → Nat → Bytes) (src : Bytes) (len : Nat) :
    Unpack (RequestBody × Nat) := do
  reject (len < 16) badLen
  let len := sizeSub len 16
  let command ← readNtoh src 8 2
  reject (commandDelete < command) (.oflError ofpetBadRequest ofpgmfcBadCommand)
  let type ← readNtoh src 10 1
  reject (ofpgtFf < hton 2 type ∧ hton 2 type < 128) (.oflError ofpetBadRequest ofpgmfcBadType)
  let groupId ← readNtoh src 12 4
  reject (ofpgMax < groupId ∧ ¬(command = commandDelete ∧ groupId = ofpgAll))
    (.oflError ofpetGroupModFailed ofpgmfcInvalidGroup)
  let n ← bucketLayout.count badLen (src.drop 16) len
  reject (command = commandDelete ∧ 0 < n) (.oflError ofpetGroupModFailed ofpgmfcInvalidGroup)
  reject (type = ofpgtIndirect ∧ n ≠ 1) (.oflError ofpetGroupModFailed ofpgmfcInvalidGroup)
  let (buckets, len) ← unpackAll bucketLayout.size (fun _ => oflStructsBucketUnpack fresh type) n
    (src.drop 16) len
  return (.groupMod [command, type, groupId] buckets, len)

/-- `ofl_msg_unpack_meter_mod` -/
def oflMsgUnpackMeterMod (src : Bytes) (len : Nat) : Unpack (RequestBody × Nat) := do
  reject (len < 16) badLen
  let len := sizeSub len 16
  let command ← readNtoh src 8 2
  reject (commandDelete < command) (.oflError ofpetBadRequest ofpmmfcBadCommand)
  let flags ← readNtoh src 10 2
  reject (1 < flags >>> 3) (.oflError ofpetBadRequest ofpmmfcBadFlags)
  let meterId ← readNtoh src 12 4
  reject (ofpmMax < meterId ∧ ¬(command = commandDelete ∧ meterId = ofpmAll))
    (.oflError ofpetMeterModFailed ofpmmfcInvalidMeter)
  let (bands, len) ← unpackRecords meterBandLayout badLen (fun _ => oflStructsMeterBandUnpack)
    (src.drop 16) len len
  return (.meterMod [command, flags, meterId] bands, len)

end Modifications

section Multipart

/-! ## Multipart requests -/

/-- The check of the port that statistics are asked of. -/
def badStatsPort (portNo : Nat) : Prop := portNo = 0 ∨ ofppMax < portNo ∧ portNo ≠ ofppAny

instance (portNo : Nat) : Decidable (badStatsPort portNo) :=
  inferInstanceAs (Decidable (_ ∨ _))

/-- `ofl_msg_unpack_multipart_request_port` -/
def oflMsgUnpackMultipartRequestPort (os : Bytes) (len : Nat) : Unpack (RequestPart × Nat) := do
  reject (len < 8) badLen
  let portNo ← readNtoh os 16 4
  reject (badStatsPort portNo) badLen
  return (.port portNo, sizeSub len 8)

/-- `ofl_msg_unpack_multipart_request_queue` -/
def oflMsgUnpackMultipartRequestQueue (os : Bytes) (len : Nat) : Unpack (RequestPart × Nat) := do
  reject (len < 8) badLen
  let portNo ← readNtoh os 16 4
  reject (badStatsPort portNo) badLen
  return (.queue portNo (← readNtoh os 20 4), sizeSub len 8)

/-- `ofl_msg_unpack_multipart_request_group` -/
def oflMsgUnpackMultipartRequestGroup (os : Bytes) (len : Nat) : Unpack (RequestPart × Nat) := do
  reject (len < 8) badLen
  return (.group (← readNtoh os 16 4), sizeSub len 8)

/-- `ofl_msg_unpack_meter_multipart_request` -/
def oflMsgUnpackMeterMultipartRequest (os : Bytes) (len : Nat) : Unpack (RequestPart × Nat) := do
  reject (len < 8) badLen
  return (.meter (← readNtoh os 16 4), sizeSub len 8)

/-- `ofl_msg_unpack_multipart_request_table_features`: the error of a table is not looked at. -/
def oflMsgUnpackMultipartRequestTableFeatures (D : RequestDecoders) (os : Bytes) (len : Nat) :
    Unpack (RequestPart × Nat) := do
  if len = 0 then return (.tableFeatures [], len)
  let (tables, len) ← unpackRecords tableFeaturesLayout
    (.oflError ofpetTableFeaturesFailed ofptffcBadLen) (fun _ => D.tableFeatures) (os.drop 16) len len
  return (.tableFeatures tables, len)

/-- The cases of `ofl_msg_unpack_multipart_request`, without callbacks for experimenters. -/
def unpackPart (D : RequestDecoders) (type : Nat) (os : Bytes) (len : Nat) :
    Unpack (RequestPart × Nat) := do
  match type with
  -- `ofl_msg_unpack_multipart_request_empty` moves the pointer to the length, not the length
  | 0 | 3 | 7 | 8 | 13 => return (.empty, len)
  | 1 | 2 => do
    let ((numbers, m), len) ← oflMsgUnpackMultipartRequestFlow os len
    return (.flow numbers m, len)
  | 12 => oflMsgUnpackMultipartRequestTableFeatures D os len
  | 4 => oflMsgUnpackMultipartRequestPort os len
  | 5 => oflMsgUnpackMultipartRequestQueue os len
  | 6 => oflMsgUnpackMultipartRequestGroup os len
  | 9 | 10 => oflMsgUnpackMeterMultipartRequest os len
  | _ => .error (.oflError ofpetBadRequest ofpbrcBadMultipart)

/-- `ofl_msg_unpack_multipart_request` -/
def oflMsgUnpackMultipartRequest (D : RequestDecoders) (src : Bytes) (len : Nat) :
    Unpack (RequestBody × Nat) := do
  reject (len < 16) badLen
  let type ← readNtoh src 8 2
  let (part, len) ← unpackPart D type src (sizeSub len 16)
  return (.multipart type (← readNtoh src 10 2) part, len)

end Multipart

section Messages

/-! ## Messages -/

/-- The cases of `ofl_msg_unpack`. -/
def unpackRequestBody (D : RequestDecoders) (fresh : Bytes → Nat → Bytes) (type : Nat) (buf : Bytes)
    (len : Nat) : Unpack (RequestBody × Nat) := do
  match type with
  | 0 | 5 | 7 | 20 | 21 | 26 => oflMsgUnpackEmpty len
  | 9 => oflMsgUnpackSetConfig buf len
  | 14 => oflMsgUnpackFlowMod fresh buf len
  | 15 => oflMsgUnpackGroupMod fresh buf len
  | 16 => oflMsgUnpackPortMod buf len
  | 18 => oflMsgUnpackMultipartRequest D buf len
  | 22 => oflMsgUnpackQueueGetConfigRequest buf len
  | 29 => oflMsgUnpackMeterMod buf len
  | _ => return (.other, ← D.message type buf len)

/-- `ofl_msg_unpack`, with what is left of the length in the end. -/
def oflMsgUnpackRequest (D : RequestDecoders) (fresh : Bytes → Nat → Bytes) (buf : Bytes)
    (bufLen : Nat) : Unpack (RequestMsg × Nat) := do
  reject (bufLen < 8) badLen
  reject ((← readNtoh buf 0 1) ≠ ofpVersion) (.oflError ofpetHelloFailed ofphfcIncompatible)
  let xid ← readNtoh buf 4 4
  reject (bufLen ≠ (← readNtoh buf 2 2)) badLen
  let type ← readNtoh buf 1 1
  let (body, len) ← unpackRequestBody D fresh type buf bufLen
  return (⟨type, xid, body⟩, len)

end Messages

end Unpacked

end Nox.Ofl

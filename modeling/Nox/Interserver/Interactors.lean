import Nox.Interserver.Instructions
import Nox.Interserver.MatchSet
import Nox.Interserver.Processor

/-!
# The interactors

The creators of requests, one for each type of request, and the table `Msg_resolver`
keeps of them.
-/

namespace Nox.Interserver

open Nox.Oxm OxmFieldIndex JsonObject
open Ofl

section Messages

/-! ## Messages -/

/-- The `ofp_multipart_types` that are requested. -/
inductive MultipartType
  | desc | flow | aggregate | table | portStats | queue | group | groupDesc | groupFeatures
  | meter | meterConfig | meterFeatures | tableFeatures | portDesc
  deriving DecidableEq, Repr

inductive FlowModCommand
  | add | modify | modifyStrict | delete | deleteStrict
  deriving DecidableEq, Repr

inductive GroupModCommand
  | add | modify | delete
  deriving DecidableEq, Repr

inductive GroupType
  | all | select | indirect | ff
  deriving DecidableEq, Repr

inductive MeterModCommand
  | add | modify | delete
  deriving DecidableEq, Repr

/-- `ofl_msg_flow_mod` -/
structure OflMsgFlowMod where
  cookie : Nat
  cookieMask : Nat
  tableId : Nat
  command : FlowModCommand
  idleTimeout : Nat
  hardTimeout : Nat
  priority : Nat
  bufferId : Nat
  outPort : Nat
  outGroup : Nat
  flags : Nat
  flowMatch : OflMatch
  instructions : Instruction

/-- An `ofl_msg_header` with what the creator sets behind it. -/
inductive OflMsg
  | getConfigRequest
  | setConfig (flags missSendLen : Nat)
  | featuresRequest
  -- the requests that are a multipart header; that for table features has no tables
  | multipart (type : MultipartType)
  | multipartFlow (type : MultipartType) (tableId outPort outGroup cookie cookieMask : Nat)
    (flowMatch : OflMatch)
  | multipartPort (portNo : Nat)
  | multipartQueue (portNo queueId : Nat)
  | multipartGroup (groupId : Nat)
  | multipartMeter (type : MultipartType) (meterId : Nat)
  | queueGetConfigRequest (port : Nat)
  | flowMod (mod : OflMsgFlowMod)
  | groupMod (command : GroupModCommand) (type : GroupType) (groupId : Nat)
    (buckets : List OflBucket)
  | portMod (hwAddr : Bytes) (advertise portNo config mask : Nat)
  | meterMod (command : MeterModCommand) (flags meterId : Nat) (bands : List OflMeterBand)

end Messages

section Information

/-! ## Requests for information -/

variable (parse : String → JsonObject) (junk : Nat → Junk) (args : JsonObject)

/-- The `match_set` of a request; each call of `construct_match` has its own
uninitialised memory. -/
def constructMatches : Except Fault OflMatch :=
  constructSetIfExists parse (fun i f p => constructMatch parse (junk i) p f) args "match_set"
    oflStructsMatchInit

/-- `flow_information_req_creator` -/
def flowInformationReqCreator (type : MultipartType) : Except Fault OflMsg := do
  let tableId ← readNum 8 args "table_id" (.ok ofpttAll)
  let outPort ← readNum 32 args "out_port" (.ok ofppAny)
  let outGroup ← readNum 32 args "out_group" (.ok ofpgAny)
  let cookie ← readNum 64 args "cookie" (.ok 0)
  let cookieMask ← readNum 64 args "cookie_mask" (.ok 0)
  let f ← constructMatches parse junk args
  return .multipartFlow type tableId outPort outGroup cookie cookieMask f

def flowInfoArgs : ArgumentsList :=
  [("match_set", .eJArray), ("table_id", .eNum), ("out_port", .eNum), ("out_group", .eNum),
    ("cookie", .eNum), ("cookie_mask", .eNum)]

/-- `Inter_flow_info::request_msg_creator` -/
def interFlowInfo : Except Fault OflMsg := do
  checkArgs parse flowInfoArgs args
  flowInformationReqCreator parse junk args .flow

/-- `Inter_flow_agr_info::request_msg_creator` -/
def interFlowAgrInfo : Except Fault OflMsg := do
  checkArgs parse flowInfoArgs args
  flowInformationReqCreator parse junk args .aggregate

/-- `Inter_port_stats::request_msg_creator` -/
def interPortStats : Except Fault OflMsg := do
  checkArgs parse [("port", .eNum)] args
  return .multipartPort (← readNum 32 args "port" (.ok ofppAny))

/-- `Inter_queue_stats::request_msg_creator` -/
def interQueueStats : Except Fault OflMsg := do
  checkArgs parse [("port", .eNum), ("queue_id", .eNum)] args
  let portNo ← readNum 32 args "port" (.ok ofppAny)
  let queueId ← readNum 32 args "queue_id" (.ok ofpqAll)
  return .multipartQueue portNo queueId

/-- `Inter_group_stats::request_msg_creator` -/
def interGroupStats : Except Fault OflMsg := do
  checkArgs parse [("group_id", .eNum)] args
  return .multipartGroup (← readNum 32 args "group_id" (.ok ofpgAll))

/-- `Inter_queue_config::request_msg_creator` -/
def interQueueConfig : Except Fault OflMsg := do
  checkArgs parse [("port", .eNum)] args
  return .queueGetConfigRequest (← readNum 32 args "port" (.ok ofppAny))

/-- `create_meter_request` -/
def createMeterRequest (type : MultipartType) : Except Fault OflMsg := do
  return .multipartMeter type (← readNum 32 args "meter_id" (.ok ofpmAll))

/-- `Inter_meter_stats::request_msg_creator` -/
def interMeterStats : Except Fault OflMsg := do
  checkArgs parse [("meter_id", .eNum)] args
  createMeterRequest args .meter

/-- `Inter_meter_config::request_msg_creator` -/
def interMeterConfig : Except Fault OflMsg := do
  checkArgs parse [("meter_id", .eNum)] args
  createMeterRequest args .meterConfig

end Information

section Modifications

/-! ## Modifications -/

variable (parse : String → JsonObject) (junk : Nat → Junk) (args : JsonObject)

/-- `Inter_sw_config_setter::request_msg_creator` -/
def interSwConfigSetter : Except Fault OflMsg := do
  checkArgs parse [("flags", .eNum), ("max_len", .eNum)] args
  let flags ← readNum 16 args "flags" (invalidArgument "missing flags field")
  let missSendLen ← readNum 16 args "max_len" (invalidArgument "missing max_len field")
  return .setConfig flags missSendLen

def flowModArgs : ArgumentsList :=
  [("command", .eString), ("instruction_set", .eJArray), ("match_set", .eJArray),
    ("cookie", .eNum), ("cookie_mask", .eNum), ("table_id", .eNum), ("idle_timeout", .eNum),
    ("hard_timeout", .eNum), ("priority", .eNum), ("buffer_id", .eNum), ("flags", .eNum),
    ("out_port", .eNum), ("out_group", .eNum)]

/-- What is no command deletes. -/
def flowModCommand (commandType : String) : FlowModCommand :=
  if commandType = "add" then .add
  else if commandType = "modify" then .modify
  else if commandType = "modify_strict" then .modifyStrict
  else if commandType = "delete" then .delete
  else if commandType = "delete_strict" then .deleteStrict
  else .delete

/-- `Inter_flow_mod::request_msg_creator` -/
def interFlowMod : Except Fault OflMsg := do
  checkArgs parse flowModArgs args
  let cookie ← readNum 64 args "cookie" (.ok 0)
  let cookieMask ← readNum 64 args "cookie_mask" (.ok 0)
  let tableId ← readNum 8 args "table_id" (.ok ofpttAll)
  let commandType ← require args "command" "missing command field\n"
  let idleTimeout ← readNum 16 args "idle_timeout" (.ok 0)
  let hardTimeout ← readNum 16 args "hard_timeout" (.ok 0)
  let outPort ← readNum 32 args "out_port" (.ok ofppAny)
  let outGroup ← readNum 32 args "out_group" (.ok ofpgAny)
  let flags ← readNum 16 args "flags" (.ok 0)
  let priority ← readNum 16 args "priority" (.ok 0)
  let bufferId ← readNum 32 args "buffer_id" (.ok 0)
  let f ← constructMatches parse junk args
  let i ← constructSetIfExists parse (fun _ i p => constructInstruction parse p i) args
    "instruction_set" []
  let command := flowModCommand commandType
  return .flowMod
    { cookie, cookieMask, tableId, command, idleTimeout, hardTimeout, priority, bufferId,
      outPort, outGroup, flags, flowMatch := f, instructions := i }

def groupModArgs : ArgumentsList :=
  [("command", .eString), ("group_type", .eString), ("group_id", .eNum), ("buckets", .eJArray)]

def groupModCommand (value : String) : Except Fault GroupModCommand :=
  if value = "add" then .ok .add
  else if value = "modify" then .ok .modify
  else if value = "delete" then .ok .delete
  else invalidArgument "Invalid command, must be add, modify or delete!\n"

def groupType (value : String) : Except Fault GroupType :=
  if value = "all" then .ok .all
  else if value = "select" then .ok .select
  else if value = "indirect" then .ok .indirect
  else if value = "fast_failover" then .ok .ff
  else invalidArgument "Invalid group_type!\n"

/-- `Inter_group_mod::request_msg_creator` -/
def interGroupMod : Except Fault OflMsg := do
  checkArgs parse groupModArgs args
  let command ← groupModCommand (← require args "command" "missing command field\n")
  let type ← groupType (← require args "group_type" "missing group_type field\n")
  let groupId ← readNum 32 args "group_id" (invalidArgument "missing group_id field\n")
  let buckets ← constructSetIfExists parse
    (fun _ buckets p => do return buckets ++ [← constructBucket parse p]) args "buckets" []
  return .groupMod command type groupId buckets

def portModArgs : ArgumentsList :=
  [("port", .eNum), ("hw_addr", .eMAC), ("config", .eNum), ("advertise", .eNum), ("mask", .eNum)]

/-- `Inter_port_mod::request_msg_creator` -/
def interPortMod : Except Fault OflMsg := do
  checkArgs parse portModArgs args
  let advertise ← readNum 32 args "advertise" (invalidArgument "missing advertise field\n")
  let portNo ← readNum 32 args "port" (invalidArgument "missing port field\n")
  let config ← readNum 32 args "config" (invalidArgument "missing config field\n")
  let mask ← readNum 32 args "mask" (.ok 0xffffffff)
  let hwAddr ← readEthernetaddr (← require args "hw_addr" "missing hw_addr field\n")
  return .portMod hwAddr advertise portNo config mask

def meterModArgs : ArgumentsList :=
  [("command", .eString), ("flags", .eNum), ("meter_id", .eString), ("meter_bands", .eJArray)]

def meterModCommand (value : String) : Except Fault MeterModCommand :=
  if value = "add" then .ok .add
  else if value = "modify" then .ok .modify
  else if value = "delete" then .ok .delete
  else invalidArgument "Invalid command!\n"

def meterId (value : String) : Nat :=
  if value = "slowpath" then ofpmSlowpath
  else if value = "controller" then ofpmController
  else if value = "all" then ofpmAll
  else narrow 32 (strtonum value)

/-- `Inter_meter_mod::request_msg_creator` -/
def interMeterMod : Except Fault OflMsg := do
  checkArgs parse meterModArgs args
  let command ← meterModCommand (← require args "command" "missing command field\n")
  let flags ← readNum 16 args "flags" (invalidArgument "missing flags field\n")
  let id ← require args "meter_id" "missing meter_id field\n"
  let bands ← constructSetIfExists parse
    (fun _ bands p => do return bands ++ [← constructBand p]) args "meter_bands" []
  return .meterMod command flags (meterId id) bands

end Modifications

section Resolver

/-! ## The table -/

variable (parse : String → JsonObject) (junk : Nat → Junk)

/-- A request that is always the same. -/
def fixedRequest (msg : OflMsg) : Interactor OflMsg where
  isModify := false
  requestMsgCreator := fun _ => .ok msg

def information (creator : JsonObject → Except Fault OflMsg) : Interactor OflMsg where
  isModify := false
  requestMsgCreator := creator

def modification (creator : JsonObject → Except Fault OflMsg) : Interactor OflMsg where
  isModify := true
  requestMsgCreator := creator

/-- What `Msg_resolver::install` registers. -/
def msgResolver : Resolver OflMsg := [
  ("get_sw_config", fixedRequest .getConfigRequest),
  ("set_sw_config", modification (interSwConfigSetter parse)),
  ("features_request", fixedRequest .featuresRequest),
  ("table_features", fixedRequest (.multipart .tableFeatures)),
  ("switch_description", fixedRequest (.multipart .desc)),
  ("table_stats", fixedRequest (.multipart .table)),
  ("flow_info", information (interFlowInfo parse junk)),
  ("flow_mod", modification (interFlowMod parse junk)),
  ("agr_flow_info", information (interFlowAgrInfo parse junk)),
  ("port_stats", information (interPortStats parse)),
  ("port_desc", fixedRequest (.multipart .portDesc)),
  ("queue_stats", information (interQueueStats parse)),
  ("group_stats", information (interGroupStats parse)),
  ("group_desc", fixedRequest (.multipart .groupDesc)),
  ("group_features", fixedRequest (.multipart .groupFeatures)),
  ("meter_stats", information (interMeterStats parse)),
  ("meter_config", information (interMeterConfig parse)),
  ("meter_features", fixedRequest (.multipart .meterFeatures)),
  ("queue_config", information (interQueueConfig parse)),
  ("group_mod", modification (interGroupMod parse)),
  ("port_mod", modification (interPortMod parse)),
  ("meter_mod", modification (interMeterMod parse))]

end Resolver

end Nox.Interserver

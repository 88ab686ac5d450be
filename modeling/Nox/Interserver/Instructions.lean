import Nox.Interserver.Actions

/-!
# The builders of instructions, buckets and bands

`Instruction_fields_builder`, `Bucket_fields_builder` and `Meter_band_builder`.  An
`action_set` comes as text: the value is printed and parsed again, and what is read is
taken for an array.
-/

namespace Nox.Interserver

open Nox.Oxm OxmFieldIndex JsonObject
open Ofl

section Sets

/-! ## Arrays in texts -/

variable {σ : Type} (parse : String → JsonObject)

/-- The builder's loop over an array that is read from a text: each element goes to
`construct` with what has been built before, and with its place. -/
def constructSet (construct : Nat → σ → JsonObject → Except Fault σ) (value : String) (init : σ) :
    Except Fault σ := do
  let ar ← (parse value).elements
  ar.zipIdx.foldlM (fun s p => construct p.2 s p.1) init

/-- The set under a key, if there is one. -/
def constructSetIfExists (construct : Nat → σ → JsonObject → Except Fault σ) (args : JsonObject)
    (key : String) (init : σ) : Except Fault σ := do
  match ← args.findIfExists key with
  | none => return init
  | some value => constructSet parse construct value init

/-- The `action_set` of an instruction or a bucket. -/
def constructActionSet (args : JsonObject) : Except Fault Actions :=
  constructSetIfExists parse (fun _ ac p => constructAction p ac parse) args "action_set" []

end Sets

section Instructions

/-! ## Instructions -/

/-- An `ofl_instruction_header` with what follows it. -/
inductive OflInstruction
  | gotoTable (tableId : Nat)
  | writeMetadata (metadata metadataMask : Nat)
  | writeActions (actions : Actions)
  | applyActions (actions : Actions)
  | clearActions
  | meter (meterId : Nat)
  deriving DecidableEq, Repr

/-- `insts`, the first `inst_num` of them. -/
abbrev Instruction := List OflInstruction

def instrTags : ArgumentsList :=
  [("instr_type", .eString), ("goto_id", .eNum), ("metadata", .eNum), ("metadata_mask", .eNum),
    ("meter_id", .eNum), ("action_set", .eJArray)]

variable (parse : String → JsonObject) (args : JsonObject) (instr : Instruction)

def constructGotoTable : Except Fault Instruction := do
  let value ← require args "goto_id" "missing goto_id argument\n"
  return instr ++ [.gotoTable (narrow 8 (strtonum value))]

def constructWriteMetadata : Except Fault Instruction := do
  let value ← require args "metadata" "missing metadata field"
  let md := narrow 64 (strtonum value)
  match ← args.findIfExists "metadata_mask" with
  | none => return instr ++ [.writeMetadata md 0xffffffffffffffff]
  | some valueMask => return instr ++ [.writeMetadata md (narrow 64 (strtonum valueMask))]

def constructWriteActions : Except Fault Instruction := do
  return instr ++ [.writeActions (← constructActionSet parse args)]

def constructApplyActions : Except Fault Instruction := do
  return instr ++ [.applyActions (← constructActionSet parse args)]

def constructMeter : Except Fault Instruction := do
  let value ← require args "meter_id" "missing meter_id field"
  return instr ++ [.meter (narrow 32 (strtonum value))]

/-- `Instruction_fields_builder::construct_instruction` -/
def constructInstruction : Except Fault Instruction := do
  checkArgs parse instrTags args
  let value ← require args "instr_type" "missing instr_type field\n"
  if value = "goto_table" then constructGotoTable args instr
  else if value = "write_metadata" then constructWriteMetadata args instr
  else if value = "write_actions" then constructWriteActions parse args instr
  else if value = "apply_actions" then constructApplyActions parse args instr
  else if value = "clear_actions" then return instr ++ [.clearActions]
  else if value = "meter" then constructMeter args instr
  else return instr

end Instructions

section Buckets

/-! ## Buckets -/

/-- `ofl_bucket` -/
structure OflBucket where
  weight : Nat
  watchPort : Nat
  watchGroup : Nat
  actions : Actions
  deriving DecidableEq, Repr

def bucketTags : ArgumentsList :=
  [("weight", .eNum), ("watch_port", .eNum), ("watch_group", .eNum), ("action_set", .eJArray)]

/-- `Bucket_fields_builder::construct_bucket` -/
def constructBucket (parse : String → JsonObject) (args : JsonObject) : Except Fault OflBucket := do
  checkArgs parse bucketTags args
  let weight ← readNum 16 args "weight" (.ok 0)
  let watchPort ← readNum 32 args "watch_port" (.ok 0)
  let watchGroup ← readNum 32 args "watch_group" (.ok 0)
  let actions ← constructActionSet parse args
  return { weight, watchPort, watchGroup, actions }

end Buckets

section Bands

/-! ## Bands -/

/-- An `ofl_meter_band_header` with what follows it. -/
inductive OflMeterBand
  | drop (rate burstSize : Nat)
  | dscpRemark (rate burstSize precLevel : Nat)
  deriving DecidableEq, Repr

/-- `_band_tags`: they are registered, but nothing checks them. -/
def bandTags : ArgumentsList :=
  [("meter_type", .eString), ("rate", .eNum), ("burst_size", .eNum), ("prec_level", .eNum)]

/-- `Meter_band_builder::construct_band`, which checks no arguments. -/
def constructBand (args : JsonObject) : Except Fault OflMeterBand := do
  let rate ← readNum 32 args "rate" (invalidArgument "missing rate field\n")
  let burstSize ← readNum 32 args "burst_size" (invalidArgument "missing burst_size field\n")
  let value ← require args "meter_type" "missing meter_type field\n"
  if value = "drop" then return .drop rate burstSize
  else if value = "dscp_remark" then
    let precLevel ← readNum 8 args "prec_level" (invalidArgument "missing prec_level field\n")
    return .dscpRemark rate burstSize precLevel
  else invalidArgument "Invalid meter_type field!\n"

end Bands

end Nox.Interserver

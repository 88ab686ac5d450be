import Nox.Interserver.MatchBuilder
import Nox.Ofl.Actions

/-!
# The action builder

The class `Actions`, which collects the actions of a list, and
`Action_fields_builder::construct_action` with the table of its arguments.
-/

namespace Nox.Interserver

open Nox.Oxm OxmFieldIndex JsonObject
open Ofl

section Actions

/-! ## `Actions` -/

/-- `acts`, the first `act_num` of them. -/
abbrev Actions := List OflAction

def createOutput (acts : Actions) (port : Nat) : Actions :=
  acts ++ [.output port 0]

/-- `CreateSetField`: `fields[field]` puts a zero where there is none. -/
def createSetField (acts : Actions) (field : String) (value : Bytes) : Actions :=
  acts ++ [.setField ((findField field).elim 0 fun fld => fld.index.header) value]

/-- The type is written to where the array pointed before the header is there. -/
def createCopyTTL (acts : Actions) (type : HeaderAction) : Actions :=
  if type ≠ .copyTtlIn ∧ type ≠ .copyTtlOut then acts else acts ++ [.untyped]

def createDecTTL (acts : Actions) (type : HeaderAction) : Actions :=
  if type ≠ .decMplsTtl ∧ type ≠ .decNwTtl then acts else acts ++ [.header type]

def createPushAction (acts : Actions) (type : PushAction) (ethertype : Nat) : Actions :=
  if type ≠ .pushMpls ∧ type ≠ .pushVlan ∧ type ≠ .pushPbb then acts
  else acts ++ [.push type ethertype]

def createPopVlan (acts : Actions) : Actions :=
  acts ++ [.header .popVlan]

def createPopMpls (acts : Actions) (ethertype : Nat) : Actions :=
  acts ++ [.popMpls ethertype]

def createSetNwTTL (acts : Actions) (nwTtl : Nat) : Actions :=
  acts ++ [.setNwTtl nwTtl]

def createSetMplsTTL (acts : Actions) (mplsTtl : Nat) : Actions :=
  acts ++ [.setMplsTtl mplsTtl]

def createSetQueue (acts : Actions) (queueId : Nat) : Actions :=
  acts ++ [.setQueue queueId]

def createGroupAction (acts : Actions) (groupId : Nat) : Actions :=
  acts ++ [.group groupId]

end Actions

section Table

/-! ## Arguments -/

/-- The type `construct_action_tags` registers a field under. -/
def actionArgType : OxmFieldIndex → ArgType
  | ipv4Src | ipv4Dst => .eIpv4
  | ethSrc | ethDst => .eMAC
  | ipv6Src | ipv6Dst | ipv6NdTarget | ipv6NdTll | ipv6NdSll => .eIpv6
  | _ => .eNum

/-- `construct_action_tags` -/
def actionTags : ArgumentsList :=
  [("out_port", .eString), ("queue_id", .eNum), ("group_id", .eNum), ("tag_type", .eString),
    ("ethertype", .eNum), ("ttl_action", .eString), ("ttl", .eNum), ("ttl_type", .eString),
    ("action_type", .eString)] ++ fields.map fun p => (p.name, actionArgType p.index)

/-- `construct_action_tags_special` picks the fields that `construct_match_tags_special`
does. -/
def actionTagsSpecial : List MatchField := matchTagsSpecial

end Table

section ConstructAction

/-! ## `construct_action` -/

variable {α : Type}

def invalidArgument (what : String) : Except Fault α := .error (.invalidArgument what)

/-- A text that has to be there. -/
def require (args : JsonObject) (key what : String) : Except Fault String := do
  match ← args.findIfExists key with
  | none => invalidArgument what
  | some value => return value

/-- The constructor of `ethernetaddr`; its exception is caught as the others are. -/
def readEthernetaddr (value : String) : Except Fault Bytes :=
  match ethernetaddr value with
  | some octet => .ok octet
  | none => invalidArgument ("bad ethernet address cast: " ++
      "source string value could not be interpreted as ethernet address")

def outputPort (value : String) : Nat :=
  if value = "in_port" then ofppInPort
  else if value = "table" then ofppTable
  else if value = "normal" then ofppNormal
  else if value = "flood" then ofppFlood
  else if value = "controller" then ofppController
  else if value = "local" then ofppLocal
  else narrow 32 (strtonum value)

variable (args : JsonObject) (acts : Actions)

def constructOutput : Except Fault Actions := do
  let value ← require args "out_port" "missing out_port argument in action output!\n"
  return createOutput acts (outputPort value)

def constructSetQueue : Except Fault Actions := do
  let value ← require args "queue_id" "missing queue_id argument in action set_queue!\n"
  return createSetQueue acts (narrow 32 (strtonum value))

def constructGroup : Except Fault Actions := do
  let value ← require args "group_id" "missing group_id argument in action group!\n"
  return createGroupAction acts (narrow 32 (strtonum value))

def constructPush : Except Fault Actions := do
  let tt ← require args "tag_type" "missing tag_type argument in action push!\n"
  let et ← require args "ethertype" "missing ethertype argument in action push!\n"
  let ethertype := narrow 16 (strtonum et)
  if tt = "vlan" then return createPushAction acts .pushVlan ethertype
  else if tt = "mpls" then return createPushAction acts .pushMpls ethertype
  else if tt = "pbb" then return createPushAction acts .pushPbb ethertype
  else invalidArgument "invalid tag_type in action push!\n"

def constructPop : Except Fault Actions := do
  let tt ← require args "tag_type" "missing tag_type argument in action pop!\n"
  if tt = "vlan" then return createPopVlan acts
  else if tt = "mpls" then
    let et ← require args "ethertype" "missing ethertype argument in action pop!\n"
    return createPopMpls acts (narrow 16 (strtonum et))
  else invalidArgument "invalid tag_type in action pop!\n"

def missingTtlType : String := "missing ttl_type argument in action change ttl!\n"

def constructSetTtl : Except Fault Actions := do
  let ttlStr ← require args "ttl" "missing ttl argument in action change ttl!\n"
  let ttl := narrow 8 (strtonum ttlStr)
  let ttlType ← require args "ttl_type" missingTtlType
  if ttlType = "ip" then return createSetNwTTL acts ttl
  else if ttlType = "mpls" then return createSetMplsTTL acts ttl
  else invalidArgument "invalid ttl_type in action chage ttl!\n"

def constructDecTtl : Except Fault Actions := do
  let ttlType ← require args "ttl_type" missingTtlType
  if ttlType = "ip" then return createDecTTL acts .decNwTtl
  else if ttlType = "mpls" then return createDecTTL acts .decMplsTtl
  else invalidArgument "invalid ttl_type in action change ttl!\n"

def constructCopyTtl : Except Fault Actions := do
  let ttlType ← require args "ttl_type" missingTtlType
  if ttlType = "in" then return createCopyTTL acts .copyTtlIn
  else if ttlType = "out" then return createCopyTTL acts .copyTtlOut
  else invalidArgument "invalid ttl_type in action change ttl!\n"

def constructChangeTtl : Except Fault Actions := do
  let ta ← require args "ttl_action" "missing ttl_action argument in action change ttl!\n"
  if ta = "set" then constructSetTtl args acts
  else if ta = "decrement" then constructDecTtl args acts
  else if ta = "copy" then constructCopyTtl args acts
  else invalidArgument "invalid ttl_action!\n"

/-- The loop over numbers: the first field that is there and of a size with a case. -/
def constructFieldNumber : List MatchField → Except Fault Actions
  | [] => return acts
  | p :: ps => do
    match ← args.findIfExists p.name with
    | none => constructFieldNumber ps
    | some value =>
      if p.size = 1 ∨ p.size = 2 ∨ p.size = 4 ∨ p.size = 8 then
        return createSetField acts p.name
          (leBytes p.size (narrow (8 * p.size) (strtonum value)))
      else constructFieldNumber ps

/-- The addresses have been checked, so each text is one. -/
def constructSetField : Except Fault Actions := do
  match ← findFirst args ["ipv4_src", "ipv4_dst"] with
  | some (key, value) => return createSetField acts key ((ipv4addr value).getD [])
  | none =>
    match ← findFirst args
        ["ipv6_src", "ipv6_dst", "ipv6_nd_target", "ipv6_nd_tll", "ipv6_nd_sll"] with
    | some (key, value) => return createSetField acts key ((ipv6addr value).getD [])
    | none =>
      -- both are looked up, and the one looked up last is taken
      let dst ← args.findIfExists "eth_dst"
      let src ← args.findIfExists "eth_src"
      match src, dst with
      | some value, _ => return createSetField acts "eth_src" (← readEthernetaddr value)
      | none, some value => return createSetField acts "eth_dst" (← readEthernetaddr value)
      | none, none => constructFieldNumber args acts actionTagsSpecial

/-- `Action_fields_builder::construct_action`.  A type it does not know adds nothing. -/
def constructAction (parse : String → JsonObject) : Except Fault Actions := do
  checkArgs parse actionTags args
  let value ← require args "action_type" "missing action_type field in action\n"
  if value = "output" then constructOutput args acts
  else if value = "set_queue" then constructSetQueue args acts
  else if value = "group" then constructGroup args acts
  else if value = "push" then constructPush args acts
  else if value = "pop" then constructPop args acts
  else if value = "change_ttl" then constructChangeTtl args acts
  else if value = "set_field" then constructSetField args acts
  else return acts

end ConstructAction

end Nox.Interserver

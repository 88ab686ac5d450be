import Nox.Oxm.Match

/-!
# Actions on the wire

The actions of `ofl-actions.h`, and `ofl_actions_pack` and `ofl_actions_unpack`.  The
decoder reads memory that may end anywhere: what it reads beyond the end is an error of
its own, and its counter of remaining bytes wraps as a `size_t` does.
-/

namespace Nox.Ofl

open Oxm

section Reserved

/-! ## Reserved numbers -/

def ofppMax : Nat := 0xffffff00
def ofppInPort : Nat := 0xfffffff8
def ofppTable : Nat := 0xfffffff9
def ofppNormal : Nat := 0xfffffffa
def ofppFlood : Nat := 0xfffffffb
def ofppController : Nat := 0xfffffffd
def ofppLocal : Nat := 0xfffffffe
def ofppAny : Nat := 0xffffffff
def ofpgMax : Nat := 0xffffff00
def ofpgAll : Nat := 0xfffffffc
def ofpgAny : Nat := 0xffffffff
def ofpttAll : Nat := 0xff
def ofpqAll : Nat := 0xffffffff
def ofpmSlowpath : Nat := 0xfffffffd
def ofpmController : Nat := 0xfffffffe
def ofpmAll : Nat := 0xffffffff

end Reserved

section Actions

/-! ## Actions -/

/-- The actions that are a header and no more. -/
inductive HeaderAction
  | copyTtlOut | copyTtlIn | decMplsTtl | popVlan | decNwTtl | popPbb
  deriving DecidableEq, Repr

inductive PushAction
  | pushVlan | pushMpls | pushPbb
  deriving DecidableEq, Repr

/-- An `ofl_action_header` with what follows it. -/
inductive OflAction
  | output (port maxLen : Nat)
  | header (type : HeaderAction)
  | setMplsTtl (mplsTtl : Nat)
  | push (type : PushAction) (ethertype : Nat)
  | popMpls (ethertype : Nat)
  | setQueue (queueId : Nat)
  | group (groupId : Nat)
  | setNwTtl (nwTtl : Nat)
  -- the header of the field and the memory of the value
  | setField (header : UInt32) (value : Bytes)
  -- a header whose type has not been written
  | untyped
  deriving DecidableEq, Repr

/-- `OFPAT_*` -/
def HeaderAction.type : HeaderAction → Nat
  | copyTtlOut => 11
  | copyTtlIn => 12
  | decMplsTtl => 16
  | popVlan => 18
  | decNwTtl => 24
  | popPbb => 27

def PushAction.type : PushAction → Nat
  | pushVlan => 17
  | pushMpls => 19
  | pushPbb => 26

def ofpatOutput : Nat := 0
def ofpatSetMplsTtl : Nat := 15
def ofpatPopMpls : Nat := 20
def ofpatSetQueue : Nat := 21
def ofpatGroup : Nat := 22
def ofpatSetNwTtl : Nat := 23
def ofpatSetField : Nat := 25

end Actions

section Pack

/-! ## Packing -/

/-- `ROUND_UP` on unsigned numbers. -/
def roundUp (x y : Nat) : Nat := (x + (y - 1)) / y * y

/-- The addresses and `arp` addresses, whose four bytes are in network order in memory. -/
def isNetworkOrder (header : UInt32) : Bool :=
  let field := oxmFieldNo header
  field == 11 || field == 12 || field == 22 || field == 23

/-- What `ofl_actions_pack` writes for the value of a `set_field`; `old` is what the
memory had there. -/
def packSetFieldValue (header : UInt32) (value old : Bytes) : Bytes :=
  match oxmLength header with
  | 1 => value.take 1
  | 6 => value.take 6
  | 16 => value.take 16
  | 2 => leBytes 2 (hton 2 (load 2 value))
  | 4 => if isNetworkOrder header then value.take 4 else leBytes 4 (hton 4 (load 4 value))
  -- `htons` of the value
  | 8 => leBytes 8 (hton 2 (load 8 value))
  | n => old.take n

/-- The header of an action and the bytes behind it. -/
def packAction (type len : Nat) (body : Bytes) : Bytes :=
  beBytes 2 type ++ beBytes 2 len ++ body

/-- `ofl_actions_pack`; `old` is the memory from where the action goes.  Without a type
nothing is known of what it does. -/
def oflActionsPack (old : Bytes) : OflAction → Option Bytes
  | .output port maxLen =>
    some (packAction ofpatOutput 16 (beBytes 4 port ++ beBytes 2 maxLen ++ List.replicate 6 0))
  | .header type => some (packAction type.type 8 (List.replicate 4 0))
  | .setMplsTtl mplsTtl =>
    some (packAction ofpatSetMplsTtl 8 (beBytes 1 mplsTtl ++ List.replicate 3 0))
  | .push type ethertype =>
    some (packAction type.type 8 (beBytes 2 ethertype ++ List.replicate 2 0))
  | .popMpls ethertype =>
    some (packAction ofpatPopMpls 8 (beBytes 2 ethertype ++ List.replicate 2 0))
  | .setQueue queueId => some (packAction ofpatSetQueue 8 (beBytes 4 queueId))
  | .group groupId => some (packAction ofpatGroup 8 (beBytes 4 groupId))
  | .setNwTtl nwTtl => some (packAction ofpatSetNwTtl 8 (beBytes 1 nwTtl ++ List.replicate 3 0))
  | .setField header value =>
    let len := roundUp (oxmLength header) 8
    some (packAction ofpatSetField (8 + len) (beBytes 4 header.toNat ++
      packSetFieldValue header value (old.drop 8) ++
      List.replicate (len - oxmLength header) 0))
  | .untyped => none

/-- `ofl_actions_ofp_len` -/
def oflActionsOfpLen : OflAction → Option Nat
  | .output _ _ => some 16
  | .header _ | .setMplsTtl _ | .push _ _ | .popMpls _ | .setQueue _ | .group _ | .setNwTtl _ =>
    some 8
  | .setField header _ => some (8 + roundUp (oxmLength header) 8)
  | .untyped => none

/-- The loop that packs a list: each action goes where the one before it ends. -/
def packActions (old : Bytes) : List OflAction → Option Bytes
  | [] => some []
  | a :: acts => do
    let bytes ← oflActionsPack old a
    return bytes ++ (← packActions (old.drop bytes.length) acts)

end Pack

section Unpack

/-! ## Unpacking -/

/-- What ends a decoder early. -/
inductive UnpackError
  -- `ofl_error` of a type and a code
  | oflError (type code : Nat)
  -- a read outside the memory
  | overrun
  deriving DecidableEq, Repr

abbrev Unpack := Except UnpackError

def ofpetBadAction : Nat := 2
def ofpbacBadType : Nat := 0
def ofpbacBadLen : Nat := 1
def ofpbacBadExperimenter : Nat := 2
def ofpbacBadOutPort : Nat := 4
def ofpbacBadArgument : Nat := 5

def badAction {α : Type} (code : Nat) : Unpack α := .error (.oflError ofpetBadAction code)

/-- `n` bytes of the memory from `off` on. -/
def memcpy (src : Bytes) (off n : Nat) : Unpack Bytes :=
  if off + n ≤ src.length then .ok ((src.drop off).take n) else .error .overrun

/-- A number in network order. -/
def readNtoh (src : Bytes) (off k : Nat) : Unpack Nat := do
  return beNat (← memcpy src off k)

/-- Subtraction of `size_t`. -/
def sizeSub (len n : Nat) : Nat := (len + 2 ^ 64 - n) % 2 ^ 64

def ethTypeVlan : Nat := 0x8100
def ethTypeVlanPbb : Nat := 0x88a8

/-- An action of a fixed size. -/
def checkSize (len n : Nat) : Unpack Unit :=
  if len < n then badAction ofpbacBadLen else .ok ()

def unpackOutput (src : Bytes) (len : Nat) : Unpack (OflAction × Nat) := do
  checkSize len 16
  let port ← readNtoh src 4 4
  if port = 0 ∨ ofppMax < port ∧ port < ofppInPort ∨ port = ofppAny then
    badAction ofpbacBadOutPort
  else
    let maxLen ← readNtoh src 8 2
    return (.output port maxLen, sizeSub len 16)

/-- The check of the Ethernet type of a tag. -/
def pushTypeOk (type : PushAction) (ethertype : Nat) : Bool :=
  match type with
  | .pushVlan => ethertype == ethTypeVlan || ethertype == ethTypeVlanPbb
  | .pushMpls => ethertype == ethTypeMpls || ethertype == ethTypeMplsMcast
  | .pushPbb => ethertype == ethTypePbb

def unpackPush (type : PushAction) (src : Bytes) (len : Nat) : Unpack (OflAction × Nat) := do
  checkSize len 8
  let ethertype ← readNtoh src 4 2
  if pushTypeOk type ethertype then return (.push type ethertype, sizeSub len 8)
  else badAction ofpbacBadArgument

def unpackGroup (src : Bytes) (len : Nat) : Unpack (OflAction × Nat) := do
  checkSize len 8
  let groupId ← readNtoh src 4 4
  if ofpgMax < groupId then badAction ofpbacBadArgument
  else return (.group groupId, sizeSub len 8)

/-- The memory of the value of a `set_field`; `fresh` is what `malloc` gives. -/
def unpackSetFieldValue (fresh : Bytes) (header : UInt32) (src : Bytes) : Unpack Bytes := do
  match oxmLength header with
  | 1 => memcpy src 8 1
  | 6 => memcpy src 8 6
  | 16 => memcpy src 8 16
  | 2 => return leBytes 2 (← readNtoh src 8 2)
  | 4 =>
    if isNetworkOrder header then memcpy src 8 4 else return leBytes 4 (← readNtoh src 8 4)
  | 8 => return leBytes 8 (← readNtoh src 8 8)
  | n => return fresh.take n

def unpackSetField (fresh : Bytes) (src : Bytes) (len : Nat) : Unpack (OflAction × Nat) := do
  let header := UInt32.ofNat (← readNtoh src 4 4)
  let value ← unpackSetFieldValue fresh header src
  let srcLen ← readNtoh src 2 2
  return (.setField header value, sizeSub len (roundUp srcLen 8))

/-- `ofl_actions_unpack` without callbacks for experimenters: the action and the bytes
that remain. -/
def oflActionsUnpack (fresh : Bytes) (src : Bytes) (len : Nat) : Unpack (OflAction × Nat) := do
  checkSize len 8
  let srcLen ← readNtoh src 2 2
  checkSize len srcLen
  if srcLen % 8 ≠ 0 then badAction ofpbacBadLen
  else
    match ← readNtoh src 0 2 with
    | 0 => unpackOutput src len
    | 11 => return (.header .copyTtlOut, sizeSub len 8)
    | 12 => return (.header .copyTtlIn, sizeSub len 8)
    | 15 => do
      checkSize len 8
      return (.setMplsTtl (← readNtoh src 4 1), sizeSub len 8)
    | 16 => return (.header .decMplsTtl, sizeSub len 8)
    | 17 => unpackPush .pushVlan src len
    | 26 => unpackPush .pushPbb src len
    | 19 => unpackPush .pushMpls src len
    | 18 => return (.header .popVlan, sizeSub len 8)
    | 27 => return (.header .popPbb, sizeSub len 8)
    | 20 => do
      checkSize len 8
      return (.popMpls (← readNtoh src 4 2), sizeSub len 8)
    | 21 => do
      checkSize len 8
      return (.setQueue (← readNtoh src 4 4), sizeSub len 8)
    | 22 => unpackGroup src len
    | 23 => do
      checkSize len 8
      return (.setNwTtl (← readNtoh src 4 1), sizeSub len 8)
    | 24 => return (.header .decNwTtl, sizeSub len 8)
    | 25 => unpackSetField fresh src len
    | 0xffff => do
      checkSize len 8
      badAction ofpbacBadExperimenter
    | _ => badAction ofpbacBadType

/-- `ofl_utils_count_ofp_actions` -/
def oflUtilsCountOfpActions (data : Bytes) (dataLen : Nat) : Unpack Nat :=
  if 4 ≤ dataLen then
    match readNtoh data 2 2 with
    | .error e => .error e
    | .ok actLen =>
      if dataLen < actLen ∨ actLen < 4 then badAction ofpbacBadLen
      else do return (← oflUtilsCountOfpActions (data.drop actLen) (dataLen - actLen)) + 1
  else .ok 0
termination_by dataLen
decreasing_by omega

/-- The loop that unpacks the actions counted before; `fresh` is what `malloc` gives for
each. -/
def unpackCounted (fresh : Nat → Bytes) : Nat → Bytes → Nat → Unpack (List OflAction × Nat)
  | 0, _, len => .ok ([], len)
  | n + 1, act, len => do
    let (a, len) ← oflActionsUnpack (fresh n) act len
    let actLen ← readNtoh act 2 2
    let (acts, len) ← unpackCounted fresh n (act.drop actLen) len
    return (a :: acts, len)

/-- The actions in `len` bytes, and how many bytes remain. -/
def unpackActions (fresh : Nat → Bytes) (src : Bytes) (len : Nat) :
    Unpack (List OflAction × Nat) := do
  unpackCounted fresh (← oflUtilsCountOfpActions src len) src len

end Unpack

end Nox.Ofl

import Nox.Interserver.Interactors
import Nox.Ofl.Requests

/-!
# Requests in memory

The creators build their messages in memory that nobody has cleared, and `ofl_msg_pack`
packs them into memory that nobody has cleared.  What that memory holds is a parameter of a
run: the local variables of `construct_match`, the flags of a multipart request, which no
creator assigns, and the buffer the packer allocates.
-/

namespace Nox.Interserver

open Nox.Oxm JsonObject
open Ofl Stores

section Memory

/-! ## Memory -/

/-- What the memory of one request holds before anything is written to it. -/
structure Memory where
  -- the local variables of each call of `construct_match`
  locals : Nat → Junk
  -- where `new` puts the flags of a multipart request
  flags : UInt16
  -- what `malloc` gives `ofl_msg_pack`
  buffer : Int → UInt8

end Memory

section Reading

/-! ## What the packer reads

Where the packer would read what the creator has not written there is nothing to read. -/

/-- `CreateSetMplsTTL` makes the array as long as the number of the actions before, and
stores the pointer to its action behind the end. -/
def OflAction.HasSlot : OflAction → Prop
  | .setMplsTtl _ => False
  | _ => True

instance (a : OflAction) : Decidable (OflAction.HasSlot a) :=
  match a with
  | .setMplsTtl _ => .isFalse id
  | .output .. | .header _ | .push .. | .popMpls _ | .setQueue _ | .group _ | .setNwTtl _
  | .setField .. | .untyped => .isTrue trivial

instance (a : OflAction) : Decidable a.Readable :=
  match a with
  | .untyped => .isFalse id
  | .setField field value => inferInstanceAs (Decidable (oxmLength field ≤ value.length))
  | .output .. | .header _ | .setMplsTtl _ | .push .. | .popMpls _ | .setQueue _ | .group _
  | .setNwTtl _ => .isTrue trivial

/-- The array has a slot for the action, and what it points to has been written. -/
def OflAction.Written (a : OflAction) : Prop := OflAction.HasSlot a ∧ a.Readable

instance (a : OflAction) : Decidable (OflAction.Written a) := inferInstanceAs (Decidable (_ ∧ _))

def readAction (a : OflAction) : Option AnyAction :=
  if h : OflAction.Written a then some (.known a h.2) else none

def readActions (acts : Actions) : Option (List AnyAction) := acts.mapM readAction

def readInstruction : OflInstruction → Option AnyInstruction
  | .gotoTable tableId => some (.gotoTable tableId)
  | .writeMetadata metadata metadataMask => some (.writeMetadata metadata metadataMask)
  | .writeActions actions => (readActions actions).map .writeActions
  | .applyActions actions => (readActions actions).map .applyActions
  | .clearActions => some .clearActions
  | .meter meterId => some (.meter meterId)

def readBucket (b : OflBucket) : Option AnyBucket :=
  (readActions b.actions).map fun actions => ⟨b.weight, b.watchPort, b.watchGroup, actions⟩

def readBand : OflMeterBand → AnyBand
  | .drop rate burstSize => ⟨rate, burstSize, .drop⟩
  | .dscpRemark rate burstSize precLevel => ⟨rate, burstSize, .dscpRemark precLevel⟩

def readMatch (m : OflMatch) : Option AnyMatch :=
  if h : ∀ e ∈ m.entries, oxmLength e.header ≤ e.value.length then some ⟨m, h⟩ else none

/-- `OFPMP_*` -/
def MultipartType.no : MultipartType → Nat
  | .desc => 0
  | .flow => 1
  | .aggregate => 2
  | .table => 3
  | .portStats => 4
  | .queue => 5
  | .group => 6
  | .groupDesc => 7
  | .groupFeatures => 8
  | .meter => 9
  | .meterConfig => 10
  | .meterFeatures => 11
  | .tableFeatures => 12
  | .portDesc => 13

/-- `OFPFC_*` -/
def FlowModCommand.no : FlowModCommand → Nat
  | .add => 0
  | .modify => 1
  | .modifyStrict => 2
  | .delete => 3
  | .deleteStrict => 4

/-- `OFPGC_*` -/
def GroupModCommand.no : GroupModCommand → Nat
  | .add => 0
  | .modify => 1
  | .delete => 2

/-- `OFPGT_*` -/
def GroupType.no : GroupType → Nat
  | .all => 0
  | .select => 1
  | .indirect => 2
  | .ff => 3

/-- `OFPMC_*` -/
def MeterModCommand.no : MeterModCommand → Nat
  | .add => 0
  | .modify => 1
  | .delete => 2

/-- The flow modification in the message, with its match and its instructions. -/
def OflMsgFlowMod.read (mod : OflMsgFlowMod) : Option FlowMod := do
  let oflMatch ← readMatch mod.flowMatch
  let instructions ← mod.instructions.mapM readInstruction
  return {
    cookie := mod.cookie, cookieMask := mod.cookieMask, tableId := mod.tableId,
    command := mod.command.no, idleTimeout := mod.idleTimeout, hardTimeout := mod.hardTimeout,
    priority := mod.priority, bufferId := mod.bufferId, outPort := mod.outPort,
    outGroup := mod.outGroup, flags := mod.flags, oflMatch, instructions }

/-- The request `ofl_msg_pack` reads of a message, `flags` being what is in the memory where
a multipart request has its flags. -/
def OflMsg.read (flags : UInt16) : OflMsg → Option Request
  | .getConfigRequest => some (.empty 7)
  | .setConfig fl missSendLen => some (.setConfig fl missSendLen)
  | .featuresRequest => some (.empty 5)
  | .multipart type => some (.multipart type.no flags .empty)
  | .multipartFlow type tableId outPort outGroup cookie cookieMask m =>
    (readMatch m).map fun m =>
      .multipart type.no flags (.flow tableId outPort outGroup cookie cookieMask m)
  | .multipartPort portNo => some (.multipart MultipartType.portStats.no flags (.port portNo))
  | .multipartQueue portNo queueId =>
    some (.multipart MultipartType.queue.no flags (.queue portNo queueId))
  | .multipartGroup groupId => some (.multipart MultipartType.group.no flags (.group groupId))
  | .multipartMeter type meterId => some (.multipart type.no flags (.meter meterId))
  | .queueGetConfigRequest port => some (.queueGetConfig port)
  | .flowMod mod => mod.read.map .flowMod
  | .groupMod command type groupId buckets =>
    (buckets.mapM readBucket).map fun buckets =>
      .groupMod { command := command.no, type := type.no, groupId, buckets }
  | .portMod hwAddr advertise portNo config mask =>
    if h : hwAddr.length = ethAddrLen then some (.portMod portNo hwAddr config mask advertise h)
    else none
  | .meterMod command fl meterId bands =>
    some (.meterMod { command := command.no, flags := fl, meterId, bands := bands.map readBand })

end Reading

section Runs

/-! ## Runs -/

variable (parse : String → JsonObject)

/-- The creator of a type makes a message of the request, in the memory it is given. -/
def Creates (mem : Memory) (type : String) (args : JsonObject) (msg : OflMsg) : Prop :=
  ∃ interactor, (msgResolver parse mem.locals).lookup type = some interactor ∧
    interactor.requestMsgCreator args = .ok msg

/-- The packer reads the message the creator makes. -/
def Reads (mem : Memory) (type : String) (args : JsonObject) (r : Request) : Prop :=
  ∃ msg, Creates parse mem type args msg ∧ msg.read mem.flags = some r

/-- The byte at an offset of what is sent. -/
def Memory.sent (mem : Memory) (r : Request) (xid : Nat) : Int → UInt8 :=
  run (r.pack xid) mem.buffer

/-- What is sent for a request is a function of the request. -/
structure Definite (type : String) (args : JsonObject) : Prop where
  /-- All the packer reads has been assigned, so it reads the same message whatever was in
  the memory. -/
  assigned : ∃ r, ∀ mem msg, Creates parse mem type args msg → msg.read mem.flags = some r
  /-- It writes to its buffer only: what a store behind the end does is not defined. -/
  inside : ∀ mem r, Reads parse mem type args r → ∀ xid, ∀ s ∈ r.pack xid,
    0 ≤ s.off ∧ s.stop ≤ r.bufLen
  /-- Two runs send the same bytes, apart from declared padding. -/
  bytes : ∀ mem mem' r r', Reads parse mem type args r → Reads parse mem' type args r' →
    ∀ xid i, 0 ≤ i → i < r.bufLen → ¬r.pad i → mem.sent r xid i = mem'.sent r' xid i

variable {parse : String → JsonObject} {type : String} {args : JsonObject} {mem : Memory}
  {msg : OflMsg}

/-- A message is created in the memory the locals are in; the rest of it does not matter. -/
theorem Creates.withRest (h : Creates parse mem type args msg) (flags : UInt16)
    (buffer : Int → UInt8) : Creates parse ⟨mem.locals, flags, buffer⟩ type args msg := h

/-- An accepted request is definite when one message is read of it that is determined. -/
theorem definite_iff_determined (h : Creates parse mem type args msg) :
    Definite parse type args ↔
      ∃ r, (∀ mem msg, Creates parse mem type args msg → msg.read mem.flags = some r) ∧
        r.Determined := by
  constructor
  · rintro ⟨⟨r, hread⟩, hinside, hbytes⟩
    have hreads (buffer : Int → UInt8) :
        Reads parse ⟨mem.locals, mem.flags, buffer⟩ type args r :=
      ⟨msg, h.withRest _ buffer, hread _ msg (h.withRest mem.flags buffer)⟩
    refine ⟨r, hread, fun xid => ⟨hinside _ r (hreads fun _ => 0) xid, ?_⟩⟩
    intro b b' i hi hlt hpad
    exact hbytes _ _ r r (hreads b) (hreads b') xid i hi hlt hpad
  · rintro ⟨r, hread, hdet⟩
    have heq {mem : Memory} {r' : Request} (hr : Reads parse mem type args r') : r' = r := by
      obtain ⟨msg', hcreates, hread'⟩ := hr
      exact Option.some.inj (hread'.symm.trans (hread _ _ hcreates))
    refine ⟨⟨r, hread⟩, fun mem r' hr xid => ?_, fun mem mem' r' r'' hr hr' xid i hi hlt hpad => ?_⟩
    · rw [heq hr]
      exact (hdet xid).1
    · rw [heq hr] at hlt hpad ⊢
      rw [heq hr']
      exact (hdet xid).2 _ _ i hi hlt hpad

end Runs

end Nox.Interserver

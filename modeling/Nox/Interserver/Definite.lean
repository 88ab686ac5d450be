import Nox.Interserver.MatchMemory
import Nox.Interserver.TypeSafety

/-!
# Which requests are definite

The creators assign all that is packed but for four things: the flags of a multipart request,
the type of an action that copies a TTL, the slot of one that sets that of MPLS, and the
addresses of a match that are not converted.  A match with masked fields of one byte is longer
than its length says, and is written over the end of the buffer when the instructions behind
it are too short.  All other accepted requests are definite (`definite_iff`).
-/

namespace Nox.Interserver

open Nox.Oxm JsonObject
open Ofl
open Lib (ok_bind)

section Conditions

/-! ## Settled requests -/

variable (parse : String → JsonObject)

/-- The types whose requests have a multipart header. -/
def multipartRequests : List String :=
  ["table_features", "switch_description", "table_stats", "flow_info", "agr_flow_info",
    "port_stats", "port_desc", "queue_stats", "group_stats", "group_desc", "group_features",
    "meter_stats", "meter_config", "meter_features"]

/-- The actions of a request, in its instructions or its buckets. -/
def requestActions (type : String) (args : JsonObject) : List JsonObject :=
  if type = "flow_mod" then
    (setObjects parse args "instruction_set").flatMap (instructionActions parse)
  else if type = "group_mod" then
    (setObjects parse args "buckets").flatMap fun p => setObjects parse p "action_set"
  else []

/-- What is written of the match ends in the buffer. -/
def MatchFits (args : JsonObject) : Prop :=
  matchLength parse args % 65536 ≠ 0 →
    4 + matchWritten parse args ≤ Ofl.roundUp (4 + matchLength parse args % 65536) 8 +
      ((setObjects parse args "instruction_set").map (instructionSize parse)).sum

/-- Nothing of the request is left to memory. -/
structure Settled (type : String) (args : JsonObject) : Prop where
  single : type ∉ multipartRequests
  slots : ∀ a ∈ requestActions parse type args, ¬LosesSlot a.text?
  kept : type = "flow_mod" →
    ∀ x ∈ storedIn (setObjects parse args "match_set"), Kept x.1.text? x.2
  fits : type = "flow_mod" → MatchFits parse args

end Conditions

section FlowMod

/-! ## Flow modifications -/

variable {parse : String → JsonObject} {junk : Nat → Junk} {args : JsonObject} {msg : OflMsg}

/-- Only the match of a flow modification depends on memory. -/
theorem interFlowMod_inv (h : interFlowMod parse junk args = .ok msg) :
    ∃ mod : OflMsgFlowMod, msg = .flowMod mod ∧
      constructMatches parse junk args = .ok mod.flowMatch ∧
      InstructionSetMakes parse (setObjects parse args "instruction_set")
        mod.instructions ∧
      ∀ junk' f, constructMatches parse junk' args = .ok f →
        interFlowMod parse junk' args = .ok (.flowMod { mod with flowMatch := f }) := by
  obtain ⟨⟨⟩, hcheck, h⟩ := bind_eq_ok.mp h
  obtain ⟨cookie, hcookie, h⟩ := bind_eq_ok.mp h
  obtain ⟨cookieMask, hcookieMask, h⟩ := bind_eq_ok.mp h
  obtain ⟨tableId, htableId, h⟩ := bind_eq_ok.mp h
  obtain ⟨commandType, hcommand, h⟩ := bind_eq_ok.mp h
  obtain ⟨idleTimeout, hidle, h⟩ := bind_eq_ok.mp h
  obtain ⟨hardTimeout, hhard, h⟩ := bind_eq_ok.mp h
  obtain ⟨outPort, hport, h⟩ := bind_eq_ok.mp h
  obtain ⟨outGroup, hgroup, h⟩ := bind_eq_ok.mp h
  obtain ⟨flags, hflags, h⟩ := bind_eq_ok.mp h
  obtain ⟨priority, hpriority, h⟩ := bind_eq_ok.mp h
  obtain ⟨bufferId, hbuffer, h⟩ := bind_eq_ok.mp h
  obtain ⟨f, hf, h⟩ := bind_eq_ok.mp h
  obtain ⟨i, hi, h⟩ := bind_eq_ok.mp h
  cases h
  refine ⟨_, rfl, hf, constructInstructionSet_makes hi, fun junk' f' hf' => ?_⟩
  simp only [interFlowMod, hcheck, hcookie, hcookieMask, htableId, hcommand, hidle, hhard, hport,
    hgroup, hflags, hpriority, hbuffer, hf', hi, ok_bind]
  rfl

variable {mod : OflMsgFlowMod} {fm : FlowMod}

theorem read_flowMod (h : mod.read = some fm) :
    fm.oflMatch.toOflMatch = mod.flowMatch ∧
      mod.instructions.mapM readInstruction = some fm.instructions := by
  obtain ⟨m, hm, h⟩ := Option.bind_eq_some_iff.mp h
  obtain ⟨is, his, h⟩ := Option.bind_eq_some_iff.mp h
  cases h
  unfold readMatch at hm
  split at hm
  · cases hm
    exact ⟨rfl, his⟩
  · cases hm

theorem exists_read_flowMod (h : constructMatches parse junk args = .ok mod.flowMatch)
    {is : List AnyInstruction} (his : mod.instructions.mapM readInstruction = some is) :
    ∃ fm, mod.read = some fm := by
  have hreadable : ∀ e ∈ mod.flowMatch.entries, oxmLength e.header ≤ e.value.length :=
    fun e he => (sized_constructMatches h e he).length_value.ge
  have hmatch : readMatch mod.flowMatch = some ⟨mod.flowMatch, hreadable⟩ := dif_pos hreadable
  simp only [OflMsgFlowMod.read, hmatch, his]
  exact ⟨_, rfl⟩

/-- A flow modification that is read is determined when its match fits. -/
theorem determined_flowMod (hmatch : constructMatches parse junk args = .ok mod.flowMatch)
    (hmakes : InstructionSetMakes parse (setObjects parse args "instruction_set")
      mod.instructions) (hread : mod.read = some fm) :
    (Request.flowMod fm).Determined ↔ MatchFits parse args := by
  obtain ⟨hm, his⟩ := read_flowMod hread
  obtain ⟨hsound, htotal⟩ := readInstructions_sound his hmakes.cased
  have hmeasured := measured_constructMatches hmatch
  have hlength := length_constructMatches hmatch
  have hentries := entriesSize_constructMatches hmatch
  rw [← hm] at hmeasured hlength hentries
  have hle : matchLength parse args ≤ matchWritten parse args := matchLength_le_written
  have hwritten : fm.oflMatch.writtenLen =
      if matchLength parse args % 65536 = 0 then 4 else 4 + matchWritten parse args := by
    rw [AnyMatch.writtenLen, hlength, AnyMatch.oxmFields_length, AnyMatch.entriesSize, hentries]
  have hroom := fm.matchRoom_eq
  rw [hlength] at hroom
  have hend : fm.matchEnd =
      48 + Ofl.roundUp (4 + matchLength parse args % 65536) 8 := by
    rw [FlowMod.matchRoom] at hroom
    omega
  have hbuf : fm.bufLen = fm.matchEnd + instructionsTotalLen fm.instructions := rfl
  have hgap : fm.matchEnd ≤ 48 + Ofl.roundUp fm.oflMatch.writtenLen 8 := by
    rw [hwritten]
    split
    · next hzero =>
      rw [hzero] at hend
      exact hend.le
    · have hmono : Ofl.roundUp (4 + matchLength parse args % 65536) 8 ≤
          Ofl.roundUp (4 + matchWritten parse args) 8 := by
        unfold Ofl.roundUp
        omega
      omega
  rw [Request.determined_flowMod_iff hsound hmeasured.type hgap, hbuf, htotal, hmakes.size, hend,
    hwritten, MatchFits]
  obtain ⟨hup, -, -⟩ := roundUp_eight (4 + matchLength parse args % 65536)
  split
  · next hzero => exact iff_of_true (by omega) fun h => (h hzero).elim
  · next hne =>
    rw [imp_iff_right hne]
    omega

end FlowMod

section Plain

/-! ## Other requests -/

variable {parse : String → JsonObject} {args : JsonObject} {mem : Memory} {msg msg' : OflMsg}
  {type : String}

/-- A message that is read alike whatever is in the memory, and determined. -/
def Plain (msg : OflMsg) : Prop :=
  ∃ r : Request, (∀ flags, msg.read flags = some r) ∧ r.Determined

def OflMsg.IsMultipart : OflMsg → Prop
  | .multipart .. | .multipartFlow .. | .multipartPort .. | .multipartQueue .. | .multipartGroup ..
  | .multipartMeter .. => True
  | _ => False

/-- A multipart request is packed with the flags that are in memory. -/
theorem read_multipart (h : OflMsg.IsMultipart msg) {flags : UInt16} {r : Request}
    (hread : msg.read flags = some r) : ∃ no body, r = .multipart no flags body := by
  cases msg with
  | multipart | multipartPort | multipartQueue | multipartGroup | multipartMeter =>
    cases hread
    exact ⟨_, _, rfl⟩
  | multipartFlow =>
    obtain ⟨m, -, rfl⟩ := Option.map_eq_some_iff.mp hread
    exact ⟨_, _, rfl⟩
  | _ => exact h.elim

theorem isMultipart_checked {l : ArgumentsList} {creator : Except Fault OflMsg}
    (hcreator : ∀ msg, creator = .ok msg → OflMsg.IsMultipart msg)
    (h : (checkArgs parse l args >>= fun _ => creator) = .ok msg) : OflMsg.IsMultipart msg := by
  obtain ⟨⟨⟩, -, h⟩ := bind_eq_ok.mp h
  exact hcreator msg h

theorem isMultipart_readNum {w d : Nat} {key : String} (make : Nat → OflMsg)
    (hmake : ∀ n, OflMsg.IsMultipart (make n))
    (h : (readNum w args key (.ok d) >>= fun n => Except.ok (make n)) = .ok msg) :
    OflMsg.IsMultipart msg := by
  obtain ⟨n, -, h⟩ := bind_eq_ok.mp h
  cases h
  exact hmake n

theorem isMultipart_flowInformation {junk : Nat → Junk} {t : MultipartType}
    (h : flowInformationReqCreator parse junk args t = .ok msg) : OflMsg.IsMultipart msg := by
  obtain ⟨tableId, -, h⟩ := bind_eq_ok.mp h
  obtain ⟨outPort, -, h⟩ := bind_eq_ok.mp h
  obtain ⟨outGroup, -, h⟩ := bind_eq_ok.mp h
  obtain ⟨cookie, -, h⟩ := bind_eq_ok.mp h
  obtain ⟨cookieMask, -, h⟩ := bind_eq_ok.mp h
  obtain ⟨f, -, h⟩ := bind_eq_ok.mp h
  cases h
  trivial

theorem not_definite_multipart (h : Creates parse mem type args msg)
    (hmulti : OflMsg.IsMultipart msg) : ¬Definite parse type args := by
  rintro ⟨⟨r, hread⟩, -, -⟩
  have hflags (flags : UInt16) : ∃ no body, r = .multipart no flags body :=
    read_multipart hmulti (hread _ msg (h.withRest flags mem.buffer))
  obtain ⟨no, body, hzero⟩ := hflags 0
  obtain ⟨no', body', hone⟩ := hflags 1
  cases hzero.symm.trans hone

/-- Where one message is made in all memories, the request is definite when it is plain. -/
theorem definite_iff_plain (h : Creates parse mem type args msg)
    (hone : ∀ mem' msg', Creates parse mem' type args msg' → msg' = msg) :
    Definite parse type args ↔ Plain msg := by
  rw [definite_iff_determined h]
  refine exists_congr fun r => and_congr_left fun _ => ⟨fun hread flags => ?_, ?_⟩
  · exact hread _ msg (h.withRest flags mem.buffer)
  · intro hread mem' msg' hcreates
    rw [hone mem' msg' hcreates]
    exact hread _

/-- The creators that build no match do not look at memory. -/
theorem Creates.unique {mem' : Memory} (hne : type ∉ ["flow_mod", "flow_info", "agr_flow_info"])
    (h : Creates parse mem type args msg) (h' : Creates parse mem' type args msg') :
    msg' = msg := by
  simp only [List.mem_cons, List.not_mem_nil, or_false, not_or] at hne
  have hlookup : (msgResolver parse mem'.locals).lookup type =
      (msgResolver parse mem.locals).lookup type := by
    simp only [msgResolver, List.lookup_cons, beq_eq_false_iff_ne.mpr hne.1,
      beq_eq_false_iff_ne.mpr hne.2.1, beq_eq_false_iff_ne.mpr hne.2.2]
  obtain ⟨i, hi, hmsg⟩ := h
  obtain ⟨i', hi', hmsg'⟩ := h'
  rw [hlookup, hi] at hi'
  cases hi'
  exact Except.ok.inj (hmsg'.symm.trans hmsg)

theorem plain_empty {no : Nat} (h : ∀ flags, msg.read flags = some (.empty no)) : Plain msg :=
  ⟨.empty no, h, Request.determined_empty no⟩

theorem plain_interSwConfigSetter (h : interSwConfigSetter parse args = .ok msg) : Plain msg := by
  obtain ⟨⟨⟩, -, h⟩ := bind_eq_ok.mp h
  obtain ⟨flags, -, h⟩ := bind_eq_ok.mp h
  obtain ⟨missSendLen, -, h⟩ := bind_eq_ok.mp h
  cases h
  exact ⟨.setConfig flags missSendLen, fun _ => rfl, Request.determined_setConfig _ _⟩

theorem plain_interQueueConfig (h : interQueueConfig parse args = .ok msg) : Plain msg := by
  obtain ⟨⟨⟩, -, h⟩ := bind_eq_ok.mp h
  obtain ⟨port, -, h⟩ := bind_eq_ok.mp h
  cases h
  exact ⟨.queueGetConfig port, fun _ => rfl, Request.determined_queueGetConfig _⟩

theorem plain_interPortMod (h : interPortMod parse args = .ok msg) : Plain msg := by
  obtain ⟨⟨⟩, -, h⟩ := bind_eq_ok.mp h
  obtain ⟨advertise, -, h⟩ := bind_eq_ok.mp h
  obtain ⟨portNo, -, h⟩ := bind_eq_ok.mp h
  obtain ⟨config, -, h⟩ := bind_eq_ok.mp h
  obtain ⟨mask, -, h⟩ := bind_eq_ok.mp h
  obtain ⟨text, -, h⟩ := bind_eq_ok.mp h
  obtain ⟨hwAddr, haddr, h⟩ := bind_eq_ok.mp h
  cases h
  have hlen : hwAddr.length = ethAddrLen := by
    unfold readEthernetaddr at haddr
    split at haddr
    · next heq =>
      cases haddr
      exact ethernetaddr_length heq
    · cases haddr
  exact ⟨.portMod portNo hwAddr config mask advertise hlen, fun _ => dif_pos hlen,
    Request.determined_portMod hlen⟩

theorem plain_interMeterMod (h : interMeterMod parse args = .ok msg) : Plain msg := by
  obtain ⟨⟨⟩, -, h⟩ := bind_eq_ok.mp h
  obtain ⟨commandText, -, h⟩ := bind_eq_ok.mp h
  obtain ⟨command, -, h⟩ := bind_eq_ok.mp h
  obtain ⟨flags, -, h⟩ := bind_eq_ok.mp h
  obtain ⟨id, -, h⟩ := bind_eq_ok.mp h
  obtain ⟨bands, -, h⟩ := bind_eq_ok.mp h
  cases h
  refine ⟨_, fun _ => rfl, Request.determined_meterMod fun b hb => ?_⟩
  obtain ⟨band, -, rfl⟩ := List.mem_map.mp hb
  cases band <;> trivial

/-- A group modification is plain when the actions of its buckets are written. -/
theorem plain_interGroupMod_iff (h : interGroupMod parse args = .ok msg) :
    Plain msg ↔ ∀ a ∈ requestActions parse "group_mod" args, ¬LosesSlot a.text? := by
  obtain ⟨⟨⟩, -, h⟩ := bind_eq_ok.mp h
  obtain ⟨commandText, -, h⟩ := bind_eq_ok.mp h
  obtain ⟨command, -, h⟩ := bind_eq_ok.mp h
  obtain ⟨typeText, -, h⟩ := bind_eq_ok.mp h
  obtain ⟨type, -, h⟩ := bind_eq_ok.mp h
  obtain ⟨groupId, -, h⟩ := bind_eq_ok.mp h
  obtain ⟨buckets, hbuckets, h⟩ := bind_eq_ok.mp h
  cases h
  have hmakes := constructBuckets_makes hbuckets
  have hactions : (∀ a ∈ requestActions parse "group_mod" args, ¬LosesSlot a.text?) ↔
      ∃ bs, buckets.mapM readBucket = some bs := by
    rw [Lib.exists_mapM_iff, forall₂_congr fun _ _ => exists_readBucket_iff, hmakes.written]
    simp only [requestActions, if_neg (show "group_mod" ≠ "flow_mod" by decide), if_true,
      List.mem_flatMap]
    exact ⟨fun hall p hp a ha => hall a ⟨p, hp, ha⟩, fun hall a ⟨p, hp, ha⟩ => hall p hp a ha⟩
  rw [hactions]
  constructor
  · rintro ⟨r, hread, -⟩
    obtain ⟨bs, hbs, -⟩ := Option.map_eq_some_iff.mp (hread 0)
    exact ⟨bs, hbs⟩
  · rintro ⟨bs, hbs⟩
    refine ⟨_, fun flags => Option.map_eq_some_iff.mpr ⟨bs, hbs, rfl⟩, ?_⟩
    exact Request.determined_groupMod (readBuckets_sound hbs hmakes.cased)

end Plain

section Requests

/-! ## All requests -/

variable {parse : String → JsonObject} {args : JsonObject} {mem : Memory} {msg : OflMsg}
  {type : String}

/-- The types of requests that are plain. -/
def plainRequests : List String :=
  ["get_sw_config", "set_sw_config", "features_request", "queue_config", "port_mod", "meter_mod"]

theorem Creates.cases (h : Creates parse mem type args msg) :
    type ∈ multipartRequests ∧ OflMsg.IsMultipart msg ∨
      type = "flow_mod" ∧ interFlowMod parse mem.locals args = .ok msg ∨
      type = "group_mod" ∧ interGroupMod parse args = .ok msg ∨
      type ∈ plainRequests ∧ Plain msg := by
  obtain ⟨interactor, hlookup, h⟩ := h
  obtain ⟨before, after, heq, -⟩ := List.lookup_eq_some_iff.mp hlookup
  have hmem : (type, interactor) ∈ msgResolver parse mem.locals := by simp [heq]
  clear heq hlookup
  simp only [msgResolver, List.mem_cons, Prod.mk.injEq, List.not_mem_nil, or_false] at hmem
  rcases hmem with ⟨rfl, rfl⟩ | ⟨rfl, rfl⟩ | ⟨rfl, rfl⟩ | ⟨rfl, rfl⟩ | ⟨rfl, rfl⟩ | ⟨rfl, rfl⟩ |
    ⟨rfl, rfl⟩ | ⟨rfl, rfl⟩ | ⟨rfl, rfl⟩ | ⟨rfl, rfl⟩ | ⟨rfl, rfl⟩ | ⟨rfl, rfl⟩ | ⟨rfl, rfl⟩ |
    ⟨rfl, rfl⟩ | ⟨rfl, rfl⟩ | ⟨rfl, rfl⟩ | ⟨rfl, rfl⟩ | ⟨rfl, rfl⟩ | ⟨rfl, rfl⟩ | ⟨rfl, rfl⟩ |
    ⟨rfl, rfl⟩ | ⟨rfl, rfl⟩
  · cases h
    exact .inr (.inr (.inr ⟨by decide, plain_empty fun _ => rfl⟩))
  · exact .inr (.inr (.inr ⟨by decide, plain_interSwConfigSetter h⟩))
  · cases h
    exact .inr (.inr (.inr ⟨by decide, plain_empty fun _ => rfl⟩))
  · cases h
    exact .inl ⟨by decide, trivial⟩
  · cases h
    exact .inl ⟨by decide, trivial⟩
  · cases h
    exact .inl ⟨by decide, trivial⟩
  · exact .inl ⟨by decide, isMultipart_checked (fun _ => isMultipart_flowInformation) h⟩
  · exact .inr (.inl ⟨rfl, h⟩)
  · exact .inl ⟨by decide, isMultipart_checked (fun _ => isMultipart_flowInformation) h⟩
  · exact .inl ⟨by decide, isMultipart_checked
      (fun _ => isMultipart_readNum OflMsg.multipartPort fun _ => trivial) h⟩
  · cases h
    exact .inl ⟨by decide, trivial⟩
  · refine .inl ⟨by decide, isMultipart_checked (fun _ h => ?_) h⟩
    obtain ⟨portNo, -, h⟩ := bind_eq_ok.mp h
    exact isMultipart_readNum (OflMsg.multipartQueue portNo) (fun _ => trivial) h
  · exact .inl ⟨by decide, isMultipart_checked
      (fun _ => isMultipart_readNum OflMsg.multipartGroup fun _ => trivial) h⟩
  · cases h
    exact .inl ⟨by decide, trivial⟩
  · cases h
    exact .inl ⟨by decide, trivial⟩
  · exact .inl ⟨by decide, isMultipart_checked
      (fun _ => isMultipart_readNum (OflMsg.multipartMeter .meter) fun _ => trivial) h⟩
  · exact .inl ⟨by decide, isMultipart_checked
      (fun _ => isMultipart_readNum (OflMsg.multipartMeter .meterConfig) fun _ => trivial) h⟩
  · cases h
    exact .inl ⟨by decide, trivial⟩
  · exact .inr (.inr (.inr ⟨by decide, plain_interQueueConfig h⟩))
  · exact .inr (.inr (.inl ⟨rfl, h⟩))
  · exact .inr (.inr (.inr ⟨by decide, plain_interPortMod h⟩))
  · exact .inr (.inr (.inr ⟨by decide, plain_interMeterMod h⟩))

variable {mem' : Memory}

theorem creates_flowMod : Creates parse mem "flow_mod" args msg ↔
    interFlowMod parse mem.locals args = .ok msg := by
  constructor
  · rintro ⟨i, hi, hmsg⟩
    cases hi
    exact hmsg
  · exact fun h => ⟨_, rfl, h⟩

/-- A flow modification is definite when the actions of its instructions are written, its
addresses are kept and its match fits. -/
theorem definite_flowMod_iff (h : interFlowMod parse mem.locals args = .ok msg) :
    Definite parse "flow_mod" args ↔ Settled parse "flow_mod" args := by
  rw [definite_iff_determined (creates_flowMod.mpr h)]
  obtain ⟨mod, rfl, hmatch, hmakes, hall⟩ := interFlowMod_inv h
  have hactions : (∀ a ∈ requestActions parse "flow_mod" args, ¬LosesSlot a.text?) ↔
      ∃ is, mod.instructions.mapM readInstruction = some is := by
    rw [Lib.exists_mapM_iff, forall₂_congr fun _ _ => exists_readInstruction_iff, hmakes.written]
    simp only [requestActions, if_true, List.mem_flatMap]
    exact ⟨fun hall p hp a ha => hall a ⟨p, hp, ha⟩, fun hall a ⟨p, hp, ha⟩ => hall p hp a ha⟩
  constructor
  · rintro ⟨r, hread, hdet⟩
    -- the match of the message that is read, in a memory that holds one byte throughout
    have hfill (b : UInt8) : ∃ fm, r = .flowMod fm ∧
        constructMatches parse (fun _ => Junk.fill b) args = .ok fm.oflMatch.toOflMatch ∧
        mod.instructions.mapM readInstruction = some fm.instructions := by
      obtain ⟨f, hf⟩ := exists_constructMatches hmatch fun _ => Junk.fill b
      have hcreates : Creates parse ⟨fun _ => Junk.fill b, 0, fun _ => 0⟩ "flow_mod" args _ :=
        creates_flowMod.mpr (hall _ f hf)
      obtain ⟨fm, hfm, rfl⟩ := Option.map_eq_some_iff.mp (hread _ _ hcreates)
      obtain ⟨hm, his⟩ := read_flowMod hfm
      exact ⟨fm, rfl, hm ▸ hf, his⟩
    obtain ⟨fm, rfl, hzero, his⟩ := hfill 0
    obtain ⟨fm', heq, hones, -⟩ := hfill 255
    cases heq
    obtain ⟨fm', hfm, heq⟩ := Option.map_eq_some_iff.mp (hread _ _ (creates_flowMod.mpr h))
    cases heq
    exact ⟨by decide, hactions.mpr ⟨_, his⟩, fun _ => kept_of_constructMatches hzero hones,
      fun _ => (determined_flowMod hmatch hmakes hfm).mp hdet⟩
  · intro hs
    obtain ⟨is, his⟩ := hactions.mp hs.slots
    obtain ⟨fm, hfm⟩ := exists_read_flowMod hmatch his
    refine ⟨.flowMod fm, fun mem' msg' hcreates => ?_,
      (determined_flowMod hmatch hmakes hfm).mpr (hs.fits rfl)⟩
    have hsame := hall _ _ (constructMatches_kept hmatch (hs.kept rfl) mem'.locals)
    cases (creates_flowMod.mp hcreates).symm.trans hsame
    exact Option.map_eq_some_iff.mpr ⟨fm, hfm, rfl⟩

/-- An accepted request is definite just when nothing of it is left to memory. -/
theorem definite_iff (h : Creates parse mem type args msg) :
    Definite parse type args ↔ Settled parse type args := by
  obtain ⟨hmem, hmulti⟩ | ⟨rfl, hmod⟩ | ⟨rfl, hgroup⟩ | ⟨hmem, hplain⟩ := h.cases
  · exact iff_of_false (not_definite_multipart h hmulti) fun hs => hs.single hmem
  · exact definite_flowMod_iff hmod
  · rw [definite_iff_plain h fun _ _ => h.unique (by decide), plain_interGroupMod_iff hgroup]
    exact ⟨fun hslots => ⟨by decide, hslots, nofun, nofun⟩, fun hs => hs.slots⟩
  · have hnames : ∀ t ∈ plainRequests, t ∉ multipartRequests ∧ t ≠ "flow_mod" ∧
        t ≠ "group_mod" ∧ t ∉ ["flow_mod", "flow_info", "agr_flow_info"] := by
      decide
    obtain ⟨hsingle, hflow, hgroup, hne⟩ := hnames type hmem
    rw [definite_iff_plain h fun _ _ => h.unique hne]
    refine iff_of_true hplain
      ⟨hsingle, ?_, fun heq => (hflow heq).elim, fun heq => (hflow heq).elim⟩
    simp [requestActions, hflow, hgroup]

/-- A flow of IP packets from one port, which are put in a queue, sent out of another port and to
another table. -/
def queuedFlow : JsonObject :=
  .dict [("command", .string "add"), ("priority", .string "100"),
    ("match_set", .array [dictOf [("in_port", "2"), ("eth_type", "2048")]]),
    ("instruction_set", .array [
      .dict [("instr_type", .string "apply_actions"),
        ("action_set", .array [dictOf [("action_type", "set_queue"), ("queue_id", "2")],
          dictOf [("action_type", "output"), ("out_port", "1")]])],
      dictOf [("instr_type", "goto_table"), ("goto_id", "4")]])]

theorem definite_flowMod_add : ∃ msg,
    Creates parseJson ⟨fun _ => Junk.fill 0, 0, fun _ => 0⟩ "flow_mod" queuedFlow msg ∧
      Definite parseJson "flow_mod" queuedFlow := by
  have haccepted : (interFlowMod parseJson (fun _ => Junk.fill 0) queuedFlow).toBool = true := by
    decide +kernel
  obtain ⟨msg, hmsg⟩ :
      ∃ msg, interFlowMod parseJson (fun _ => Junk.fill 0) queuedFlow = .ok msg := by
    cases h : interFlowMod parseJson (fun _ => Junk.fill 0) queuedFlow with
    | error e =>
      rw [h] at haccepted
      cases haccepted
    | ok msg => exact ⟨msg, rfl⟩
  have hcreates : Creates parseJson ⟨fun _ => Junk.fill 0, 0, fun _ => 0⟩ "flow_mod" queuedFlow
      msg := creates_flowMod.mpr hmsg
  refine ⟨msg, hcreates, (definite_iff hcreates).mpr ⟨by decide, ?_, fun _ => ?_, fun _ _ => ?_⟩⟩
  · unfold LosesSlot
    decide +kernel
  · decide +kernel
  · decide +kernel

/-- The flags of a request for the description of a switch are those `new` found. -/
theorem switchDescription_not_definite : ∃ msg r r',
    Creates (fun _ => .null) ⟨fun _ => Junk.fill 0, 0, fun _ => 0⟩ "switch_description"
      (.dict [("type", .string "switch_description")]) msg ∧
    Reads (fun _ => .null) ⟨fun _ => Junk.fill 0, 0, fun _ => 0⟩ "switch_description"
      (.dict [("type", .string "switch_description")]) r ∧
    Reads (fun _ => .null) ⟨fun _ => Junk.fill 0, 1, fun _ => 0⟩ "switch_description"
      (.dict [("type", .string "switch_description")]) r' ∧
    Memory.sent ⟨fun _ => Junk.fill 0, 0, fun _ => 0⟩ r 0 11 = 0 ∧
    Memory.sent ⟨fun _ => Junk.fill 0, 1, fun _ => 0⟩ r' 0 11 = 1 ∧
    ¬Definite (fun _ => .null) "switch_description"
      (.dict [("type", .string "switch_description")]) := by
  have hcreates (flags : UInt16) : Creates (fun _ => .null)
      ⟨fun _ => Junk.fill 0, flags, fun _ => 0⟩ "switch_description"
      (.dict [("type", .string "switch_description")]) (.multipart .desc) := ⟨_, rfl, rfl⟩
  exact ⟨_, _, _, hcreates 0, ⟨_, hcreates 0, rfl⟩, ⟨_, hcreates 1, rfl⟩, by decide, by decide,
    not_definite_multipart (hcreates 0) trivial⟩

end Requests

end Nox.Interserver

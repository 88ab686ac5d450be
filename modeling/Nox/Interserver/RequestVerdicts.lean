import Nox.Interserver.Verdicts

/-!
# How a request can end

The creators look a request up key by key, with their sets on the way.  By type of
request, the conditions say how far it is read and that all casts on the way are right,
and what a request has to say and its checks have to pass for a message to be made.
-/

namespace Nox.Interserver

open Nox.Oxm JsonObject
open Ofl
open Lib (Verdict ok_bind)
open Lib.Verdict (Until)

section Conditions

/-! ## Conditions -/

variable (parse : String → JsonObject)

def MatchAccepted (p : JsonObject) : Prop := checkArgs parse matchTags p = .ok ()

def MatchSetTyped (args : JsonObject) : Prop :=
  SetTyped parse IsDict (MatchAccepted parse) args "match_set"

def MatchSetAccepted (args : JsonObject) : Prop :=
  SetAccepted parse (MatchAccepted parse) args "match_set"

/-- The sets a request of a type reads, and when it comes to read them. -/
def RequestTyped (args : JsonObject) (type : String) : Prop :=
  if type = "flow_info" ∨ type = "agr_flow_info" then
    checkArgs parse flowInfoArgs args = .ok () → MatchSetTyped parse args
  else if type = "flow_mod" then
    checkArgs parse flowModArgs args = .ok () → Has args.text? "command" →
      MatchSetTyped parse args ∧ (MatchSetAccepted parse args →
        SetTyped parse (InstructionTyped parse) (InstructionAccepted parse) args
          "instruction_set")
  else if type = "group_mod" then
    checkArgs parse groupModArgs args = .ok () →
      Says args.text? "command" ["add", "modify", "delete"] →
      Says args.text? "group_type" ["all", "select", "indirect", "fast_failover"] →
      Has args.text? "group_id" →
        SetTyped parse (BucketTyped parse) (BucketAccepted parse) args "buckets"
  else if type = "meter_mod" then
    checkArgs parse meterModArgs args = .ok () →
      Says args.text? "command" ["add", "modify", "delete"] → Has args.text? "flags" →
      Has args.text? "meter_id" → SetTyped parse IsDict BandAccepted args "meter_bands"
  else True

/-- The requests of a type that a message is made of. -/
def RequestAccepted (args : JsonObject) (type : String) : Prop :=
  if type = "set_sw_config" then
    checkArgs parse [("flags", .eNum), ("max_len", .eNum)] args = .ok () ∧
      Has args.text? "flags" ∧ Has args.text? "max_len"
  else if type = "flow_info" ∨ type = "agr_flow_info" then
    checkArgs parse flowInfoArgs args = .ok () ∧ MatchSetAccepted parse args
  else if type = "flow_mod" then
    checkArgs parse flowModArgs args = .ok () ∧ Has args.text? "command" ∧
      MatchSetAccepted parse args ∧
      SetAccepted parse (InstructionAccepted parse) args "instruction_set"
  else if type = "port_stats" ∨ type = "queue_config" then
    checkArgs parse [("port", .eNum)] args = .ok ()
  else if type = "queue_stats" then
    checkArgs parse [("port", .eNum), ("queue_id", .eNum)] args = .ok ()
  else if type = "group_stats" then
    checkArgs parse [("group_id", .eNum)] args = .ok ()
  else if type = "meter_stats" ∨ type = "meter_config" then
    checkArgs parse [("meter_id", .eNum)] args = .ok ()
  else if type = "group_mod" then
    checkArgs parse groupModArgs args = .ok () ∧
      Says args.text? "command" ["add", "modify", "delete"] ∧
      Says args.text? "group_type" ["all", "select", "indirect", "fast_failover"] ∧
      Has args.text? "group_id" ∧ SetAccepted parse (BucketAccepted parse) args "buckets"
  else if type = "port_mod" then
    checkArgs parse portModArgs args = .ok () ∧ Has args.text? "advertise" ∧
      Has args.text? "port" ∧ Has args.text? "config" ∧ Has args.text? "hw_addr"
  else if type = "meter_mod" then
    checkArgs parse meterModArgs args = .ok () ∧
      Says args.text? "command" ["add", "modify", "delete"] ∧ Has args.text? "flags" ∧
      Has args.text? "meter_id" ∧ SetAccepted parse BandAccepted args "meter_bands"
  else True

end Conditions

section Creators

/-! ## Creators -/

variable (parse : String → JsonObject) (junk : Nat → Junk) {args : JsonObject}

/-- What comes after the checks of a request that is a dictionary. -/
theorem verdict_checked_dict {α : Type} {l : ArgumentsList} (h : args.IsDict) (hl : l ≠ [])
    {x : Except Fault α} {safe passes : Prop} (hx : Verdict .typeConfusion x safe passes) :
    Verdict .typeConfusion (checkArgs parse l args >>= fun _ => x)
      (checkArgs parse l args = .ok () → safe) (checkArgs parse l args = .ok () ∧ passes) :=
  (verdict_checked hl fun _ _ => hx).congr (and_iff_right h) fun _ => Iff.rfl

theorem throwsUnless_checked {α : Type} {l : ArgumentsList} (h : args.IsDict)
    {x : Except Fault α} {passes : Prop} (hx : ThrowsUnless x passes) :
    ThrowsUnless (checkArgs parse l args >>= fun _ => x)
      (checkArgs parse l args = .ok () ∧ passes) :=
  (throwsUnless_checkArgs h parse l).bind fun _ _ => hx

/-- A request with one number that may be missing. -/
theorem throwsUnless_checked_read {l : ArgumentsList} (h : args.IsDict) {w d : Nat}
    {key : String} (f : Nat → OflMsg) :
    ThrowsUnless (checkArgs parse l args >>= fun _ => readNum w args key (.ok d) >>= fun n =>
      .ok (f n)) (checkArgs parse l args = .ok ()) := by
  apply (throwsUnless_checked parse h (throwsUnless_readNum h w key d).bind_ok).congr Iff.rfl
  exact fun _ => iff_of_eq (and_true _)

theorem throwsUnless_interSwConfigSetter (h : args.IsDict) :
    ThrowsUnless (interSwConfigSetter parse args)
      (checkArgs parse [("flags", .eNum), ("max_len", .eNum)] args = .ok () ∧
        Has args.text? "flags" ∧ Has args.text? "max_len") := by
  apply throwsUnless_checked parse h
  apply (throwsUnless_readNum_required h 16 _ _).bind
  exact fun flags _ => (throwsUnless_readNum_required h 16 _ _).bind_ok

theorem throwsUnless_interQueueStats (h : args.IsDict) :
    ThrowsUnless (interQueueStats parse args)
      (checkArgs parse [("port", .eNum), ("queue_id", .eNum)] args = .ok ()) := by
  have hread : ThrowsUnless (readNum 32 args "port" (.ok ofppAny) >>= fun portNo =>
      readNum 32 args "queue_id" (.ok ofpqAll) >>= fun queueId =>
        .ok (OflMsg.multipartQueue portNo queueId)) True := by
    apply verdict_readNum_bind h
    exact fun portNo => (throwsUnless_readNum h 32 _ _).bind_ok
  apply (throwsUnless_checked parse h hread).congr Iff.rfl
  exact fun _ => iff_of_eq (and_true _)

theorem verdict_constructMatches (h : args.IsDict) :
    Verdict .typeConfusion (constructMatches parse junk args) (MatchSetTyped parse args)
      (MatchSetAccepted parse args) := by
  unfold constructMatches MatchSetTyped MatchSetAccepted
  apply verdict_constructSetIfExists h
  exact fun i f p => verdict_constructMatch parse (junk i) f

theorem verdict_flowInformationReqCreator (h : args.IsDict) (type : MultipartType) :
    Verdict .typeConfusion (flowInformationReqCreator parse junk args type)
      (MatchSetTyped parse args) (MatchSetAccepted parse args) := by
  apply verdict_readNum_bind h
  intro tableId
  apply verdict_readNum_bind h
  intro outPort
  apply verdict_readNum_bind h
  intro outGroup
  apply verdict_readNum_bind h
  intro cookie
  apply verdict_readNum_bind h
  intro cookieMask
  exact (verdict_constructMatches parse junk h).bind_ok

theorem verdict_interFlowMod (h : args.IsDict) :
    Verdict .typeConfusion (interFlowMod parse junk args)
      (checkArgs parse flowModArgs args = .ok () → Has args.text? "command" →
        MatchSetTyped parse args ∧ (MatchSetAccepted parse args →
          SetTyped parse (InstructionTyped parse) (InstructionAccepted parse) args
            "instruction_set"))
      (checkArgs parse flowModArgs args = .ok () ∧ Has args.text? "command" ∧
        MatchSetAccepted parse args ∧
        SetAccepted parse (InstructionAccepted parse) args "instruction_set") := by
  have hargs : flowModArgs ≠ [] := nofun
  apply verdict_checked_dict parse h hargs
  apply verdict_readNum_bind h
  intro cookie
  apply verdict_readNum_bind h
  intro cookieMask
  apply verdict_readNum_bind h
  intro tableId
  apply verdict_has_bind h
  intro commandType
  apply verdict_readNum_bind h
  intro idleTimeout
  apply verdict_readNum_bind h
  intro hardTimeout
  apply verdict_readNum_bind h
  intro outPort
  apply verdict_readNum_bind h
  intro outGroup
  apply verdict_readNum_bind h
  intro flags
  apply verdict_readNum_bind h
  intro priority
  apply verdict_readNum_bind h
  intro bufferId
  apply (verdict_constructMatches parse junk h).bind
  intro f _
  apply Verdict.bind_ok
  apply verdict_constructSetIfExists h
  exact fun _ i p => verdict_constructInstruction parse i

theorem throwsUnless_groupModCommand (value : String) :
    ThrowsUnless (groupModCommand value) (value ∈ ["add", "modify", "delete"]) := by
  apply throwsUnless_word fun _ => throwsUnless_ok _ trivial
  apply throwsUnless_word fun _ => throwsUnless_ok _ trivial
  apply throwsUnless_word fun _ => throwsUnless_ok _ trivial
  exact throwsUnless_noWord _

theorem throwsUnless_groupType (value : String) :
    ThrowsUnless (groupType value) (value ∈ ["all", "select", "indirect", "fast_failover"]) := by
  apply throwsUnless_word fun _ => throwsUnless_ok _ trivial
  apply throwsUnless_word fun _ => throwsUnless_ok _ trivial
  apply throwsUnless_word fun _ => throwsUnless_ok _ trivial
  apply throwsUnless_word fun _ => throwsUnless_ok _ trivial
  exact throwsUnless_noWord _

theorem verdict_interGroupMod (h : args.IsDict) :
    Verdict .typeConfusion (interGroupMod parse args)
      (checkArgs parse groupModArgs args = .ok () →
        Says args.text? "command" ["add", "modify", "delete"] →
        Says args.text? "group_type" ["all", "select", "indirect", "fast_failover"] →
        Has args.text? "group_id" →
          SetTyped parse (BucketTyped parse) (BucketAccepted parse) args "buckets")
      (checkArgs parse groupModArgs args = .ok () ∧
        Says args.text? "command" ["add", "modify", "delete"] ∧
        Says args.text? "group_type" ["all", "select", "indirect", "fast_failover"] ∧
        Has args.text? "group_id" ∧ SetAccepted parse (BucketAccepted parse) args "buckets") := by
  have hargs : groupModArgs ≠ [] := nofun
  apply verdict_checked_dict parse h hargs
  apply verdict_says_bind h throwsUnless_groupModCommand
  intro command
  apply verdict_says_bind h throwsUnless_groupType
  intro type
  apply verdict_readNum_required_bind h
  intro groupId
  apply Verdict.bind_ok
  apply verdict_constructSetIfExists h
  exact fun _ buckets p => (verdict_constructBucket parse).bind_ok

theorem throwsUnless_interPortMod (h : args.IsDict) :
    ThrowsUnless (interPortMod parse args)
      (checkArgs parse portModArgs args = .ok () ∧ Has args.text? "advertise" ∧
        Has args.text? "port" ∧ Has args.text? "config" ∧ Has args.text? "hw_addr") := by
  apply (throwsUnless_checkArgs h parse _).bind
  intro _ hcheck
  apply (throwsUnless_readNum_required h 32 _ _).bind
  intro advertise _
  apply (throwsUnless_readNum_required h 32 _ _).bind
  intro portNo _
  apply (throwsUnless_readNum_required h 32 _ _).bind
  intro config _
  apply verdict_readNum_bind h
  intro mask
  apply throwsUnless_require_bind h id
  intro value hv
  -- the checks have been made that the address passes
  have hfind : args.findIfExists "hw_addr" = .ok (some value) := by rw [findIfExists_dict h, hv]
  have hvalid := checkArg_of_checkArgs hcheck (by decide : ("hw_addr", .eMAC) ∈ portModArgs) hfind
  unfold readEthernetaddr
  cases hread : ethernetaddr value with
  | some octet => exact throwsUnless_ok _ (has_of_text hv)
  | none =>
    simp only [checkArg, hread] at hvalid
    cases hvalid

theorem throwsUnless_meterModCommand (value : String) :
    ThrowsUnless (meterModCommand value) (value ∈ ["add", "modify", "delete"]) := by
  apply throwsUnless_word fun _ => throwsUnless_ok _ trivial
  apply throwsUnless_word fun _ => throwsUnless_ok _ trivial
  apply throwsUnless_word fun _ => throwsUnless_ok _ trivial
  exact throwsUnless_noWord _

theorem verdict_interMeterMod (h : args.IsDict) :
    Verdict .typeConfusion (interMeterMod parse args)
      (checkArgs parse meterModArgs args = .ok () →
        Says args.text? "command" ["add", "modify", "delete"] → Has args.text? "flags" →
        Has args.text? "meter_id" → SetTyped parse IsDict BandAccepted args "meter_bands")
      (checkArgs parse meterModArgs args = .ok () ∧
        Says args.text? "command" ["add", "modify", "delete"] ∧ Has args.text? "flags" ∧
        Has args.text? "meter_id" ∧ SetAccepted parse BandAccepted args "meter_bands") := by
  have hargs : meterModArgs ≠ [] := nofun
  apply verdict_checked_dict parse h hargs
  apply verdict_says_bind h throwsUnless_meterModCommand
  intro command
  apply verdict_readNum_required_bind h
  intro flags
  apply verdict_has_bind h
  intro id
  apply Verdict.bind_ok
  apply verdict_constructSetIfExists h
  exact fun _ bands p => verdict_constructBand.bind_ok

/-- A creator is safe where the sets it reads are typed, and then makes its message where the
request is accepted. -/
theorem verdict_requestMsgCreator {type : String} {interactor : Interactor OflMsg}
    (hmem : (type, interactor) ∈ msgResolver parse junk) (h : args.IsDict) :
    Verdict .typeConfusion (interactor.requestMsgCreator args) (RequestTyped parse args type)
      (RequestAccepted parse args type) := by
  have hflow := fun type => verdict_flowInformationReqCreator parse junk h type
  have hargs : flowInfoArgs ≠ [] := nofun
  simp only [msgResolver, List.mem_cons, Prod.mk.injEq, List.not_mem_nil, or_false] at hmem
  rcases hmem with ⟨rfl, rfl⟩ | ⟨rfl, rfl⟩ | ⟨rfl, rfl⟩ | ⟨rfl, rfl⟩ | ⟨rfl, rfl⟩ | ⟨rfl, rfl⟩ |
    ⟨rfl, rfl⟩ | ⟨rfl, rfl⟩ | ⟨rfl, rfl⟩ | ⟨rfl, rfl⟩ | ⟨rfl, rfl⟩ | ⟨rfl, rfl⟩ | ⟨rfl, rfl⟩ |
    ⟨rfl, rfl⟩ | ⟨rfl, rfl⟩ | ⟨rfl, rfl⟩ | ⟨rfl, rfl⟩ | ⟨rfl, rfl⟩ | ⟨rfl, rfl⟩ | ⟨rfl, rfl⟩ |
    ⟨rfl, rfl⟩ | ⟨rfl, rfl⟩
  · exact Verdict.ok _
  · exact throwsUnless_interSwConfigSetter parse h
  · exact Verdict.ok _
  · exact Verdict.ok _
  · exact Verdict.ok _
  · exact Verdict.ok _
  · exact verdict_checked_dict parse h hargs (hflow .flow)
  · exact verdict_interFlowMod parse junk h
  · exact verdict_checked_dict parse h hargs (hflow .aggregate)
  · exact throwsUnless_checked_read parse h _
  · exact Verdict.ok _
  · exact throwsUnless_interQueueStats parse h
  · exact throwsUnless_checked_read parse h _
  · exact Verdict.ok _
  · exact Verdict.ok _
  · exact throwsUnless_checked_read parse h _
  · exact throwsUnless_checked_read parse h _
  · exact Verdict.ok _
  · exact throwsUnless_checked_read parse h _
  · exact verdict_interGroupMod parse h
  · exact throwsUnless_interPortMod parse h
  · exact verdict_interMeterMod parse h

end Creators

end Nox.Interserver

import Nox.Ofl.ReplyBytes

/-!
# Answers of a switch

A message of a switch becomes an event that is named after its type, and
`Event_dispatcher` calls the handlers registered under the name.  `Interact_answer`
registers a handler for each answer it knows, and a handler casts the message to the
structure it expects.  Name, handler and structure stand in three tables that nothing
compares; `answered_iff` says for which bytes they agree and the handler reads only what
the decoder wrote.
-/

namespace Nox.Interserver

open Ofl Ofl.Unpacked

section EventNames

/-! ## The names of events -/

/-- `Ofp_msg_event::get_name` -/
def getName : Nat → String
  | 0 => "Hello_event"
  | 1 => "Error_event"
  | 2 => "Echo_request_event"
  | 3 => "Echo_reply_event"
  | 4 => "Experimenter_event"
  | 6 => "Features_reply_event"
  | 8 => "Get_config_reply_event"
  | 14 => "Flow_mod_event"
  | 11 => "Flow_removed_event"
  | 12 => "Port_status_event"
  | 10 => "Packet_in_event"
  | 21 => "Barrier_reply_event"
  | 23 => "Queue_get_config_reply_event"
  | 25 => "Role_reply_event"
  | 27 => "Async_reply_event"
  | _ => ""

/-- `Ofp_msg_event::get_stats_name` -/
def getStatsName : Nat → String
  | 0 => "Desc_stats_in_event"
  | 1 => "Flow_stats_in_event"
  | 2 => "Aggregate_stats_in_event"
  | 3 => "Table_stats_in_event"
  | 4 => "Port_stats_in_event"
  | 5 => "Queue_stats_in_event"
  | 6 => "Group_stats_in_event"
  | 7 => "Group_desc_stats_in_event"
  | 8 => "Group_features_in_event"
  | 9 => "Meter_stats_in_event"
  | 10 => "Meter_configuration_in_event"
  | 11 => "Meter_features_in_event"
  | 12 => "Table_features_in_event"
  | 13 => "Port_desc_in_event"
  | 0xffff => "Experimenter_stats_in_event"
  | _ => ""

/-- The type in the header of a multipart reply. -/
def statsType : Body → Nat
  | .multipart type _ _ => type
  | _ => 0

/-- The name `Ofp_msg_event::create_event` gives. -/
def createEvent (m : Msg) : String :=
  if m.type = ofptMultipartReply then getStatsName (statsType m.body) else getName m.type

end EventNames

section Handlers

/-! ## Handlers -/

/-- The handlers of `Interact_answer` that are registered. -/
inductive AnswerHandler
  | swConfigReply | featuresReply | desc | tableStats | flowInfo | agrFlowInfo
  | portStats | portDesc | queueStats | groupStats | groupDesc | groupFeatures
  | queueConfig | meterStats | meterConfig | error
  deriving DecidableEq, Repr

/-- What a handler reads of a message: it casts to the structure of its case. -/
def AnswerHandler.read : AnswerHandler → Body → Read Unit
  | swConfigReply, .getConfigReply _ => .ok ()
  | featuresReply, .featuresReply _ => .ok ()
  | desc, .multipart _ _ (.desc _) => .ok ()
  | tableStats, .multipart _ _ (.table _) => .ok ()
  | flowInfo, .multipart _ _ (.flow stats) => stats.forM (·.print)
  | agrFlowInfo, .multipart _ _ (.aggregate _) => .ok ()
  | portStats, .multipart _ _ (.port _) => .ok ()
  | portDesc, .multipart _ _ (.portDesc _) => .ok ()
  | queueStats, .multipart _ _ (.queue _) => .ok ()
  | groupStats, .multipart _ _ (.group _) => .ok ()
  | groupDesc, .multipart _ _ (.groupDesc stats) => stats.forM (·.print)
  -- `ofl_msg_to_string` goes by the type the event is named after
  | groupFeatures, .multipart _ _ (.groupFeatures _) => .ok ()
  | queueConfig, .queueGetConfigReply _ queues => queues.forM (·.print)
  | meterStats, .multipart _ _ (.meter _) => .ok ()
  | meterConfig, .multipart _ _ (.meterConf stats) => stats.forM (·.print)
  | error, .error _ _ => .ok ()
  | _, _ => .error .wrongCast

open AnswerHandler in
/-- `Interact_answer::install` -/
def installedAnswers : List (String × AnswerHandler) := [
  (getName 8, swConfigReply),
  (getName 6, featuresReply),
  -- `handle_desc`, not `handle_table_features`
  (getStatsName 12, desc),
  (getStatsName 0, desc),
  (getStatsName 3, tableStats),
  (getStatsName 1, flowInfo),
  (getStatsName 2, agrFlowInfo),
  (getStatsName 4, portStats),
  (getStatsName 13, portDesc),
  (getStatsName 5, queueStats),
  (getStatsName 6, groupStats),
  (getStatsName 7, groupDesc),
  (getStatsName 8, groupFeatures),
  (getStatsName 9, meterStats),
  (getStatsName 10, meterConfig),
  (getName 23, queueConfig),
  (getName 1, error)]

/-- The handlers `Event_dispatcher` calls for an event. -/
def calledFor (name : String) : List AnswerHandler :=
  (installedAnswers.filter (·.1 == name)).map (·.2)

/-- Every handler called for the event of the message reads the structure that was
allocated, and of it only what was written. -/
def ReadSafely (m : Msg) : Prop :=
  ∀ handler ∈ calledFor (createEvent m), handler.read m.body = .ok ()

end Handlers

section Conditions

/-! ## The condition on the bytes -/

variable {type len : Nat} {body buf : Bytes}

/-- The condition on the body of a multipart reply. -/
structure ReplyFit (type : Nat) (body : Bytes) (len : Nat) : Prop where
  -- `OFPMP_TABLE_FEATURES`
  registered : type ≠ 12
  flow : type = 1 → ∀ s ∈ flowStatsLayout.starts body len, FlowStatsFit s
  groupDesc : type = 7 → ∀ s ∈ groupDescLayout.starts body len, GroupDescFit s
  meterConfig : type = 10 → ∀ c ∈ meterConfigLayout.starts body len, MeterConfigFit c

theorem replyFit_iff : ReplyFit type body len ↔ type ≠ 12 ∧
    (type = 1 → ∀ s ∈ flowStatsLayout.starts body len, FlowStatsFit s) ∧
    (type = 7 → ∀ s ∈ groupDescLayout.starts body len, GroupDescFit s) ∧
    (type = 10 → ∀ c ∈ meterConfigLayout.starts body len, MeterConfigFit c) :=
  ⟨fun h => ⟨h.registered, h.flow, h.groupDesc, h.meterConfig⟩,
    fun h => ⟨h.1, h.2.1, h.2.2.1, h.2.2.2⟩⟩

instance (type : Nat) (body : Bytes) (len : Nat) : Decidable (ReplyFit type body len) :=
  decidable_of_iff' _ replyFit_iff

/-- The condition on a message: it is no table features reply, its queues have properties
that are unpacked and its meters bands, and no flow entry or group has a field whose
printing leaves the value. -/
structure MsgFit (buf : Bytes) (len : Nat) : Prop where
  reply : numAt buf 1 1 = ofptMultipartReply →
    ReplyFit (numAt buf 8 2) (buf.drop 16) (len - 16)
  queues : numAt buf 1 1 = ofptQueueGetConfigReply →
    PacketQueuesFit (packetQueueLayout.starts (buf.drop 16) (len - 16)) (len - 16)

theorem msgFit_iff : MsgFit buf len ↔
    (numAt buf 1 1 = ofptMultipartReply →
      ReplyFit (numAt buf 8 2) (buf.drop 16) (len - 16)) ∧
    (numAt buf 1 1 = ofptQueueGetConfigReply →
      PacketQueuesFit (packetQueueLayout.starts (buf.drop 16) (len - 16)) (len - 16)) :=
  ⟨fun h => ⟨h.reply, h.queues⟩, fun h => ⟨h.1, h.2⟩⟩

instance (buf : Bytes) (len : Nat) : Decidable (MsgFit buf len) :=
  decidable_of_iff' _ msgFit_iff

end Conditions

section Dispatch

/-! ## Dispatch -/

variable {D : OtherDecoders} {fresh : Bytes → Nat → Bytes} {type flags len : Nat}
  {body buf : Bytes} {r : Reply} {b : Body} {m : Msg}

/-- A reply is read safely exactly when the one handler of its type reads it safely. -/
theorem readSafely_multipart {a : AnswerHandler}
    (h : calledFor (getStatsName type) = [a]) :
    ReadSafely ⟨ofptMultipartReply, .multipart type flags r⟩ ↔
      a.read (.multipart type flags r) = .ok () := by
  change (∀ a ∈ calledFor (getStatsName type), _) ↔ _
  rw [h]
  simp

/-- The types whose handler reads nothing that may be unwritten. -/
theorem readSafely_plain {a : AnswerHandler}
    (hcalled : calledFor (getStatsName type) = [a])
    (hread : a.read (.multipart type flags r) = .ok ()) (hfit : ReplyFit type body len) :
    ReadSafely ⟨ofptMultipartReply, .multipart type flags r⟩ ↔ ReplyFit type body len :=
  (readSafely_multipart hcalled).trans ⟨fun _ => hfit, fun _ => hread⟩

theorem replyFit_of_plain (h : type ∉ [1, 7, 10, 12]) : ReplyFit type body len where
  registered := fun heq => h (by simp [heq])
  flow := fun heq => absurd (by simp [heq]) h
  groupDesc := fun heq => absurd (by simp [heq]) h
  meterConfig := fun heq => absurd (by simp [heq]) h

/-- The types whose handler prints every record. -/
theorem readSafely_printed {α : Type} {a : AnswerHandler} {print : α → Read Unit}
    {L : Records.Layout UInt8 UnpackError} {bad : UnpackError}
    {unpack : Nat → Bytes → Nat → Unpack (α × Nat)} {P : Bytes → Prop} {xs : List α} {rest : Nat}
    (hcalled : calledFor (getStatsName type) = [a])
    (hread : a.read (.multipart type flags r) = xs.forM print)
    (hone : ∀ n s l x l', unpack n s l = .ok (x, l') → (print x = .ok () ↔ P s))
    (hrecords : unpackRecords L bad unpack body len len = .ok (xs, rest))
    (hfit : ReplyFit type body len ↔ ∀ s ∈ L.starts body len, P s) :
    ReadSafely ⟨ofptMultipartReply, .multipart type flags r⟩ ↔ ReplyFit type body len := by
  rw [readSafely_multipart hcalled, hread, forM_eq_ok, hfit]
  exact unpackRecords_forall_iff hone hrecords

theorem reply_readSafely_iff (h : unpackReply D fresh type body len = .ok r) :
    ReadSafely ⟨ofptMultipartReply, .multipart type flags r⟩ ↔ ReplyFit type body len := by
  unfold unpackReply at h
  split at h
  case h_1 =>
    obtain ⟨-, -, h⟩ := bind_eq_ok.mp h
    obtain ⟨mfr, -, h⟩ := bind_eq_ok.mp h
    obtain ⟨hw, -, h⟩ := bind_eq_ok.mp h
    obtain ⟨sw, -, h⟩ := bind_eq_ok.mp h
    obtain ⟨serial, -, h⟩ := bind_eq_ok.mp h
    obtain ⟨dp, -, h⟩ := bind_eq_ok.mp h
    cases h
    exact readSafely_plain (a := .desc) (by decide) rfl (replyFit_of_plain (by decide))
  case h_2 =>
    obtain ⟨⟨stats, l⟩, hstats, h⟩ := bind_eq_ok.mp h
    cases h
    exact readSafely_printed (a := .flowInfo) (by decide) rfl
      (fun _ _ _ _ _ hone => flowStats_print_iff hone) hstats (by simp [replyFit_iff])
  case h_3 =>
    obtain ⟨-, -, h⟩ := bind_eq_ok.mp h
    obtain ⟨ns, -, h⟩ := bind_eq_ok.mp h
    cases h
    exact readSafely_plain (a := .agrFlowInfo) (by decide) rfl
      (replyFit_of_plain (by decide))
  case h_4 =>
    obtain ⟨xs, -, h⟩ := bind_eq_ok.mp h
    cases h
    exact readSafely_plain (a := .tableStats) (by decide) rfl
      (replyFit_of_plain (by decide))
  case h_5 =>
    -- the handler casts to the structure of `OFPMP_DESC`
    obtain ⟨⟨tables, l⟩, -, h⟩ := bind_eq_ok.mp h
    cases h
    refine (readSafely_multipart (a := .desc) (by decide)).trans ?_
    exact ⟨fun hread => (nomatch hread), fun hfit => absurd rfl hfit.registered⟩
  case h_6 =>
    obtain ⟨xs, -, h⟩ := bind_eq_ok.mp h
    cases h
    exact readSafely_plain (a := .portStats) (by decide) rfl
      (replyFit_of_plain (by decide))
  case h_7 =>
    obtain ⟨xs, -, h⟩ := bind_eq_ok.mp h
    cases h
    exact readSafely_plain (a := .queueStats) (by decide) rfl
      (replyFit_of_plain (by decide))
  case h_8 =>
    obtain ⟨xs, -, h⟩ := bind_eq_ok.mp h
    cases h
    exact readSafely_plain (a := .groupStats) (by decide) rfl
      (replyFit_of_plain (by decide))
  case h_9 =>
    obtain ⟨⟨stats, l⟩, hstats, h⟩ := bind_eq_ok.mp h
    cases h
    exact readSafely_printed (a := .groupDesc) (by decide) rfl
      (fun _ _ _ _ _ hone => groupDesc_print_iff hone) hstats (by simp [replyFit_iff])
  case h_10 =>
    obtain ⟨-, -, h⟩ := bind_eq_ok.mp h
    obtain ⟨ns, -, h⟩ := bind_eq_ok.mp h
    cases h
    exact readSafely_plain (a := .groupFeatures) (by decide) rfl
      (replyFit_of_plain (by decide))
  case h_11 =>
    obtain ⟨xs, -, h⟩ := bind_eq_ok.mp h
    cases h
    exact readSafely_plain (a := .meterStats) (by decide) rfl
      (replyFit_of_plain (by decide))
  case h_12 =>
    obtain ⟨⟨configs, l⟩, hconfigs, h⟩ := bind_eq_ok.mp h
    cases h
    exact readSafely_printed (a := .meterConfig) (by decide) rfl
      (fun _ _ _ _ _ hone => meterConfig_print_iff hone) hconfigs (by simp [replyFit_iff])
  case h_13 =>
    obtain ⟨xs, -, h⟩ := bind_eq_ok.mp h
    cases h
    exact readSafely_plain (a := .portDesc) (by decide) rfl
      (replyFit_of_plain (by decide))
  case h_14 => cases h

/-- No handler is registered for another message. -/
theorem calledFor_other (h : type ∉ [1, 6, 8, 19, 23]) : calledFor (getName type) = [] := by
  unfold getName
  split
  case h_2 | h_6 | h_7 | h_13 => exact absurd (by decide) h
  all_goals decide

theorem readSafely_single {a : AnswerHandler} (hne : type ≠ ofptMultipartReply)
    (h : calledFor (getName type) = [a]) :
    ReadSafely ⟨type, b⟩ ↔ a.read b = .ok () := by
  unfold ReadSafely createEvent
  rw [if_neg hne, h]
  simp

theorem readSafely_none (hne : type ≠ ofptMultipartReply) (h : calledFor (getName type) = []) :
    ReadSafely ⟨type, b⟩ := by
  unfold ReadSafely createEvent
  rw [if_neg hne, h]
  exact nofun

/-- A message is handled without a wrong read exactly when its bytes are fit for it. -/
theorem answered_iff (h : oflMsgUnpack D fresh buf len = .ok m) :
    ReadSafely m ↔ MsgFit buf len := by
  obtain ⟨-, -, h⟩ := bind_eq_ok.mp h
  obtain ⟨version, -, h⟩ := bind_eq_ok.mp h
  obtain ⟨-, -, h⟩ := bind_eq_ok.mp h
  obtain ⟨length, -, h⟩ := bind_eq_ok.mp h
  obtain ⟨-, -, h⟩ := bind_eq_ok.mp h
  obtain ⟨type, htype, h⟩ := bind_eq_ok.mp h
  obtain ⟨b, hb, h⟩ := bind_eq_ok.mp h
  cases h
  rw [msgFit_iff, ← readNtoh_eq_ok htype]
  unfold unpackBody at hb
  split at hb
  case h_1 =>
    obtain ⟨-, -, hb⟩ := bind_eq_ok.mp hb
    obtain ⟨ns, -, hb⟩ := bind_eq_ok.mp hb
    obtain ⟨data, -, hb⟩ := bind_eq_ok.mp hb
    cases hb
    rw [readSafely_single (a := .error) (by decide) (by decide)]
    exact ⟨fun _ => ⟨nofun, nofun⟩, fun _ => rfl⟩
  case h_2 =>
    obtain ⟨ns, -, hb⟩ := bind_eq_ok.mp hb
    cases hb
    rw [readSafely_single (a := .featuresReply) (by decide) (by decide)]
    exact ⟨fun _ => ⟨nofun, nofun⟩, fun _ => rfl⟩
  case h_3 =>
    obtain ⟨-, -, hb⟩ := bind_eq_ok.mp hb
    obtain ⟨ns, -, hb⟩ := bind_eq_ok.mp hb
    cases hb
    rw [readSafely_single (a := .swConfigReply) (by decide) (by decide)]
    exact ⟨fun _ => ⟨nofun, nofun⟩, fun _ => rfl⟩
  case h_4 =>
    obtain ⟨-, -, hb⟩ := bind_eq_ok.mp hb
    obtain ⟨mp, hmp, hb⟩ := bind_eq_ok.mp hb
    obtain ⟨r, hr, hb⟩ := bind_eq_ok.mp hb
    obtain ⟨flags, -, hb⟩ := bind_eq_ok.mp hb
    cases hb
    rw [← readNtoh_eq_ok hmp]
    exact (reply_readSafely_iff hr).trans
      ⟨fun hfit => ⟨fun _ => hfit, nofun⟩, fun hfit => hfit.1 rfl⟩
  case h_5 =>
    obtain ⟨-, -, hb⟩ := bind_eq_ok.mp hb
    obtain ⟨port, -, hb⟩ := bind_eq_ok.mp hb
    obtain ⟨⟨queues, l⟩, hqueues, hb⟩ := bind_eq_ok.mp hb
    cases hb
    obtain ⟨n, hn, hall⟩ := bind_eq_ok.mp hqueues
    rw [Records.unpackAll_eq hn] at hall
    rw [readSafely_single (a := .queueConfig) (by decide) (by decide)]
    change queues.forM (·.print) = _ ↔ _
    rw [packetQueues_print_iff hall]
    exact ⟨fun hfit => ⟨nofun, fun _ => hfit⟩, fun hfit => hfit.2 rfl⟩
  case h_6 hnerror hnfeatures hnconfig hnmultipart hnqueues =>
    obtain ⟨-, -, hb⟩ := bind_eq_ok.mp hb
    cases hb
    have hother : type ∉ [1, 6, 8, 19, 23] := by
      simp only [List.mem_cons, List.not_mem_nil, or_false, not_or]
      exact ⟨hnerror, hnfeatures, hnconfig, hnmultipart, hnqueues⟩
    constructor
    · exact fun _ => ⟨fun heq => absurd heq hnmultipart, fun heq => absurd heq hnqueues⟩
    · exact fun _ => readSafely_none hnmultipart (calledFor_other hother)

end Dispatch

section Examples

/-! ## A configuration and an empty table features reply -/

/-- Decoders for a switch that sends neither other messages nor tables. -/
def noOthers : OtherDecoders where
  message := fun _ _ _ => .error .overrun
  tableFeatures := fun _ len => .ok (none, len)

def configReply : Bytes := [4, 8, 0, 12, 0, 0, 0, 1, 0, 0, 0, 128]

theorem configReply_answered :
    ∃ m, oflMsgUnpack noOthers (fun _ _ => []) configReply 12 = .ok m ∧
      (ReadSafely m ↔ MsgFit configReply 12) := by
  have hmsg : oflMsgUnpack noOthers (fun _ _ => []) configReply 12 =
      .ok ⟨8, .getConfigReply [128, 0]⟩ := rfl
  exact ⟨_, hmsg, answered_iff hmsg⟩

def tableFeaturesReply : Bytes := [4, 19, 0, 16, 0, 0, 0, 1, 0, 12, 0, 0, 0, 0, 0, 0]

/-- `handle_desc` casts a table features reply to a description. -/
theorem tableFeatures_miscast : ¬ ∀ (D : OtherDecoders) (fresh : Bytes → Nat → Bytes)
    (buf : Bytes) (len : Nat) (m : Msg), oflMsgUnpack D fresh buf len = .ok m → ReadSafely m := by
  intro h
  have hbody : oflMsgUnpackReplyTableFeatures noOthers [] 0 = .ok (.tableFeatures []) := by
    unfold oflMsgUnpackReplyTableFeatures unpackRecords
    rw [Records.Layout.count_of_lt (by decide)]
    rfl
  have hreply : oflMsgUnpackMultipartReply noOthers (fun _ _ => []) tableFeaturesReply 16 =
      .ok (.multipart 12 0 (.tableFeatures [])) := by
    change (oflMsgUnpackReplyTableFeatures noOthers [] 0 >>=
      fun reply => pure (Body.multipart 12 0 reply)) = _
    rw [hbody]
    rfl
  have hmsg : oflMsgUnpack noOthers (fun _ _ => []) tableFeaturesReply 16 =
      .ok ⟨19, .multipart 12 0 (.tableFeatures [])⟩ := by
    change (oflMsgUnpackMultipartReply noOthers (fun _ _ => []) tableFeaturesReply 16 >>=
      fun body => pure (Msg.mk 19 body)) = _
    rw [hreply]
    rfl
  have hread := h _ _ _ _ _ hmsg .desc (by decide)
  cases hread

end Examples

end Nox.Interserver

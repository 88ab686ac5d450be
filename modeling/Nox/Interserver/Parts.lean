import Nox.Interserver.Service

/-!
# Answers in parts

A switch may split the answer to one request into several multipart replies, all but the
last with `OFPMPF_REPLY_MORE` set.  `Interact_answer` makes a text of every part by itself
and `Request_processor` posts it for the request that is open, if one is; nothing reads the
flag or puts parts together.  So a response has the entries of one part
(`answered_by_part`), and a later part may answer a later request (`parts_not_joined`).
-/

namespace Nox.Interserver

open Json
open Lib (Reaches isOpen_iff)

variable {M : Type}

section Handlers

/-! ## The handlers of `Interact_answer` -/

/-- The multipart replies that carry a list. -/
inductive StatsType
  | table | flow | portStats | portDesc | queue | group | groupDesc | meter | meterConfig
  deriving DecidableEq, Repr

/-- A decoded part: its flags, and the entries of its type. -/
structure Part (Stats : StatsType → Type) where
  type : StatsType
  flags : Nat
  stats : List (Stats type)

/-- `OFPMPF_REPLY_MORE` -/
def Part.more {Stats : StatsType → Type} (p : Part Stats) : Bool := p.flags.testBit 0

/-- The loop of a handler; `toString` is the `ofl_structs_*_to_string` of its entries. -/
def statsText {α : Type} (toString : α → String) (stats : List α) : String :=
  stats.foldl (fun response x => response ++ toString x ++ "\n\n") ""

variable {Stats : StatsType → Type} (toString : (t : StatsType) → Stats t → String)

def handleTableStats : List (Stats .table) → String := statsText (toString .table)

def handleFlowInfo : List (Stats .flow) → String := statsText (toString .flow)

def handlePortStats : List (Stats .portStats) → String := statsText (toString .portStats)

def handlePortDesc : List (Stats .portDesc) → String := statsText (toString .portDesc)

def handleQueueStats : List (Stats .queue) → String := statsText (toString .queue)

def handleGroupStats : List (Stats .group) → String := statsText (toString .group)

def handleGroupDesc : List (Stats .groupDesc) → String := statsText (toString .groupDesc)

def handleMeterStats : List (Stats .meter) → String := statsText (toString .meter)

def handleMeterConfig : List (Stats .meterConfig) → String := statsText (toString .meterConfig)

/-- The handler `install` registers for a type. -/
def handler : (t : StatsType) → List (Stats t) → String
  | .table => handleTableStats toString
  | .flow => handleFlowInfo toString
  | .portStats => handlePortStats toString
  | .portDesc => handlePortDesc toString
  | .queue => handleQueueStats toString
  | .group => handleGroupStats toString
  | .groupDesc => handleGroupDesc toString
  | .meter => handleMeterStats toString
  | .meterConfig => handleMeterConfig toString

/-- The text `acceptResponse` gets for a part. -/
def Part.text (p : Part Stats) : String := handler toString p.type p.stats

/-- The entries of a part, in order and each once. -/
def Part.entries (p : Part Stats) : String :=
  String.join (p.stats.map fun x => toString p.type x ++ "\n\n")

theorem statsText_eq {α : Type} (toString : α → String) (stats : List α) :
    statsText toString stats = String.join (stats.map fun x => toString x ++ "\n\n") := by
  unfold statsText String.join
  rw [List.foldl_map]
  congr 1
  funext response x
  exact String.append_assoc

theorem Part.text_eq (p : Part Stats) : p.text toString = p.entries toString := by
  obtain ⟨type, flags, stats⟩ := p
  cases type <;> exact statsText_eq _ stats

/-- A part as a message of a switch. -/
def Part.message (p : Part Stats) (dpid : DatapathId) (xid : Nat) (answers : Option Nat) :
    SwitchMsg :=
  ⟨dpid, xid, p.text toString, answers⟩

/-- All parts but the last one have the flag. -/
def Splits : List (Part Stats) → Prop
  | [] => False
  | [p] => p.more = false
  | p :: ps => p.more = true ∧ Splits ps

end Handlers

section Open

/-! ## Which request a reply answers -/

variable {reslv : Resolver M} {parse : String → JsonObject}

theorem openedBy_slot {p : Processor} {c : Call} (hc : c.isRequest = false) :
    (p.openedBy c).slot = p.slot := by
  cases c with
  | request r sendGood => cases hc
  | _ => rfl

/-- The slot is the number of the latest request. -/
theorem Log.slot {p : Processor} {h : List Entry} {q : Entry} (hlog : Log reslv parse p h)
    (hq : latest h = some q) : q.call.requestId = some p.slot := by
  induction hlog with
  | init => cases hq
  | @call p p' h c clock e hlog hserve ih =>
    have hslot := (serve_posts hserve).slot
    cases hc : c.isRequest with
    | true =>
      rw [latest_request hc] at hq
      cases hq
      cases c with
      | request r sendGood => exact congrArg some hslot.symm
      | _ => cases hc
    | false =>
      rw [latest_other hc] at hq
      rw [ih hq, hslot, openedBy_slot hc]

/-- A request has been handled, and no response posted since. -/
def Pending (older : List Entry) (id : Nat) : Prop :=
  ∃ q, latest older = some q ∧ q.call.requestId = some id ∧ q.responds = false ∧
    ∀ e ∈ sinceLatest older, e.responds = false

theorem Log.pending {p : Processor} {h : List Entry} (hlog : Log reslv parse p h) :
    p.replyState = true ↔ Pending h p.slot := by
  rw [hlog.replyState, isOpen_iff]
  constructor
  · rintro ⟨q, hq, hpost, hsince⟩
    exact ⟨q, hq, hlog.slot hq, hpost, hsince⟩
  · rintro ⟨q, hq, -, hpost, hsince⟩
    exact ⟨q, hq, hpost, hsince⟩

theorem handleReply_eq (p : Processor) (m : SwitchMsg) :
    p.handleReply m = if p.replyState then
      ({ p with replyState := false }, some ⟨⟨m.text, .ok⟩, .switch m, p.slot, p.serial⟩)
      else (p, none) := rfl

end Open

section Answers

/-! ## What a part answers -/

variable {reslv : Resolver M} {parse : String → JsonObject}
  {Stats : StatsType → Type} {toString : (t : StatsType) → Stats t → String}

/-- A part is used once, if a request is open when it is handled: the response to that request
has the entries of this part, in order and each once, and nothing else.  Otherwise it is
dropped. -/
theorem answered_by_part {s : Service} (hs : Reachable reslv parse s) {newer older : List Entry}
    {e : Entry} {part : Part Stats} {dpid : DatapathId} {xid : Nat} {answers : Option Nat}
    (hhist : s.history = newer ++ e :: older)
    (hcall : e.call = .reply (part.message toString dpid xid answers)) :
    (∀ r, e.posted = some r → Pending older r.slot ∧ r.msg = ⟨part.entries toString, .ok⟩ ∧
      r.origin = .switch (part.message toString dpid xid answers)) ∧
    (e.posted = none → ∀ id, ¬Pending older id) := by
  have hlog := log_of_reached hs
  rw [hhist] at hlog
  obtain ⟨hbefore, hserve⟩ := hlog.before
  rw [hcall, Processor.serve, handleReply_eq, Part.message, Part.text_eq] at hserve
  by_cases hopen : e.before.replyState = true
  · rw [if_pos hopen] at hserve
    have hpost := congrArg Prod.snd (Option.some.inj hserve)
    refine ⟨fun r hr => ?_, fun hnone => ?_⟩
    · cases hpost.trans hr
      exact ⟨hbefore.pending.mp hopen, rfl, by rw [Part.message, Part.text_eq]⟩
    · cases hpost.trans hnone
  · rw [if_neg hopen] at hserve
    have hpost := congrArg Prod.snd (Option.some.inj hserve)
    refine ⟨fun r hr => ?_, fun _ id hpending => ?_⟩
    · cases hpost.trans hr
    · refine hopen (hbefore.replyState.trans (isOpen_iff.mpr ?_))
      obtain ⟨q, hq, -, hrest⟩ := hpending
      exact ⟨q, hq, hrest⟩

/-- The parts of an answer that have been handled, as texts. -/
def Service.textsFor (s : Service) (id : Nat) : List String :=
  s.history.reverse.filterMap fun e =>
    match e.call with
    | .reply m => if m.answers = some id then some m.text else none
    | _ => none

def Service.responses (s : Service) : List Response := s.history.filterMap (·.posted)

variable (toString) in
/-- Responses have all parts of the answer to their request, and no part of another. -/
structure Service.JoinsParts (s : Service) : Prop where
  whole : ∀ id (parts : List (Part Stats)), Splits parts →
    s.textsFor id = parts.map (·.entries toString) →
    ∀ r ∈ s.responses, r.slot = id → ∀ m, r.origin = .switch m →
      r.msg.response = String.join (parts.map (·.entries toString))
  own : ∀ r ∈ s.responses, ∀ m, r.origin = .switch m → ∀ id, m.answers = some id → r.slot = id

/-- The two parts of the answer to a request for the ports of a switch. -/
def firstPart : Part fun _ => String := ⟨.portDesc, 1, ["port 1"]⟩

def lastPart : Part fun _ => String := ⟨.portDesc, 0, ["port 2"]⟩

def partMessage (p : Part fun _ => String) : SwitchMsg :=
  p.message (fun _ text => text) 1 1 (some 1)

/-- Another request comes between them. -/
def twoParts : List Call :=
  [.join 1, infoRequest "port_desc" "" 1, .reply (partMessage firstPart), description 2,
    .reply (partMessage lastPart)]

theorem twoParts_responses :
    (serviceRun twoParts).map (·.responses) =
      some [⟨⟨"port 2\n\n", .ok⟩, .switch (partMessage lastPart), 2, 2⟩,
        ⟨⟨"port 1\n\n", .ok⟩, .switch (partMessage firstPart), 1, 1⟩] := by
  decide +kernel

/-- The response to the first request has the first port only, and the other port is the
response to the second request. -/
theorem parts_not_joined :
    Splits [firstPart, lastPart] ∧
      ∃ s, serviceRun twoParts = some s ∧
        s.responses = [⟨⟨"port 2\n\n", .ok⟩, .switch (partMessage lastPart), 2, 2⟩,
          ⟨⟨"port 1\n\n", .ok⟩, .switch (partMessage firstPart), 1, 1⟩] ∧
        ¬@Service.JoinsParts (fun _ => String) (fun _ text => text) s := by
  obtain ⟨s, hs, hresp⟩ := Option.map_eq_some_iff.mp twoParts_responses
  refine ⟨⟨rfl, rfl⟩, s, hs, hresp, fun hjoins => ?_⟩
  have hown := hjoins.own _ (hresp ▸ List.mem_cons_self) _ rfl 1 rfl
  exact absurd hown (by decide)

/-- The first part of that answer is the response to the request. -/
theorem answered_by_firstPart :
    ∃ s r p, serviceRun [.join 1, infoRequest "port_desc" "" 1] = some s ∧
      s.step interactors parseJson (.reply (partMessage firstPart)) =
        some (s.after (.reply (partMessage firstPart)) p (some r)) ∧
      Pending s.history r.slot ∧ r.msg = ⟨"port 1\n\n", .ok⟩ := by
  have hrun : (serviceRun [.join 1, infoRequest "port_desc" "" 1]).any
      (·.processor.replyState) = true := by
    decide +kernel
  obtain ⟨s, hs, hopen⟩ := (Option.any_eq_true _ _).mp hrun
  have hserve : s.processor.serve interactors parseJson (.reply (partMessage firstPart)) =
      some ({ s.processor with replyState := false },
        some ⟨⟨"port 1\n\n", .ok⟩, .switch (partMessage firstPart), s.processor.slot,
          s.processor.serial⟩) := by
    rw [Processor.serve, handleReply_eq, if_pos hopen]
    rfl
  have hstep := step_eq rfl hserve
  have hreach := (Reaches.init.runs hs).step trivial hstep
  have hanswer := answered_by_part hreach (List.nil_append _).symm rfl
  exact ⟨s, _, _, hs, hstep, (hanswer.1 _ rfl).1, (hanswer.1 _ rfl).2.1⟩

end Answers

end Nox.Interserver

import Nox.Lib.Gate
import Nox.Lib.Runs
import Nox.Interserver.Addressing

/-!
# The runs of the request processor

The handlers of `Request_processor` and the task `auto_set_reply` are called in any order:
requests, replies and errors of switches, switches that join and leave, and the two points
at which the task goes on.  Every call is entered in a history, the newest first, with the
processor before and after it and the response it posted.

`_reply_state` is a gate that a request opens and a response passes
(`at_most_one_response`).  The task answers the wrong request when one that is left open
arrives during the wait of an earlier one (`early_answer`); without such requests every
`Accepted` of the task is for a request that asked for it and has waited long enough
(`timed_of_reached`).
-/

namespace Nox.Interserver

open Json
open Lib (isOpen Gated Reaches runs)

variable {M : Type}

section System

/-! ## Calls and histories -/

/-- `WAIT_FOR_REQ`, in microseconds -/
def waitForReq : Nat := 2000000

/-- A call of a handler, a step of the task, or time that passes. -/
inductive Call
  -- `send_openflow_msg` returns `sendGood` if it is called
  | request (r : RequestMsg) (sendGood : Int)
  -- a reply or an error of a switch
  | reply (m : SwitchMsg)
  -- `auto_set_reply` looks at `_auto_mutex`
  | poll
  -- its wait for `WAIT_FOR_REQ` is over
  | wake
  | elapse (usec : Nat)
  | join (d : DatapathId)
  | leave (d : DatapathId)

def Call.isRequest : Call → Bool
  | .request _ _ => true
  | _ => false

/-- The number of the HTTP request. -/
def Call.requestId : Call → Option Nat
  | .request r _ => some r.id
  | _ => none

def Call.isReply : Call → Bool
  | .reply _ => true
  | _ => false

def Processor.init : Processor := ⟨false, false, [], 0, 0⟩

/-- What the processor does in a call. -/
def Processor.serve (reslv : Resolver M) (parse : String → JsonObject) (s : Processor) :
    Call → Option (Processor × Option Response)
  | .request r sendGood =>
    (s.handleRequest reslv parse r sendGood).map fun (s, e, _) => (s, e)
  | .reply m => some (s.handleReply m)
  | .poll => some (s, none)
  | .wake => some s.autoReply
  | .elapse _ => some (s, none)
  | .join d => some (s.datapathJoin d, none)
  | .leave d => (s.datapathLeave d).map fun s => (s, none)

/-- A call as it went. -/
structure Entry where
  call : Call
  clock : Nat
  before : Processor
  posted : Option Response
  after : Processor

/-- The processor, the clock, and until when `auto_set_reply` waits. -/
structure Service where
  processor : Processor
  clock : Nat
  asleep : Option Nat
  history : List Entry

def Service.init : Service := ⟨Processor.init, 0, none, []⟩

/-- The calls that can happen: the task is at one point. -/
def Service.ready (s : Service) : Call → Bool
  | .poll => s.asleep.isNone
  | .wake => s.asleep.any (· ≤ s.clock)
  | _ => true

def Service.clockAfter (s : Service) : Call → Nat
  | .elapse usec => s.clock + usec
  | _ => s.clock

def Service.asleepAfter (s : Service) : Call → Option Nat
  | .poll => if s.processor.autoMutex then some (s.clock + waitForReq) else none
  | .wake => none
  | _ => s.asleep

def Service.after (s : Service) (c : Call) (p : Processor) (e : Option Response) : Service :=
  ⟨p, s.clockAfter c, s.asleepAfter c, ⟨c, s.clock, s.processor, e, p⟩ :: s.history⟩

variable (reslv : Resolver M) (parse : String → JsonObject)

/-- A call of the service; nothing when it cannot happen, or its behaviour is undefined. -/
def Service.step (s : Service) (c : Call) : Option Service :=
  if s.ready c then (s.processor.serve reslv parse c).map fun (p, e) => s.after c p e else none

/-- What the service reaches by calls that meet a condition. -/
abbrev Reached (cond : Service → Call → Prop) : Service → Prop :=
  Reaches (Service.step reslv parse) cond Service.init

/-- What the service reaches at all. -/
abbrev Reachable : Service → Prop := Reached reslv parse fun _ _ => True

/-- A history the processor can have had. -/
inductive Log : Processor → List Entry → Prop
  | init : Log Processor.init []
  | call {p p' : Processor} {h : List Entry} {c : Call} {clock : Nat} {e : Option Response} :
    Log p h → p.serve reslv parse c = some (p', e) → Log p' (⟨c, clock, p, e, p'⟩ :: h)

end System

section Calls

/-! ## What a call does -/

variable {reslv : Resolver M} {parse : String → JsonObject}

theorem step_eq_some {s s' : Service} {c : Call} (h : s.step reslv parse c = some s') :
    s.ready c = true ∧
      ∃ p e, s.processor.serve reslv parse c = some (p, e) ∧ s' = s.after c p e := by
  unfold Service.step at h
  split at h
  · next hready =>
    obtain ⟨⟨p, e⟩, hserve, heq⟩ := Option.map_eq_some_iff.mp h
    exact ⟨hready, p, e, hserve, heq.symm⟩
  · cases h

theorem step_eq {s : Service} {c : Call} {p : Processor} {e : Option Response}
    (hready : s.ready c = true) (hserve : s.processor.serve reslv parse c = some (p, e)) :
    s.step reslv parse c = some (s.after c p e) := by
  rw [Service.step, if_pos hready, hserve, Option.map_some]

/-- The processor as a call finds it: a request opens it. -/
def Processor.openedBy (p : Processor) : Call → Processor
  | .request r _ => p.opened r
  | _ => p

theorem openedBy_replyState (p : Processor) (c : Call) :
    (p.openedBy c).replyState = (c.isRequest || p.replyState) := by
  cases c <;> rfl

theorem serve_posts {p p' : Processor} {c : Call} {e : Option Response}
    (h : p.serve reslv parse c = some (p', e)) : Posts (p.openedBy c) p' e := by
  cases c with
  | request r sendGood =>
    obtain ⟨⟨p₁, e₁, sent⟩, hr, heq⟩ := Option.map_eq_some_iff.mp h
    cases heq
    exact (handleRequest_posts hr).1
  | reply m =>
    have heq : p.handleReply m = (p', e) := Option.some.inj h
    have hposts := handleReply_posts p m
    rw [heq] at hposts
    exact hposts
  | poll =>
    cases h
    exact posts_nothing rfl rfl rfl
  | wake =>
    have heq : p.autoReply = (p', e) := Option.some.inj h
    have hposts := autoReply_posts p
    rw [heq] at hposts
    exact hposts
  | elapse usec =>
    cases h
    exact posts_nothing rfl rfl rfl
  | join d =>
    cases h
    exact posts_nothing rfl rfl rfl
  | leave d =>
    obtain ⟨p₁, hl, heq⟩ := Option.map_eq_some_iff.mp h
    cases heq
    unfold Processor.datapathLeave at hl
    split at hl
    · cases hl
      exact posts_nothing rfl rfl rfl
    · cases hl

theorem serve_opened {p p' : Processor} {c : Call} {e : Option Response}
    (h : p.serve reslv parse c = some (p', e)) (he : e.isSome = true) :
    c.isRequest = true ∨ p.replyState = true := by
  obtain ⟨r, rfl⟩ := Option.isSome_iff_exists.mp he
  have hopen := ((serve_posts h).posted r rfl).1
  rwa [openedBy_replyState, Bool.or_eq_true] at hopen

theorem serve_replyState {p p' : Processor} {c : Call} {e : Option Response}
    (h : p.serve reslv parse c = some (p', e)) :
    p'.replyState = (!e.isSome && (c.isRequest || p.replyState)) := by
  have hposts := serve_posts h
  cases e with
  | none => exact (hposts.silent rfl).trans (openedBy_replyState p c)
  | some r => exact (hposts.posted r rfl).2.1

end Calls

section Histories

/-! ## Histories -/

variable {reslv : Resolver M} {parse : String → JsonObject}

def Entry.isRequest (e : Entry) : Bool := e.call.isRequest

def Entry.isReply (e : Entry) : Bool := e.call.isReply

def Entry.responds (e : Entry) : Bool := e.posted.isSome

/-- The request handled last. -/
def latest (h : List Entry) : Option Entry := h.find? Entry.isRequest

/-- The calls after it. -/
def sinceLatest (h : List Entry) : List Entry := h.takeWhile fun e => !e.isRequest

theorem log_of_reached {cond : Service → Call → Prop} {s : Service}
    (h : Reached reslv parse cond s) : Log reslv parse s.processor s.history := by
  induction h with
  | init => exact .init
  | step _ _ hstep ih =>
    obtain ⟨-, p, e, hserve, rfl⟩ := step_eq_some hstep
    exact .call ih hserve

theorem Log.split {p : Processor} {newer older : List Entry}
    (h : Log reslv parse p (newer ++ older)) : ∃ q, Log reslv parse q older := by
  induction newer generalizing p with
  | nil => exact ⟨p, h⟩
  | cons e newer ih =>
    cases h with
    | call h _ => exact ih h

/-- A call starts where the one before it ended. -/
theorem Log.before {p : Processor} {newer older : List Entry} {e : Entry}
    (h : Log reslv parse p (newer ++ e :: older)) :
    Log reslv parse e.before older ∧
      e.before.serve reslv parse e.call = some (e.after, e.posted) := by
  obtain ⟨q, h⟩ := h.split
  cases h with
  | call h hserve => exact ⟨h, hserve⟩

/-- `_reply_state` says whether the latest request is open. -/
theorem Log.replyState {p : Processor} {h : List Entry} (hlog : Log reslv parse p h) :
    p.replyState = isOpen Entry.isRequest Entry.responds h := by
  induction hlog with
  | init => rfl
  | call _ hserve ih => rw [serve_replyState hserve, ih]; rfl

/-- A response passes only while a request is open. -/
theorem Log.gated {p : Processor} {h : List Entry} (hlog : Log reslv parse p h) :
    Gated Entry.isRequest Entry.responds h := by
  induction hlog with
  | init => exact trivial
  | call hlog hserve ih =>
    refine ⟨fun hpost => ?_, ih⟩
    rw [← hlog.replyState]
    exact serve_opened hserve hpost

end Histories

section Responses

/-! ## At most one response -/

variable {reslv : Resolver M} {parse : String → JsonObject}

/-- In no prefix of a run are there more responses than requests, from one request to the
next there is at most one, and a response is posted only while `_reply_state` is set, which
only a request sets. -/
theorem at_most_one_response {s : Service} (hs : Reachable reslv parse s) :
    (∀ newer older, s.history = newer ++ older →
      older.countP Entry.responds ≤ older.countP Entry.isRequest) ∧
    (∀ newer mid request older, s.history = newer ++ (mid ++ request :: older) →
      (∀ e ∈ mid, e.isRequest = false) → (mid ++ [request]).countP Entry.responds ≤ 1) ∧
    (∀ e ∈ s.history, e.responds = true → e.isRequest = true ∨ e.before.replyState = true) ∧
    ∀ e ∈ s.history, e.before.replyState = false → e.after.replyState = true →
      e.isRequest = true := by
  have hlog := log_of_reached hs
  have hgated := hlog.gated
  refine ⟨fun newer older heq => ?_, fun newer mid request older heq hmid => ?_,
    fun e he hpost => ?_, fun e he hbefore hafter => ?_⟩
  · rw [heq] at hgated
    exact Nat.le_trans (Nat.le_add_right _ _) hgated.suffix.countP_le
  · rw [heq] at hgated
    exact hgated.suffix.countP_between hmid
  · obtain ⟨newer, older, heq⟩ := List.append_of_mem he
    rw [heq] at hlog
    exact serve_opened hlog.before.2 hpost
  · obtain ⟨newer, older, heq⟩ := List.append_of_mem he
    rw [heq] at hlog
    rw [serve_replyState hlog.before.2, hbefore, Bool.or_false, Bool.and_eq_true] at hafter
    exact hafter.2

/-- A run of the service with the builders and the parser it has. -/
abbrev serviceRun (calls : List Call) : Option Service :=
  runs (Service.step interactors parseJson) (fun _ _ => True) Service.init calls

/-- A request of one type for the switch 1, with more members. -/
def infoRequest (type more : String) (id : Nat) : Call :=
  .request
    { url := "/switches/info"
      data := "\x7b\"type\":\"" ++ type ++ "\",\"dpid\":\"1\"" ++ more ++ "\x7d"
      id := id } 0

/-- One that modifies the switch and asks for errors. -/
def setConfig (id : Nat) : Call :=
  infoRequest "set_sw_config" ",\"flags\":\"0\",\"max_len\":\"128\",\"checkerror\":\"yes\"" id

/-- One for information. -/
def description (id : Nat) : Call := infoRequest "switch_description" "" id

/-- A request that asks for errors is answered with one, and during its wait another request
arrives. -/
def earlyAnswer : List Call :=
  [.join 1, setConfig 1, .poll, .reply ⟨1, 1, "error\n", some 1⟩, .elapse 1000000, description 2,
    .elapse 1000000, .wake]

theorem at_most_one_response_earlyAnswer :
    ∃ s, serviceRun earlyAnswer = some s ∧
      s.history.countP Entry.responds ≤ s.history.countP Entry.isRequest := by
  have hrun : (serviceRun earlyAnswer).isSome := by
    decide +kernel
  obtain ⟨s, hs⟩ := Option.isSome_iff_exists.mp hrun
  exact ⟨s, hs, (at_most_one_response (Reaches.init.runs hs)).1 [] s.history rfl⟩

end Responses

section Task

/-! ## The answers of the task -/

variable (reslv : Resolver M) (parse : String → JsonObject)

/-- Whether a request has its message sent and is left open: it is for information, or it
asks for errors. -/
def leftOpen (p : Processor) : Call → Bool
  | .request r sendGood =>
    r.url == "/switches/info" &&
      match resolveData reslv parse p.dpids r.data sendGood with
      | .ok a => !a.modReq || a.checkerror
      | .error _ => false
  | _ => false

/-- Whether it is a modify request that asks for errors: the task is to answer it. -/
def arms (p : Processor) : Call → Bool
  | .request r sendGood =>
    r.url == "/switches/info" &&
      match resolveData reslv parse p.dpids r.data sendGood with
      | .ok a => a.modReq && a.checkerror
      | .error _ => false
  | _ => false

/-- A response of the task is the `Accepted` for the latest request, one that arms the task,
after its whole wait and with no reply of a switch since. -/
def Timed (wake : Entry) (older : List Entry) (p : Response) : Prop :=
  p.msg = accepted ∧ ∃ q, latest older = some q ∧ q.call.requestId = some p.slot ∧
    arms reslv parse q.before q.call = true ∧
    (∀ e ∈ sinceLatest older, e.isReply = false) ∧ q.clock + waitForReq ≤ wake.clock

/-- All responses of the task are. -/
def Service.AllTimed (s : Service) : Prop :=
  ∀ newer wake older p, s.history = newer ++ wake :: older → wake.call = .wake →
    wake.posted = some p → Timed reslv parse wake older p

/-- No request is left open while `_auto_mutex` is set, unless it arms the task itself and
the wait of the task has not begun or will be long enough for it too. -/
def Service.Undisturbed (s : Service) (c : Call) : Prop :=
  s.processor.autoMutex = true → leftOpen reslv parse s.processor c = true →
    arms reslv parse s.processor c = true ∧ ∀ t ∈ s.asleep, s.clock + waitForReq ≤ t

instance (s : Service) (c : Call) : Decidable (s.Undisturbed reslv parse c) :=
  inferInstanceAs (Decidable (_ → _ → _ ∧ _))

/-- What the task knows about the open request. -/
structure Service.Armed (s : Service) : Prop where
  autoMutex : ∀ t, s.asleep = some t → s.processor.autoMutex = true
  waits : s.processor.autoMutex = true → s.processor.replyState = true →
    ∃ q, latest s.history = some q ∧ q.call.requestId = some s.processor.slot ∧
      arms reslv parse q.before q.call = true ∧
      (∀ e ∈ sinceLatest s.history, e.isReply = false) ∧ q.clock ≤ s.clock ∧
      ∀ t, s.asleep = some t → q.clock + waitForReq ≤ t

end Task

section Waits

/-! ## The wait of the task -/

variable {reslv : Resolver M} {parse : String → JsonObject}

theorem postResponse_replyState (p : Processor) (m : ReturnMsg) (o : Origin) :
    (p.postResponse m o).1.replyState = false := by
  unfold Processor.postResponse
  split
  · rfl
  · next hclosed => exact Bool.not_eq_true _ ▸ hclosed

theorem postResponse_autoMutex (p : Processor) (m : ReturnMsg) (o : Origin) :
    (p.postResponse m o).1.autoMutex = p.autoMutex := by
  unfold Processor.postResponse
  split <;> rfl

theorem leftOpen_eq {p : Processor} {r : RequestMsg} {sendGood : Int} {a : Accepted M}
    (hurl : r.url = "/switches/info")
    (hok : resolveData reslv parse p.dpids r.data sendGood = .ok a) :
    leftOpen reslv parse p (.request r sendGood) = (!a.modReq || a.checkerror) := by
  simp [leftOpen, hurl, hok]

theorem arms_eq {p : Processor} {r : RequestMsg} {sendGood : Int} {a : Accepted M}
    (hurl : r.url = "/switches/info")
    (hok : resolveData reslv parse p.dpids r.data sendGood = .ok a) :
    arms reslv parse p (.request r sendGood) = (a.modReq && a.checkerror) := by
  simp [arms, hurl, hok]

/-- What `handle_request` leaves for others to answer, and who arms the task. -/
theorem handleRequest_open {p p' : Processor} {r : RequestMsg} {sendGood : Int}
    {e : Option Response} {sent : Option (Sent M)}
    (h : p.handleRequest reslv parse r sendGood = some (p', e, sent)) :
    (p'.replyState = true → leftOpen reslv parse p (.request r sendGood) = true) ∧
      (p.autoMutex = true → p'.autoMutex = true) ∧
      (p'.autoMutex = true →
        p.autoMutex = true ∨ arms reslv parse p (.request r sendGood) = true) := by
  have hanswered : ∀ {m : ReturnMsg} {o : Origin}, p' = ((p.opened r).postResponse m o).1 →
      (p'.replyState = true → leftOpen reslv parse p (.request r sendGood) = true) ∧
        (p.autoMutex = true → p'.autoMutex = true) ∧ (p'.autoMutex = true → p.autoMutex = true ∨
          arms reslv parse p (.request r sendGood) = true) := by
    intro m o hp
    rw [hp, postResponse_replyState, postResponse_autoMutex]
    exact ⟨fun hopen => Bool.noConfusion hopen, id, .inl⟩
  unfold Processor.handleRequest at h
  dsimp only at h
  split at h
  · next hurl =>
    split at h
    · next a hok =>
      replace hok : resolveData reslv parse p.dpids r.data sendGood = .ok a := hok
      rw [leftOpen_eq hurl hok, arms_eq hurl hok]
      by_cases hcheck : a.checkerror = true
      · simp only [hcheck] at h
        cases h
        rw [hcheck, Bool.or_true, Bool.and_true]
        exact ⟨fun _ => rfl, fun hold => Bool.or_eq_true_iff.mpr (.inl hold),
          Bool.or_eq_true_iff.mp⟩
      · rw [Bool.not_eq_true] at hcheck
        by_cases hmod : a.modReq = true
        · simp only [hcheck, hmod, if_true] at h
          cases h
          have hans := hanswered rfl
          rwa [leftOpen_eq hurl hok, arms_eq hurl hok] at hans
        · simp only [hcheck, hmod, if_true] at h
          cases h
          rw [Bool.eq_false_iff.mpr hmod]
          exact ⟨fun _ => rfl, id, .inl⟩
    · cases h
      exact hanswered rfl
    · cases h
      exact hanswered rfl
    · cases h
  · cases h
    exact hanswered rfl

/-- The calls that leave the flags, the slot and the history's latest request alone. -/
def Call.Quiet : Call → Prop
  | .request _ _ => False
  | .reply _ => False
  | .wake => False
  | _ => True

theorem serve_quiet {p p' : Processor} {c : Call} {e : Option Response} (hc : c.Quiet)
    (h : p.serve reslv parse c = some (p', e)) :
    p'.autoMutex = p.autoMutex ∧ p'.replyState = p.replyState ∧ p'.slot = p.slot := by
  cases c with
  | request r sendGood => exact hc.elim
  | reply m => exact hc.elim
  | wake => exact hc.elim
  | poll =>
    cases h
    exact ⟨rfl, rfl, rfl⟩
  | elapse usec =>
    cases h
    exact ⟨rfl, rfl, rfl⟩
  | join d =>
    cases h
    exact ⟨rfl, rfl, rfl⟩
  | leave d =>
    obtain ⟨p₁, hl, heq⟩ := Option.map_eq_some_iff.mp h
    cases heq
    unfold Processor.datapathLeave at hl
    split at hl
    · cases hl
      exact ⟨rfl, rfl, rfl⟩
    · cases hl

theorem Call.Quiet.isRequest {c : Call} (hc : c.Quiet) : c.isRequest = false := by
  cases c <;> first | exact hc.elim | rfl

theorem Call.Quiet.isReply {c : Call} (hc : c.Quiet) : c.isReply = false := by
  cases c <;> first | exact hc.elim | rfl

theorem latest_request {e : Entry} {h : List Entry} (he : e.call.isRequest = true) :
    latest (e :: h) = some e := by
  simp [latest, Entry.isRequest, he]

theorem sinceLatest_request {e : Entry} {h : List Entry} (he : e.call.isRequest = true) :
    sinceLatest (e :: h) = [] := by
  simp [sinceLatest, Entry.isRequest, he]

theorem latest_other {e : Entry} {h : List Entry} (he : e.call.isRequest = false) :
    latest (e :: h) = latest h := by
  simp [latest, Entry.isRequest, he]

theorem sinceLatest_other {e : Entry} {h : List Entry} (he : e.call.isRequest = false) :
    sinceLatest (e :: h) = e :: sinceLatest h := by
  simp [sinceLatest, Entry.isRequest, he]

theorem clock_le_clockAfter (s : Service) (c : Call) : s.clock ≤ s.clockAfter c := by
  cases c with
  | elapse usec => exact Nat.le_add_right _ _
  | _ => exact Nat.le_refl _

theorem armed_init : Service.init.Armed reslv parse where
  autoMutex := by
    intro t ht
    cases ht
  waits := by
    intro hauto
    cases hauto

theorem Service.Armed.request {s : Service} {r : RequestMsg} {sendGood : Int} {p : Processor}
    {e : Option Response} (h : s.Armed reslv parse)
    (hquiet : s.Undisturbed reslv parse (.request r sendGood))
    (hserve : s.processor.serve reslv parse (.request r sendGood) = some (p, e)) :
    (s.after (.request r sendGood) p e).Armed reslv parse := by
  obtain ⟨⟨p₁, e₁, sent⟩, hr, heq⟩ := Option.map_eq_some_iff.mp hserve
  cases heq
  obtain ⟨hopen, hmutex, harm⟩ := handleRequest_open hr
  have hslot : p.slot = r.id := (handleRequest_posts hr).1.slot
  refine ⟨fun t ht => hmutex (h.autoMutex t ht), fun hauto hreply => ?_⟩
  have harms : arms reslv parse s.processor (.request r sendGood) = true ∧
      ∀ t, s.asleep = some t → s.clock + waitForReq ≤ t := by
    cases hold : s.processor.autoMutex with
    | true =>
      -- the request was left open, so it arms the task and leaves it long enough
      have hleft : leftOpen reslv parse s.processor (.request r sendGood) = true := hopen hreply
      exact hquiet hold hleft
    | false =>
      refine ⟨(harm hauto).resolve_left (Bool.eq_false_iff.mp hold), fun t ht => ?_⟩
      exact absurd (h.autoMutex t ht) (Bool.eq_false_iff.mp hold)
  refine ⟨_, latest_request rfl, congrArg some hslot.symm, harms.1, fun x hx => ?_, Nat.le_refl _,
    harms.2⟩
  rw [Service.after, sinceLatest_request rfl] at hx
  cases hx

theorem Service.Armed.quiet {s : Service} {c : Call} {p : Processor} {e : Option Response}
    (h : s.Armed reslv parse) (hc : c.Quiet)
    (hserve : s.processor.serve reslv parse c = some (p, e)) :
    (s.after c p e).Armed reslv parse := by
  obtain ⟨hauto, hreply, hslot⟩ := serve_quiet hc hserve
  have hasleep : ∀ t, s.asleepAfter c = some t →
      s.processor.autoMutex = true ∧ (s.asleep = some t ∨ t = s.clock + waitForReq) := by
    intro t ht
    cases c with
    | poll =>
      by_cases hset : s.processor.autoMutex = true
      · rw [Service.asleepAfter, if_pos hset] at ht
        exact ⟨hset, .inr (Option.some.inj ht).symm⟩
      · rw [Service.asleepAfter, if_neg hset] at ht
        cases ht
    | request r sendGood => exact hc.elim
    | reply m => exact hc.elim
    | wake => exact hc.elim
    | elapse usec => exact ⟨h.autoMutex t ht, .inl ht⟩
    | join d => exact ⟨h.autoMutex t ht, .inl ht⟩
    | leave d => exact ⟨h.autoMutex t ht, .inl ht⟩
  refine ⟨fun t ht => hauto.trans (hasleep t ht).1, fun hset hopen => ?_⟩
  obtain ⟨q, hq, hid, harms, hsince, hclock, hlong⟩ := h.waits (hauto ▸ hset) (hreply ▸ hopen)
  refine ⟨q, (latest_other hc.isRequest).trans hq, ?_, harms, ?_,
    Nat.le_trans hclock (clock_le_clockAfter s c), fun t ht => ?_⟩
  · rw [hid, Service.after, hslot]
  · rw [Service.after, sinceLatest_other hc.isRequest]
    exact List.forall_mem_cons.mpr ⟨hc.isReply, hsince⟩
  · rcases (hasleep t ht).2 with hold | hnew
    · exact hlong t hold
    · rw [hnew]
      exact Nat.add_le_add_right hclock _

/-- Every call keeps what the task knows. -/
theorem Service.Armed.step {s s' : Service} {c : Call} (h : s.Armed reslv parse)
    (hquiet : s.Undisturbed reslv parse c) (hstep : s.step reslv parse c = some s') :
    s'.Armed reslv parse := by
  obtain ⟨hready, p, e, hserve, rfl⟩ := step_eq_some hstep
  cases c with
  | request r sendGood => exact h.request hquiet hserve
  | reply m =>
    have heq : s.processor.handleReply m = (p, e) := Option.some.inj hserve
    have hauto : p.autoMutex = s.processor.autoMutex := by
      rw [← postResponse_autoMutex s.processor ⟨m.text, .ok⟩ (.switch m)]
      exact (congrArg (·.1.autoMutex) heq).symm
    have hreply : p.replyState = false := by
      rw [← postResponse_replyState s.processor ⟨m.text, .ok⟩ (.switch m)]
      exact (congrArg (·.1.replyState) heq).symm
    exact ⟨fun t ht => hauto.trans (h.autoMutex t ht),
      fun _ hopen => absurd hopen (Bool.eq_false_iff.mp hreply)⟩
  | wake =>
    have heq : s.processor.autoReply = (p, e) := Option.some.inj hserve
    have hauto : p.autoMutex = false := (congrArg (·.1.autoMutex) heq).symm
    refine ⟨fun t ht => ?_, fun hset => absurd hset (Bool.eq_false_iff.mp hauto)⟩
    cases ht
  | poll => exact h.quiet trivial hserve
  | elapse usec => exact h.quiet trivial hserve
  | join d => exact h.quiet trivial hserve
  | leave d => exact h.quiet trivial hserve

theorem armed_of_reached {s : Service}
    (h : Reached reslv parse (Service.Undisturbed reslv parse) s) : s.Armed reslv parse :=
  h.invariant armed_init fun _ _ _ harmed hquiet hstep => harmed.step hquiet hstep

theorem autoReply_eq_some {p p' : Processor} {r : Response} (h : p.autoReply = (p', some r)) :
    r.msg = accepted ∧ r.slot = p'.slot := by
  have hpost := autoReply_posts p
  rw [h] at hpost
  obtain ⟨hgen, horigin⟩ := autoReply_genuine (congrArg Prod.snd h)
  rw [Response.Genuine, horigin] at hgen
  exact ⟨hgen, (hpost.posted r rfl).2.2.1.trans hpost.slot.symm⟩

/-- The task posts a response only for the request it knows about. -/
theorem Service.Armed.wake {s : Service} {p : Processor} {r : Response}
    (h : s.Armed reslv parse) (hready : s.ready .wake = true)
    (hserve : s.processor.serve reslv parse .wake = some (p, some r)) :
    Timed reslv parse ⟨.wake, s.clock, s.processor, some r, p⟩ s.history r := by
  obtain ⟨t, ht, hle⟩ := (Option.any_eq_true _ _).mp hready
  have hopen : s.processor.replyState = true :=
    (serve_opened hserve rfl).resolve_left Bool.false_ne_true
  obtain ⟨q, hq, hid, harms, hsince, -, hlong⟩ := h.waits (h.autoMutex t ht) hopen
  obtain ⟨hmsg, hslot⟩ := autoReply_eq_some (Option.some.inj hserve)
  have hkept : p.slot = s.processor.slot := (serve_posts hserve).slot
  refine ⟨hmsg, q, hq, ?_, harms, hsince, Nat.le_trans (hlong t ht) (of_decide_eq_true hle)⟩
  rw [hslot, hkept, hid]

/-- While no request disturbs a wait, the task answers only requests that asked for it, after
their whole wait, and only if no switch has replied. -/
theorem timed_of_reached {s : Service}
    (h : Reached reslv parse (Service.Undisturbed reslv parse) s) : s.AllTimed reslv parse := by
  induction h with
  | init =>
    intro newer wake older p heq
    exact absurd heq (by simp [Service.init])
  | @step s s' c hreach hquiet hstep ih =>
    obtain ⟨hready, p', e, hserve, rfl⟩ := step_eq_some hstep
    intro newer wake older p heq hcall hpost
    cases newer with
    | nil =>
      obtain ⟨rfl, rfl⟩ := List.cons.inj heq
      cases hcall
      cases hpost
      exact (armed_of_reached hreach).wake hready hserve
    | cons x newer => exact ih newer wake older p (List.cons.inj heq).2 hcall hpost

/-- The request of a client that asks for errors is answered when two seconds have passed. -/
theorem timed_setConfig :
    ∃ s, runs (Service.step interactors parseJson) (Service.Undisturbed interactors parseJson)
        Service.init [.join 1, setConfig 1, .poll, .elapse 2000000, .wake] = some s ∧
      s.history.countP Entry.responds = 1 ∧ s.AllTimed interactors parseJson := by
  have hrun : (runs (Service.step interactors parseJson)
      (Service.Undisturbed interactors parseJson) Service.init
      [.join 1, setConfig 1, .poll, .elapse 2000000, .wake]).any
      (fun s => s.history.countP Entry.responds == 1) = true := by
    decide +kernel
  obtain ⟨s, hs, hone⟩ := (Option.any_eq_true _ _).mp hrun
  exact ⟨s, hs, of_decide_eq_true hone, timed_of_reached (Reaches.init.runs hs)⟩

/-- The task has just answered a request that does not arm it. -/
def Service.misfired (s : Service) : Bool :=
  match s.history with
  | ⟨.wake, _, _, some _, _⟩ :: older =>
    (latest older).any fun q => !arms interactors parseJson q.before q.call
  | _ => false

/-- The wait of the first request ends one second after the second one, for information, was
handled, and the task answers it. -/
theorem early_answer :
    ∃ s, serviceRun earlyAnswer = some s ∧
      Reachable interactors parseJson s ∧ ¬s.AllTimed interactors parseJson := by
  have hrun : (serviceRun earlyAnswer).any
      Service.misfired = true := by
    decide +kernel
  obtain ⟨s, hs, hmis⟩ := (Option.any_eq_true _ _).mp hrun
  refine ⟨s, hs, Reaches.init.runs hs, fun hall => ?_⟩
  unfold Service.misfired at hmis
  split at hmis
  · next clock before r after older heq =>
    obtain ⟨-, q, hq, -, harms, -⟩ := hall [] _ older r heq rfl rfl
    simp [hq, harms] at hmis
  · cases hmis

end Waits

end Nox.Interserver

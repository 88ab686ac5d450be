import Nox.Lib.Libc
import Nox.Interserver.Json

/-!
# The request processor

`Request_processor` turns an HTTP request into an OpenFlow message for the
switch it names and decides what is answered.  It handles one request at a time:
`_reply_state` is set when a request is handled and cleared by the first answer
that is posted, whether `handle_request` itself, a message of a switch or the
timer of `auto_set_reply` posts it.

Beside the data of the source, requests and responses carry where they come
from; no definition branches on that.
-/

namespace Nox.Interserver

open Libc

section Messages

/-! ## Messages -/

/-- `http_status_type` -/
inductive HttpStatus
  | ok | created | notModified | badRequest | notFound | notSupported
  | internalServerError | notImplemented | badGateway | serviceUnavailable
  deriving DecidableEq, Repr

structure ReturnMsg where
  response : String
  type : HttpStatus
  deriving DecidableEq, Repr

/-- `Request_msg`, with the number of the HTTP request it was made for. -/
structure RequestMsg where
  url : String
  data : String
  id : Nat

def RequestMsg.clear (r : RequestMsg) : RequestMsg := { r with url := "", data := "" }

abbrev DatapathId := UInt64

/-- `datapathid::string` -/
def dpidString (d : DatapathId) : String :=
  String.ofList ((Nat.toDigits 16 d.toNat).leftpad 12 '0')

/-- A message of a switch that `Interact_answer` has a handler for, with the text
that handler makes of it and the request it answers, if any. -/
structure SwitchMsg where
  dpid : DatapathId
  xid : Nat
  text : String
  answers : Option Nat
  deriving DecidableEq

/-- Who posted a response. -/
inductive Origin
  -- `handle_request` for the request of this number
  | request (id : Nat)
  -- `auto_set_reply`
  | timer
  -- `handle_reply`
  | switch (m : SwitchMsg)
  deriving DecidableEq

/-- An `Http_response_event`: its `Return_msg`, who posted it, the request that
was handled last before, and how many had been handled by then. -/
structure Response where
  msg : ReturnMsg
  origin : Origin
  slot : Nat
  serial : Nat
  deriving DecidableEq

/-- What `send_openflow_msg` is called with, and for which request. -/
structure Sent (M : Type) where
  request : Nat
  dpid : DatapathId
  msg : M
  xid : Nat

end Messages

section Resolver

/-! ## Reading a request -/

/-- An `Interactor`: the builder of one type of OpenFlow message. -/
structure Interactor (M : Type) where
  isModify : Bool
  requestMsgCreator : JsonObject → Except Fault M

/-- The builders `Msg_resolver` has registered, under their names. -/
abbrev Resolver (M : Type) := List (String × Interactor M)

/-- What is thrown while a request is handled. -/
inductive Thrown
  | httpRequestError (r : ReturnMsg)
  -- another `std::exception` with its message
  | exception (what : String)
  | undefined

def liftFault {α : Type} : Except Fault α → Except Thrown α
  | .ok a => .ok a
  | .error (.invalidArgument what) => .error (.exception what)
  | .error .typeConfusion => .error .undefined

/-- `atoi` -/
def atoi (s : String) : Int := (strtoll s.toList 10 + 2 ^ 31) % 2 ^ 32 - 2 ^ 31

def httpRequestError {α : Type} (response : String) (type : HttpStatus) : Except Thrown α :=
  .error (.httpRequestError ⟨response, type⟩)

def interpretCheckerror (jobj : JsonObject) : Except Thrown Bool := do
  match ← liftFault (jobj.getDictValue "checkerror") with
  | none => return false
  | some t => return t.getString true == "yes"

def interpretDpid (jobj : JsonObject) : Except Thrown DatapathId := do
  match ← liftFault (jobj.getDictValue "dpid") with
  | none => httpRequestError "POST data must have dpid field!\n" .badRequest
  | some t =>
    let id := atoi (t.getString true)
    if id = 0 then httpRequestError "POST data containes invalid dpid value\n" .badRequest
    else return UInt64.ofInt id

def interpretType {M : Type} (reslv : Resolver M) (jobj : JsonObject) : Except Thrown String := do
  match ← liftFault (jobj.getDictValue "type") with
  | none => httpRequestError "POST data must have type field!\n" .badRequest
  | some t =>
    let tp := t.getString true
    if tp ∈ reslv.map (·.1) then return tp
    else httpRequestError "POST data containes invalid type field\n" .badRequest

def dpidCheck (dpids : List DatapathId) (id : DatapathId) : Except Thrown Unit :=
  if id ∈ dpids then .ok ()
  else httpRequestError ("Switch with datapathid " ++ dpidString id ++ " is not exist\n") .notFound

/-- What `handle_request` knows of a request whose message has been sent. -/
structure Accepted (M : Type) where
  modReq : Bool
  checkerror : Bool
  dpid : DatapathId
  msg : M

/-- The message is built and sent; `sendGood` is what `send_openflow_msg` returns. -/
def resolveRequest {M : Type} (interactor : Interactor M) (dpids : List DatapathId)
    (a : JsonObject) (sendGood : Int) : Except Thrown (Accepted M) := do
  let did ← interpretDpid a
  dpidCheck dpids did
  let msg ← liftFault (interactor.requestMsgCreator a)
  if sendGood ≠ 0 then
    httpRequestError "nox_core sending interactor msg error\n" .internalServerError
  else
    let checkerror ← interpretCheckerror a
    return ⟨interactor.isModify, checkerror, did, msg⟩

/-- The body of the `try` block up to the decision what to answer. -/
def resolveData {M : Type} (reslv : Resolver M) (parse : String → JsonObject)
    (dpids : List DatapathId) (data : String) (sendGood : Int) : Except Thrown (Accepted M) :=
  if data = "" then httpRequestError "POST data not found!\n" .notFound
  else
    match parse data with
    | .null => httpRequestError "Invalid POST data format, must be JSON\n" .badRequest
    | a => do
      let tp ← interpretType reslv a
      match reslv.lookup tp with
      | none => .error (.exception "Must call init_interactor first!")
      | some interactor => resolveRequest interactor dpids a sendGood

end Resolver

section Processor

/-! ## The handlers -/

/-- The state of `Request_processor`, with the request handled last and how many
have been handled. -/
structure Processor where
  autoMutex : Bool
  replyState : Bool
  dpids : List DatapathId
  slot : Nat
  serial : Nat

def accepted : ReturnMsg := ⟨"Accepted\n", .ok⟩

/-- `postResponse`: the event it posts, if any. -/
def Processor.postResponse (s : Processor) (r : ReturnMsg) (origin : Origin) :
    Processor × Option Response :=
  if s.replyState then
    ({ s with replyState := false }, some ⟨r, origin, s.slot, s.serial⟩)
  else (s, none)

/-- The first thing `handle_request` does: `_reply_state` is set. -/
def Processor.opened (s : Processor) (r : RequestMsg) : Processor :=
  { s with replyState := true, slot := r.id, serial := s.serial + 1 }

/-- `handle_request`: the event posted and the message sent; nothing when the
behaviour of the source is undefined. -/
def Processor.handleRequest {M : Type} (reslv : Resolver M) (parse : String → JsonObject)
    (s : Processor) (r : RequestMsg) (sendGood : Int) :
    Option (Processor × Option Response × Option (Sent M)) :=
  let s := s.opened r
  let post (m : ReturnMsg) := s.postResponse m (.request r.id)
  if r.url = "/switches/info" then
    match resolveData reslv parse s.dpids r.data sendGood with
    | .ok a =>
      let (s, e) :=
        if a.checkerror = false then if a.modReq then post accepted else (s, none)
        else ({ s with autoMutex := s.autoMutex || a.modReq }, none)
      some (s, e, some ⟨r.id, a.dpid, a.msg, 1⟩)
    | .error (.httpRequestError m) =>
      let (s, e) := post m
      some (s, e, none)
    | .error (.exception what) =>
      let (s, e) := post ⟨what, .internalServerError⟩
      some (s, e, none)
    | .error .undefined => none
  else
    let (s, e) := post ⟨"Invalid path for NOX interserver source\n", .notImplemented⟩
    some (s, e, none)

/-- `handle_reply` -/
def Processor.handleReply (s : Processor) (m : SwitchMsg) : Processor × Option Response :=
  s.postResponse ⟨m.text, .ok⟩ (.switch m)

/-- What `auto_set_reply` does after its wait. -/
def Processor.autoReply (s : Processor) : Processor × Option Response :=
  let (s, e) := if s.replyState then s.postResponse accepted .timer else (s, none)
  ({ s with autoMutex := false }, e)

def Processor.datapathJoin (s : Processor) (d : DatapathId) : Processor :=
  { s with dpids := s.dpids ++ [d] }

/-- Erasing past the end is undefined. -/
def Processor.datapathLeave (s : Processor) (d : DatapathId) : Option Processor :=
  if d ∈ s.dpids then some { s with dpids := s.dpids.erase d } else none

end Processor

section Posting

/-! ## What a handler posts -/

/-- A response says what its origin may say. -/
def Response.Genuine (r : Response) : Prop :=
  match r.origin with
  | .request id => id = r.slot ∧ (r.msg = accepted ∨ r.msg.type ≠ .ok)
  | .timer => r.msg = accepted
  | .switch m => r.msg = ⟨m.text, .ok⟩

/-- The processor posts at most one response, of its own slot, and closes it. -/
structure Posts (s s' : Processor) (e : Option Response) : Prop where
  slot : s'.slot = s.slot
  serial : s'.serial = s.serial
  silent : e = none → s'.replyState = s.replyState
  posted : ∀ r, e = some r → s.replyState = true ∧ s'.replyState = false ∧
    r.slot = s.slot ∧ r.serial = s.serial

theorem posts_nothing {s s' : Processor} (hslot : s'.slot = s.slot)
    (hserial : s'.serial = s.serial) (hstate : s'.replyState = s.replyState) :
    Posts s s' none :=
  ⟨hslot, hserial, fun _ => hstate, fun r he => by cases he⟩

theorem postResponse_posts (s : Processor) (m : ReturnMsg) (o : Origin) :
    Posts s (s.postResponse m o).1 (s.postResponse m o).2 := by
  unfold Processor.postResponse
  split
  · next h =>
    refine ⟨rfl, rfl, fun he => ?_, fun r he => ?_⟩
    · cases he
    · cases he
      exact ⟨h, rfl, rfl, rfl⟩
  · exact posts_nothing rfl rfl rfl

theorem postResponse_eq_some {s : Processor} {m : ReturnMsg} {o : Origin} {r : Response}
    (h : (s.postResponse m o).2 = some r) : r = ⟨m, o, s.slot, s.serial⟩ := by
  unfold Processor.postResponse at h
  split at h
  · cases h
    rfl
  · cases h

theorem handleReply_posts (s : Processor) (m : SwitchMsg) :
    Posts s (s.handleReply m).1 (s.handleReply m).2 :=
  postResponse_posts s _ _

theorem autoReply_posts (s : Processor) : Posts s s.autoReply.1 s.autoReply.2 := by
  unfold Processor.autoReply
  by_cases hr : s.replyState = true
  · have h := postResponse_posts s accepted .timer
    simp only [hr, if_true]
    exact ⟨h.slot, h.serial, h.silent, h.posted⟩
  · simp only [hr]
    exact posts_nothing rfl rfl rfl

theorem handleReply_genuine {s : Processor} {m : SwitchMsg} {r : Response}
    (h : (s.handleReply m).2 = some r) : r.Genuine := by
  rw [postResponse_eq_some h]
  exact rfl

theorem autoReply_genuine {s : Processor} {r : Response} (h : s.autoReply.2 = some r) :
    r.Genuine ∧ r.origin = .timer := by
  unfold Processor.autoReply at h
  by_cases hr : s.replyState = true
  · simp only [hr, if_true] at h
    rw [postResponse_eq_some h]
    exact ⟨rfl, rfl⟩
  · simp [hr] at h

/-- The errors a request is answered with have an error status. -/
def Refuses {α : Type} (x : Except Thrown α) : Prop :=
  ∀ m, x = .error (.httpRequestError m) → m.type ≠ .ok

theorem refuses_bind {α β : Type} {x : Except Thrown α} {f : α → Except Thrown β}
    (hx : Refuses x) (hf : ∀ a, Refuses (f a)) : Refuses (x >>= f) := by
  cases x with
  | ok a => exact hf a
  | error e =>
    intro m hm
    exact hx m (congrArg Except.error (Except.error.inj hm))

theorem refuses_ok {α : Type} (a : α) : Refuses (.ok a) := by
  intro m hm
  cases hm

theorem refuses_liftFault {α : Type} (x : Except Fault α) : Refuses (liftFault x) := by
  intro m hm
  unfold liftFault at hm
  split at hm <;> cases hm

theorem refuses_httpRequestError {α : Type} {response : String} {type : HttpStatus}
    (h : type ≠ .ok) : Refuses (httpRequestError response type : Except Thrown α) := by
  intro m hm
  cases hm
  exact h

theorem refuses_interpretType {M : Type} (reslv : Resolver M) (jobj : JsonObject) :
    Refuses (interpretType reslv jobj) := by
  apply refuses_bind (refuses_liftFault _)
  intro t
  cases t with
  | none => exact refuses_httpRequestError (by decide)
  | some t =>
    dsimp only
    split
    · exact refuses_ok _
    · exact refuses_httpRequestError (by decide)

theorem refuses_interpretDpid (jobj : JsonObject) : Refuses (interpretDpid jobj) := by
  apply refuses_bind (refuses_liftFault _)
  intro t
  cases t with
  | none => exact refuses_httpRequestError (by decide)
  | some t =>
    dsimp only
    split
    · exact refuses_httpRequestError (by decide)
    · exact refuses_ok _

theorem refuses_interpretCheckerror (jobj : JsonObject) : Refuses (interpretCheckerror jobj) := by
  apply refuses_bind (refuses_liftFault _)
  intro t
  cases t with
  | none => exact refuses_ok _
  | some t => exact refuses_ok _

theorem refuses_dpidCheck (dpids : List DatapathId) (id : DatapathId) :
    Refuses (dpidCheck dpids id) := by
  unfold dpidCheck
  split
  · exact refuses_ok _
  · exact refuses_httpRequestError (by decide)

theorem refuses_resolveRequest {M : Type} (interactor : Interactor M) (dpids : List DatapathId)
    (a : JsonObject) (sendGood : Int) : Refuses (resolveRequest interactor dpids a sendGood) := by
  apply refuses_bind (refuses_interpretDpid a)
  intro did
  apply refuses_bind (refuses_dpidCheck dpids did)
  intro _
  apply refuses_bind (refuses_liftFault _)
  intro msg
  split
  · exact refuses_httpRequestError (by decide)
  · exact refuses_bind (refuses_interpretCheckerror a) fun _ => refuses_ok _

theorem refuses_resolveData {M : Type} (reslv : Resolver M) (parse : String → JsonObject)
    (dpids : List DatapathId) (data : String) (sendGood : Int) :
    Refuses (resolveData reslv parse dpids data sendGood) := by
  unfold resolveData
  split
  · exact refuses_httpRequestError (by decide)
  · split
    · exact refuses_httpRequestError (by decide)
    · apply refuses_bind (refuses_interpretType reslv _)
      intro tp
      split
      · intro m hm
        cases hm
      · exact refuses_resolveRequest _ _ _ _

/-- What `handle_request` does to the flag, the slot and the posted response. -/
theorem handleRequest_posts {M : Type} {reslv : Resolver M} {parse : String → JsonObject}
    {s s' : Processor} {r : RequestMsg} {sendGood : Int} {e : Option Response}
    {sent : Option (Sent M)} (h : s.handleRequest reslv parse r sendGood = some (s', e, sent)) :
    Posts (s.opened r) s' e ∧ ∀ p, e = some p → p.Genuine ∧ p.origin = .request r.id := by
  have hpost : ∀ m : ReturnMsg, m = accepted ∨ m.type ≠ .ok →
      ∀ p, ((s.opened r).postResponse m (.request r.id)).2 = some p →
        p.Genuine ∧ p.origin = .request r.id := by
    intro m hm p hp
    rw [postResponse_eq_some hp]
    exact ⟨⟨rfl, hm⟩, rfl⟩
  unfold Processor.handleRequest at h
  dsimp only at h
  split at h
  · split at h
    · next a hok =>
      by_cases hcheck : a.checkerror = false
      · by_cases hmod : a.modReq = true
        · simp only [hcheck, hmod, if_true] at h
          cases h
          exact ⟨postResponse_posts _ _ _, hpost _ (.inl rfl)⟩
        · simp only [hcheck, hmod, if_true] at h
          cases h
          exact ⟨posts_nothing rfl rfl rfl, fun p hp => by cases hp⟩
      · simp only [hcheck] at h
        cases h
        exact ⟨posts_nothing rfl rfl rfl, fun p hp => by cases hp⟩
    · next m herr =>
      cases h
      exact ⟨postResponse_posts _ _ _,
        hpost m (.inr (refuses_resolveData reslv parse _ _ sendGood m herr))⟩
    · cases h
      exact ⟨postResponse_posts _ _ _, hpost _ (.inr (by simp))⟩
    · cases h
  · cases h
    exact ⟨postResponse_posts _ _ _, hpost _ (.inr (by simp))⟩

end Posting

end Nox.Interserver

import Nox.Interserver.Addressing

/-!
# One request after the other

`handle_request` with everything it keeps from one request to the next: the flags and the
switches of `Request_processor`, the table of types that `interpret_type` copies when it is
first called, and the interactor that `Msg_resolver` holds from `init_interactor` until a
message has been made of it.  An exception leaves what has been written so far, so a
handling is a computation that throws and keeps its state.
-/

namespace Nox.Interserver

open JsonObject
open Lib (ok_bind)

section Resolver

/-! ## The state -/

/-- `Msg_resolver` -/
structure MsgResolver (M : Type) where
  interactsFact : Resolver M
  resIds : List String
  tempPtr : Option (Interactor M)

/-- `Msg_resolver::install`: each builder is registered under its name. -/
def MsgResolver.install {M : Type} (table : Resolver M) : MsgResolver M where
  interactsFact := table
  resIds := table.map (·.1)
  tempPtr := none

/-- `Request_processor` with the static `type_hash` and its resolver, and what the handler
that ran last has posted and sent. -/
structure RequestProcessor (M : Type) where
  autoMutex : Bool
  replyState : Bool
  dpids : List DatapathId
  typeHash : Option (List String)
  resolver : MsgResolver M
  posted : List ReturnMsg
  sent : List (Sent M)

def RequestProcessor.install {M : Type} (table : Resolver M) : RequestProcessor M where
  autoMutex := false
  replyState := false
  dpids := []
  typeHash := none
  resolver := .install table
  posted := []
  sent := []

/-- A piece of a handler: it may throw, and what it has written stays. -/
abbrev Handling (M α : Type) := ExceptT Thrown (StateM (RequestProcessor M)) α

end Resolver

namespace RequestProcessor

section Handlers

/-! ## The handlers -/

variable {M : Type} (parse : String → JsonObject)

def attempt {α : Type} (x : Except Thrown α) : Handling M α := fun s => (x, s)

/-- `postResponse` -/
def postResponse (s : RequestProcessor M) (m : ReturnMsg) : RequestProcessor M :=
  if s.replyState then { s with replyState := false, posted := s.posted ++ [m] } else s

/-- `interpret_type`; the table is copied at the first call. -/
def interpretType (jobj : JsonObject) : Handling M String := do
  modify fun s => { s with typeHash := some (s.typeHash.getD s.resolver.resIds) }
  let typeHash := (← get).typeHash.getD []
  match ← attempt (liftFault (jobj.getDictValue "type")) with
  | none => attempt (httpRequestError "POST data must have type field!\n" .badRequest)
  | some t =>
    let tp := t.getString true
    if tp ∈ typeHash then return tp
    else attempt (httpRequestError "POST data containes invalid type field\n" .badRequest)

/-- `init_interactor` -/
def initInteractor (tp : String) : Handling M Bool := do
  modify fun s =>
    { s with resolver := { s.resolver with tempPtr := s.resolver.interactsFact.lookup tp } }
  return (← get).resolver.tempPtr.isSome

/-- `is_modify` -/
def isModify : Handling M Bool := do
  match (← get).resolver.tempPtr with
  | some interactor => return interactor.isModify
  | none => attempt (.error (.exception "Must call init_interactor first!"))

/-- `resolve_request`: what `send_openflow_msg` returns, when the message has been made. -/
def resolveRequest (id : Nat) (did : DatapathId) (args : JsonObject) (sendGood : Int) :
    Handling M Int := do
  match (← get).resolver.tempPtr with
  | some interactor =>
    let msg ← attempt (liftFault (interactor.requestMsgCreator args))
    modify fun s => { s with resolver := { s.resolver with tempPtr := none } }
    if sendGood = 0 then
      modify fun s => { s with sent := s.sent ++ [⟨id, did, msg, 1⟩] }
    return sendGood
  | none => attempt (.error (.exception "Must call init_interactor first!"))

/-- The `try` block after the body has been parsed. -/
def serveBody (id : Nat) (a : JsonObject) (sendGood : Int) : Handling M Unit := do
  let tp ← interpretType a
  -- an `http_request_error` for a type without interactor is made here, and not thrown
  let _inited ← initInteractor tp
  let modReq ← isModify
  let did ← attempt (interpretDpid a)
  attempt (dpidCheck (← get).dpids did)
  let sendGood ← resolveRequest id did a sendGood
  if sendGood ≠ 0 then
    attempt (httpRequestError "nox_core sending interactor msg error\n" .internalServerError)
  if (← attempt (interpretCheckerror a)) = false then
    if modReq then modify (·.postResponse accepted)
  else
    if modReq then modify fun s => { s with autoMutex := true }

/-- The `try` block of `handle_request`. -/
def serve (r : RequestMsg) (sendGood : Int) : Handling M Unit :=
  if r.data = "" then attempt (httpRequestError "POST data not found!\n" .notFound)
  else
    match parse r.data with
    | .null =>
      attempt (httpRequestError "Invalid POST data format, must be JSON\n" .badRequest)
    | a => serveBody r.id a sendGood

/-- What the handler that runs has done so far: nothing. -/
def entered (s : RequestProcessor M) : RequestProcessor M := { s with posted := [], sent := [] }

/-- `handle_request`; nothing when the behaviour of the source is undefined. -/
def handleRequest (s : RequestProcessor M) (r : RequestMsg) (sendGood : Int) :
    Option (RequestProcessor M) :=
  let s := { s.entered with replyState := true }
  if r.url = "/switches/info" then
    match serve parse r sendGood s with
    | (.ok (), s) => some s
    | (.error (.httpRequestError m), s) => some (s.postResponse m)
    | (.error (.exception what), s) => some (s.postResponse ⟨what, .internalServerError⟩)
    | (.error .undefined, _) => none
  else
    some (s.postResponse ⟨"Invalid path for NOX interserver source\n", .notImplemented⟩)

/-- `handle_reply` -/
def handleReply (s : RequestProcessor M) (reply : String) : RequestProcessor M :=
  s.entered.postResponse ⟨reply, .ok⟩

/-- What `auto_set_reply` does after its wait. -/
def autoSetReply (s : RequestProcessor M) : RequestProcessor M :=
  { s.entered.postResponse accepted with autoMutex := false }

/-- `datapath_join_handler` -/
def datapathJoin (s : RequestProcessor M) (d : DatapathId) : RequestProcessor M :=
  { s.entered with dpids := s.dpids ++ [d] }

/-- `datapath_leave_handler`; erasing past the end is undefined. -/
def datapathLeave (s : RequestProcessor M) (d : DatapathId) : Option (RequestProcessor M) :=
  if d ∈ s.dpids then some { s.entered with dpids := s.dpids.erase d } else none

/-- The states of a processor that has been installed with a table of builders. -/
inductive Reached (table : Resolver M) : RequestProcessor M → Prop
  | install : Reached table (.install table)
  | request {s s' : RequestProcessor M} (r : RequestMsg) (sendGood : Int) (h : Reached table s)
      (hs : s.handleRequest parse r sendGood = some s') : Reached table s'
  | reply {s : RequestProcessor M} (reply : String) (h : Reached table s) :
      Reached table (s.handleReply reply)
  | autoReply {s : RequestProcessor M} (h : Reached table s) : Reached table s.autoSetReply
  | join {s : RequestProcessor M} (d : DatapathId) (h : Reached table s) :
      Reached table (s.datapathJoin d)
  | leave {s s' : RequestProcessor M} (d : DatapathId) (h : Reached table s)
      (hs : s.datapathLeave d = some s') : Reached table s'

end Handlers

section Serving

/-! ## What serving a request does -/

variable {M : Type} {parse : String → JsonObject} {table : Resolver M}

/-- The resolver has its table, and the types that have been copied are its own. -/
structure Holds (table : Resolver M) (s : RequestProcessor M) : Prop where
  interactsFact : s.resolver.interactsFact = table
  resIds : s.resolver.resIds = table.map (·.1)
  typeHash : s.typeHash = none ∨ s.typeHash = some (table.map (·.1))

/-- The state with another table of types and another interactor that is held. -/
def holding (s : RequestProcessor M) (types : Option (List String)) (p : Option (Interactor M)) :
    RequestProcessor M :=
  { s with typeHash := types, resolver := { s.resolver with tempPtr := p } }

/-- What is done once a message has been built and sent. -/
def accept (s : RequestProcessor M) (id : Nat) (a : Accepted M) : RequestProcessor M :=
  let s := { s with sent := s.sent ++ [⟨id, a.dpid, a.msg, 1⟩] }
  if a.checkerror = false then if a.modReq then s.postResponse accepted else s
  else if a.modReq then { s with autoMutex := true } else s

/-- What serving comes to: an exception that leaves all but what is held, or a message. -/
def Serves (s : RequestProcessor M) (id : Nat) (x : Except Thrown (Accepted M))
    (y : Except Thrown Unit × RequestProcessor M) : Prop :=
  ∃ types p, (types = s.typeHash ∨ types = some s.resolver.resIds) ∧
    match x with
    | .ok a => y = (.ok (), (s.holding types p).accept id a)
    | .error e => y = (.error e, s.holding types p)

theorem attempt_bind {α β : Type} (x : Except Thrown α) (f : α → Handling M β)
    (s : RequestProcessor M) :
    (attempt x >>= f) s = match x with
      | .ok a => f a s
      | .error e => (.error e, s) := by
  cases x <;> rfl

theorem handling_bind {α β : Type} (x : Handling M α) (f : α → Handling M β)
    (s : RequestProcessor M) :
    (x >>= f) s = match x s with
      | (.ok a, s') => f a s'
      | (.error e, s') => (.error e, s') := by
  rw [bind, Monad.toBind, ExceptT.instMonad]
  simp only [ExceptT.bind, ExceptT.mk, bind, StateT.bind]
  rcases x s with ⟨a | e, s'⟩ <;> rfl

theorem attempt_run {α : Type} (x : Except Thrown α) (s : RequestProcessor M) :
    attempt x s = (x, s) := rfl

theorem pure_run {α : Type} (a : α) (s : RequestProcessor M) :
    (pure a : Handling M α) s = (.ok a, s) := rfl

theorem get_run (s : RequestProcessor M) : (get : Handling M _) s = (.ok s, s) := rfl

theorem modify_run (f : RequestProcessor M → RequestProcessor M) (s : RequestProcessor M) :
    (modify f : Handling M Unit) s = (.ok (), f s) := rfl

/-- The first call copies the names the resolver has, and a later one finds them copied. -/
theorem interpretType_run {s : RequestProcessor M} (h : Holds table s) (jobj : JsonObject) :
    interpretType jobj s = (Interserver.interpretType table jobj,
      s.holding (some (table.map (·.1))) s.resolver.tempPtr) := by
  have htypes : s.typeHash.getD s.resolver.resIds = table.map (·.1) := by
    rcases h.typeHash with hnone | hsome
    · rw [hnone, h.resIds]
      rfl
    · rw [hsome]
      rfl
  have hread : interpretType jobj s = (do
      match ← attempt (liftFault (jobj.getDictValue "type")) with
      | none => attempt (httpRequestError "POST data must have type field!\n" .badRequest)
      | some t =>
        let tp := t.getString true
        if tp ∈ table.map (·.1) then return tp
        else attempt (httpRequestError "POST data containes invalid type field\n" .badRequest) :
        Handling M String) (s.holding (some (table.map (·.1))) s.resolver.tempPtr) := by
    unfold holding
    rw [← htypes]
    rfl
  rw [hread, attempt_bind, Interserver.interpretType]
  cases jobj.getDictValue "type" with
  | error e => cases e <;> rfl
  | ok t =>
    cases t with
    | none => rfl
    | some t =>
      simp only [liftFault, ok_bind]
      split <;> rfl

theorem interpretCheckerror_ok {a : JsonObject} (h : a.IsDict) :
    ∃ b, interpretCheckerror a = .ok b := by
  obtain ⟨entries, rfl⟩ := h
  rw [interpretCheckerror, getDictValue, liftFault, ok_bind]
  cases (entries.find? (·.1 == "checkerror")).map (·.2) with
  | none => exact ⟨false, rfl⟩
  | some t => exact ⟨_, rfl⟩

/-- The rest of the body of a request whose type has an interactor. -/
theorem serveBody_found {s : RequestProcessor M} {interactor : Interactor M} {tp : String}
    (h : Holds table s) (id : Nat) (a : JsonObject) (sendGood : Int)
    (htype : Interserver.interpretType table a = .ok tp)
    (hfound : table.lookup tp = some interactor) :
    Serves s id (Interserver.resolveRequest interactor s.dpids a sendGood)
      (serveBody id a sendGood s) := by
  have hdict : a.IsDict := (interpretType_avoids table).mp (htype ▸ nofun)
  obtain ⟨checkerror, hcheckerror⟩ := interpretCheckerror_ok hdict
  have hlookup : s.resolver.interactsFact.lookup tp = some interactor := by
    rw [h.interactsFact, hfound]
  have htypes : some (table.map (·.1)) = some s.resolver.resIds := by rw [h.resIds]
  unfold serveBody Interserver.resolveRequest
  rw [handling_bind, interpretType_run h, htype]
  simp only [handling_bind, initInteractor, isModify, attempt_run, modify_run, get_run, pure_run,
    holding, hlookup]
  cases interpretDpid a with
  | error e => exact ⟨_, _, .inr htypes, rfl⟩
  | ok did =>
    simp only [ok_bind]
    cases dpidCheck s.dpids did with
    | error e => exact ⟨_, _, .inr htypes, rfl⟩
    | ok u =>
      simp only [ok_bind, resolveRequest, handling_bind, get_run, attempt_run, modify_run]
      cases liftFault (interactor.requestMsgCreator a) with
      | error e => exact ⟨_, _, .inr htypes, rfl⟩
      | ok msg =>
        simp only [ok_bind]
        refine ⟨some (table.map (·.1)), none, .inr htypes, ?_⟩
        by_cases hsend : sendGood = 0
        · subst hsend
          simp only [ne_eq, not_true_eq_false, if_false, if_true, handling_bind, modify_run,
            pure_run, attempt_run, hcheckerror, ok_bind]
          unfold accept holding
          cases checkerror <;> cases hmod : interactor.isModify <;> rfl
        · simp only [ne_eq, hsend, not_false_eq_true, if_true, if_false, pure_run, handling_bind,
            attempt_run, httpRequestError]
          rfl

theorem serve_body {r : RequestMsg} (hdata : r.data ≠ "") (hnull : parse r.data ≠ .null)
    (sendGood : Int) :
    (serve parse r sendGood : Handling M Unit) = serveBody r.id (parse r.data) sendGood := by
  unfold serve
  rw [if_neg hdata]
  split
  · next heq => exact absurd heq hnull
  · rfl

theorem resolveData_body {data : String} (hdata : data ≠ "") (hnull : parse data ≠ .null)
    (dpids : List DatapathId) (sendGood : Int) :
    resolveData table parse dpids data sendGood =
      (Interserver.interpretType table (parse data) >>= fun tp =>
        match table.lookup tp with
        | none => .error (.exception "Must call init_interactor first!")
        | some interactor =>
          Interserver.resolveRequest interactor dpids (parse data) sendGood) := by
  unfold resolveData
  rw [if_neg hdata]
  split
  · next heq => exact absurd heq hnull
  · rfl

/-- A body is served as `resolveData` reads it, whatever was held before. -/
theorem serve_serves (parse : String → JsonObject) {s : RequestProcessor M} (h : Holds table s)
    (r : RequestMsg) (sendGood : Int) : Serves s r.id (resolveData table parse s.dpids r.data sendGood)
      (serve parse r sendGood s) := by
  have htypes : some (table.map (·.1)) = some s.resolver.resIds := by rw [h.resIds]
  by_cases hdata : r.data = ""
  · unfold serve resolveData
    simp only [if_pos hdata]
    exact ⟨_, s.resolver.tempPtr, .inl rfl, rfl⟩
  by_cases hnull : parse r.data = .null
  · unfold serve resolveData
    simp only [if_neg hdata, hnull]
    exact ⟨_, s.resolver.tempPtr, .inl rfl, rfl⟩
  rw [serve_body hdata hnull, resolveData_body hdata hnull]
  cases htype : Interserver.interpretType table (parse r.data) with
  | error e =>
    refine ⟨_, s.resolver.tempPtr, .inr htypes, ?_⟩
    unfold serveBody
    rw [handling_bind, interpretType_run h, htype]
    rfl
  | ok tp =>
    obtain ⟨-, hmem⟩ := interpretType_ok.mp htype
    obtain ⟨interactor, hlookup, -⟩ := lookup_of_mem hmem
    rw [ok_bind, hlookup]
    exact serveBody_found h r.id _ sendGood htype hlookup

end Serving

section Outcomes

/-! ## What handling a request does -/

variable {M : Type} {parse : String → JsonObject} {table : Resolver M} {s s' : RequestProcessor M}
  {r : RequestMsg} {sendGood : Int}

/-- The state `handle_request` serves a request in. -/
def opened (s : RequestProcessor M) : RequestProcessor M := { s.entered with replyState := true }

/-- The state a request is refused in, with its answer. -/
def refuse (s : RequestProcessor M) (m : ReturnMsg) : RequestProcessor M :=
  { s.entered with replyState := false, posted := [m] }

/-- The states a request may leave the resolver in. -/
def Kept (s : RequestProcessor M) (types : Option (List String)) : Prop :=
  types = s.typeHash ∨ types = some s.resolver.resIds

/-- What a request is served with, its path included. -/
def reading (parse : String → JsonObject) (table : Resolver M) (dpids : List DatapathId)
    (r : RequestMsg) (sendGood : Int) : Except Thrown (Accepted M) :=
  if r.url = "/switches/info" then resolveData table parse dpids r.data sendGood
  else httpRequestError "Invalid path for NOX interserver source\n" .notImplemented

/-- The end of `handle_request`, from what was held before. -/
def ending (s : RequestProcessor M) (id : Nat) :
    Except Thrown (Accepted M) → Option (RequestProcessor M)
  | .ok a => some (s.opened.accept id a)
  | .error (.httpRequestError m) => some (s.refuse m)
  | .error (.exception what) => some (s.refuse ⟨what, .internalServerError⟩)
  | .error .undefined => none

theorem refuses_reading (parse : String → JsonObject) (table : Resolver M)
    (dpids : List DatapathId) (r : RequestMsg) (sendGood : Int) :
    Refuses (reading parse table dpids r sendGood) := by
  unfold reading
  split
  · exact refuses_resolveData table parse dpids r.data sendGood
  · exact refuses_httpRequestError (by decide)

/-- A request is handled by what it says and the switches that are there. -/
theorem handleRequest_eq (parse : String → JsonObject) (r : RequestMsg) (sendGood : Int)
    (h : Holds table s) : ∃ types p, s.Kept types ∧ s.handleRequest parse r sendGood =
      (s.holding types p).ending r.id (reading parse table s.dpids r sendGood) := by
  have hopened : Holds table s.opened := ⟨h.interactsFact, h.resIds, h.typeHash⟩
  obtain ⟨types, p, hkept, hserve⟩ := serve_serves parse hopened r sendGood
  have hdpids : s.opened.dpids = s.dpids := rfl
  rw [hdpids] at hserve
  by_cases hurl : r.url = "/switches/info"
  · refine ⟨types, p, hkept, ?_⟩
    have hrun : s.handleRequest parse r sendGood = match serve parse r sendGood s.opened with
        | (.ok (), s) => some s
        | (.error (.httpRequestError m), s) => some (s.postResponse m)
        | (.error (.exception what), s) => some (s.postResponse ⟨what, .internalServerError⟩)
        | (.error .undefined, _) => none := by
      unfold handleRequest
      rw [if_pos hurl]
      rfl
    rw [hrun, reading, if_pos hurl]
    cases hres : resolveData table parse s.dpids r.data sendGood with
    | ok a =>
      rw [hres] at hserve
      rw [hserve]
      rfl
    | error e =>
      rw [hres] at hserve
      rw [hserve]
      cases e <;> rfl
  · refine ⟨s.typeHash, s.resolver.tempPtr, .inl rfl, ?_⟩
    unfold handleRequest reading
    rw [if_neg hurl, if_neg hurl]
    rfl

/-- What can be seen of a state, and of what the handler did. -/
def seen (s : RequestProcessor M) :
    Bool × Bool × List DatapathId × List ReturnMsg × List (Sent M) :=
  (s.autoMutex, s.replyState, s.dpids, s.posted, s.sent)

/-- A processor that keeps nothing between two requests does the same. -/
theorem handleRequest_seen (h : Holds table s) (slot serial : Nat) :
    (s.handleRequest parse r sendGood).map seen =
      (Processor.handleRequest table parse ⟨s.autoMutex, s.replyState, s.dpids, slot, serial⟩ r
        sendGood).map fun (p, e, m) =>
          (p.autoMutex, p.replyState, p.dpids, (e.map (·.msg)).toList, m.toList) := by
  obtain ⟨types, p, -, hrun⟩ := handleRequest_eq parse r sendGood h
  rw [hrun]
  unfold reading Processor.handleRequest
  dsimp only
  have hdpids : (Processor.opened ⟨s.autoMutex, s.replyState, s.dpids, slot, serial⟩ r).dpids =
      s.dpids := rfl
  rw [hdpids]
  split
  · cases resolveData table parse s.dpids r.data sendGood with
    | ok a =>
      rcases a with ⟨modReq, checkerror, dpid, msg⟩
      cases modReq <;> cases checkerror <;> simp [ending, accept, seen, opened, entered, holding,
        postResponse, Processor.opened, Processor.postResponse]
    | error e =>
      cases e <;> rfl
  · rfl

theorem Holds.holding (h : Holds table s) {types : Option (List String)} (hkept : s.Kept types)
    (p : Option (Interactor M)) : Holds table (s.holding types p) where
  interactsFact := h.interactsFact
  resIds := h.resIds
  typeHash := by
    rcases hkept with rfl | rfl
    · exact h.typeHash
    · exact .inr (congrArg some h.resIds)

/-- The fields a handler writes are not those of the resolver. -/
theorem Holds.congr (h : Holds table s) (hresolver : s'.resolver = s.resolver)
    (htypes : s'.typeHash = s.typeHash) : Holds table s' where
  interactsFact := by rw [hresolver, h.interactsFact]
  resIds := by rw [hresolver, h.resIds]
  typeHash := by rw [htypes]; exact h.typeHash

theorem postResponse_frame (s : RequestProcessor M) (m : ReturnMsg) :
    (s.postResponse m).resolver = s.resolver ∧ (s.postResponse m).typeHash = s.typeHash ∧
      (s.postResponse m).dpids = s.dpids ∧ (s.postResponse m).sent = s.sent := by
  unfold postResponse
  split <;> exact ⟨rfl, rfl, rfl, rfl⟩

/-- What accepting a message changes: it is sent, and `Accepted` may be posted. -/
theorem accept_frame (s : RequestProcessor M) (id : Nat) (a : Accepted M) :
    (s.accept id a).resolver = s.resolver ∧ (s.accept id a).typeHash = s.typeHash ∧
      (s.accept id a).sent = s.sent ++ [⟨id, a.dpid, a.msg, 1⟩] ∧
      ∀ m ∈ (s.accept id a).posted, m ∈ s.posted ∨ m = accepted := by
  unfold accept postResponse
  dsimp only
  split
  · split
    · split
      · refine ⟨rfl, rfl, rfl, fun m hm => ?_⟩
        rw [List.mem_append, List.mem_singleton] at hm
        exact hm
      · exact ⟨rfl, rfl, rfl, fun m hm => .inl hm⟩
    · exact ⟨rfl, rfl, rfl, fun m hm => .inl hm⟩
  · split <;> exact ⟨rfl, rfl, rfl, fun m hm => .inl hm⟩

theorem Holds.ending (h : Holds table s) {x : Except Thrown (Accepted M)} {id : Nat}
    (hs : s.ending id x = some s') : Holds table s' := by
  cases x with
  | ok a =>
    cases hs
    obtain ⟨hresolver, htypes, -, -⟩ := accept_frame s.opened id a
    exact h.congr hresolver htypes
  | error e =>
    cases e with
    | httpRequestError m =>
      cases hs
      exact h.congr rfl rfl
    | exception what =>
      cases hs
      exact h.congr rfl rfl
    | undefined => cases hs

/-- Whatever has been handled, the resolver has its table. -/
theorem Reached.holds (h : Reached parse table s) : Holds table s := by
  induction h with
  | install => exact ⟨rfl, rfl, .inl rfl⟩
  | @request s s' r sendGood _ hs ih =>
    obtain ⟨types, p, hkept, hrun⟩ := handleRequest_eq parse r sendGood ih
    exact (ih.holding hkept p).ending (hrun.symm.trans hs)
  | @reply s reply _ ih =>
    obtain ⟨hresolver, htypes, -, -⟩ := postResponse_frame s.entered ⟨reply, .ok⟩
    exact ih.congr hresolver htypes
  | @autoReply s _ ih =>
    obtain ⟨hresolver, htypes, -, -⟩ := postResponse_frame s.entered accepted
    exact ih.congr hresolver htypes
  | join d _ ih => exact ih.congr rfl rfl
  | leave d _ hs ih =>
    unfold datapathLeave at hs
    split at hs
    · cases hs
      exact ih.congr rfl rfl
    · cases hs

end Outcomes

section Verdicts

/-! ## One outcome -/

variable {M : Type} (parse : String → JsonObject) (table : Resolver M)

/-- The request is answered with one error, and no message is sent. -/
def Refused (s' : RequestProcessor M) : Prop :=
  ∃ m, s'.posted = [m] ∧ m.type ≠ .ok ∧ s'.sent = []

/-- One message is sent, to the switch whose numeral the request gives, made by the
interactor of the request's type, and no error is posted. -/
def Forwarded (r : RequestMsg) (s' : RequestProcessor M) : Prop :=
  ∃ m, s'.sent = [m] ∧ m.request = r.id ∧
    (parse r.data).text? "dpid" = some (toString m.dpid.toNat) ∧
    (∃ tp interactor, (parse r.data).text? "type" = some tp ∧
      table.lookup tp = some interactor ∧ interactor.requestMsgCreator (parse r.data) = .ok m.msg) ∧
    ∀ p ∈ s'.posted, p.type = .ok

/-- What of two states can be told by looking at what has been done and what is registered. -/
structure Alike (s t : RequestProcessor M) : Prop where
  autoMutex : s.autoMutex = t.autoMutex
  replyState : s.replyState = t.replyState
  dpids : s.dpids = t.dpids
  interactsFact : s.resolver.interactsFact = t.resolver.interactsFact
  posted : s.posted = t.posted
  sent : s.sent = t.sent

/-- The switches and the factory are as before, and the next request, whichever it is, is
handled as it would have been before. -/
structure Unaffected (s s' : RequestProcessor M) : Prop where
  dpids : s'.dpids = s.dpids
  interactsFact : s'.resolver.interactsFact = s.resolver.interactsFact
  next : ∀ (r : RequestMsg) (sendGood : Int),
    Option.Rel Alike (s'.handleRequest parse r sendGood) (s.handleRequest parse r sendGood)

/-- A request has one outcome: a refusal that nothing remembers, or one message. -/
def OneOutcome (s : RequestProcessor M) (r : RequestMsg) (sendGood : Int) : Prop :=
  ∃ s', s.handleRequest parse r sendGood = some s' ∧
    ((Refused s' ∧ Unaffected parse s s') ∨ Forwarded parse table r s')

variable {parse table} {s s' : RequestProcessor M} {r : RequestMsg} {sendGood : Int}

/-- What is held does not come into the end of a handling. -/
theorem ending_alike {t : RequestProcessor M} (hauto : s.autoMutex = t.autoMutex)
    (hdpids : s.dpids = t.dpids) (hfact : s.resolver.interactsFact = t.resolver.interactsFact)
    (id : Nat) (x : Except Thrown (Accepted M)) :
    Option.Rel Alike (s.ending id x) (t.ending id x) := by
  cases x with
  | ok a =>
    refine .some ?_
    unfold accept postResponse opened entered
    dsimp only
    split
    · split <;> exact ⟨hauto, rfl, hdpids, hfact, rfl, rfl⟩
    · split
      · exact ⟨rfl, rfl, hdpids, hfact, rfl, rfl⟩
      · exact ⟨hauto, rfl, hdpids, hfact, rfl, rfl⟩
  | error e =>
    cases e with
    | httpRequestError m => exact .some ⟨hauto, rfl, hdpids, hfact, rfl, rfl⟩
    | exception what => exact .some ⟨hauto, rfl, hdpids, hfact, rfl, rfl⟩
    | undefined => exact .none

/-- A request that was refused is forgotten. -/
theorem unaffected_refuse (h : Holds table s) {types : Option (List String)}
    (hkept : s.Kept types) (p : Option (Interactor M)) (m : ReturnMsg) :
    Unaffected parse s ((s.holding types p).refuse m) where
  dpids := rfl
  interactsFact := rfl
  next := by
    intro r sendGood
    have h' : Holds table ((s.holding types p).refuse m) := (h.holding hkept p).congr rfl rfl
    obtain ⟨types₁, p₁, -, hrun₁⟩ := handleRequest_eq parse r sendGood h
    obtain ⟨types₂, p₂, -, hrun₂⟩ := handleRequest_eq parse r sendGood h'
    rw [hrun₁, hrun₂]
    apply ending_alike <;> rfl

/-- What a request that is served to the end has been read as. -/
structure ReadAs (parse : String → JsonObject) (table : Resolver M) (dpids : List DatapathId)
    (r : RequestMsg) (sendGood : Int) (text : String) (did : DatapathId) (tp : String)
    (interactor : Interactor M) (msg : M) : Prop where
  url : r.url = "/switches/info"
  data : r.data ≠ ""
  type : (parse r.data).text? "type" = some tp
  lookup : table.lookup tp = some interactor
  dpid : (parse r.data).text? "dpid" = some text
  id : atoi text ≠ 0 ∧ UInt64.ofInt (atoi text) = did
  mem : did ∈ dpids
  msg : interactor.requestMsgCreator (parse r.data) = .ok msg
  sendGood : sendGood = 0

theorem isDict_of_text {a : JsonObject} {key text : String} (h : a.text? key = some text) :
    a.IsDict := by
  cases a with
  | dict entries => exact ⟨entries, rfl⟩
  | _ => cases h

theorem liftFault_eq_ok {α : Type} {x : Except Fault α} {a : α} :
    liftFault x = .ok a ↔ x = .ok a := by
  cases x with
  | ok b => simp [liftFault]
  | error e => cases e <;> simp [liftFault]

theorem reading_ok {dpids : List DatapathId} {a : Accepted M}
    (h : reading parse table dpids r sendGood = .ok a) :
    ∃ text tp interactor,
      ReadAs parse table dpids r sendGood text a.dpid tp interactor a.msg := by
  unfold reading at h
  split at h
  · next hurl =>
    have hdata : r.data ≠ "" := by
      intro heq
      rw [resolveData, if_pos heq] at h
      cases h
    have hnull : parse r.data ≠ .null := by
      intro heq
      rw [resolveData, if_neg hdata, heq] at h
      cases h
    rw [resolveData_body hdata hnull, bind_eq_ok] at h
    obtain ⟨tp, htype, h⟩ := h
    cases hlookup : table.lookup tp with
    | none =>
      rw [hlookup] at h
      cases h
    | some interactor =>
      rw [hlookup] at h
      unfold Interserver.resolveRequest at h
      simp only [bind_eq_ok] at h
      obtain ⟨did, hdid, u, hcheck, msg, hmsg, h⟩ := h
      obtain ⟨text, hdpid, hid⟩ := interpretDpid_ok.mp hdid
      have hmem : did ∈ dpids := by
        unfold dpidCheck at hcheck
        split at hcheck
        · assumption
        · cases hcheck
      split at h
      · cases h
      · next hsend =>
        rw [bind_eq_ok] at h
        obtain ⟨b, -, h⟩ := h
        cases h
        exact ⟨text, tp, interactor, hurl, hdata, (interpretType_ok.mp htype).1, hlookup, hdpid,
          hid, hmem, liftFault_eq_ok.mp hmsg, not_not.mp hsend⟩
  · cases h

theorem ReadAs.reading {dpids : List DatapathId} {text tp : String} {did : DatapathId}
    {interactor : Interactor M} {msg : M}
    (h : ReadAs parse table dpids r sendGood text did tp interactor msg) :
    ∃ a, reading parse table dpids r sendGood = .ok a ∧ a.dpid = did ∧ a.msg = msg := by
  have hdict := isDict_of_text h.type
  have hnull : parse r.data ≠ .null := by
    intro heq
    rw [heq] at hdict
    obtain ⟨entries, hentries⟩ := hdict
    cases hentries
  have hmem : tp ∈ table.map (·.1) := by
    obtain ⟨l₁, l₂, rfl, -⟩ := List.lookup_eq_some_iff.mp h.lookup
    simp
  obtain ⟨b, hcheckerror⟩ := interpretCheckerror_ok hdict
  have hdid := interpretDpid_ok.mpr ⟨text, h.dpid, h.id.1, h.id.2⟩
  rw [RequestProcessor.reading, if_pos h.url, resolveData_body h.data hnull,
    interpretType_ok.mpr ⟨h.type, hmem⟩, ok_bind, h.lookup]
  dsimp only
  unfold Interserver.resolveRequest
  rw [hdid, ok_bind, dpidCheck, if_pos h.mem, ok_bind, h.msg, liftFault, ok_bind,
    if_neg (not_not.mpr h.sendGood), hcheckerror]
  exact ⟨_, rfl, rfl, rfl⟩

/-- A handling has one outcome where it is defined and the switch that is read is the one
that is named. -/
theorem oneOutcome_iff_reading (h : Holds table s) :
    OneOutcome parse table s r sendGood ↔
      reading parse table s.dpids r sendGood ≠ .error .undefined ∧
      ∀ text did tp interactor msg,
        ReadAs parse table s.dpids r sendGood text did tp interactor msg →
          text = toString did.toNat := by
  obtain ⟨types, p, hkept, hrun⟩ := handleRequest_eq parse r sendGood h
  have hrefuses := refuses_reading parse table s.dpids r sendGood
  unfold OneOutcome
  rw [hrun]
  cases hread : reading parse table s.dpids r sendGood with
  | ok a =>
    obtain ⟨-, -, hsent, hposted⟩ := accept_frame (s.holding types p).opened r.id a
    constructor
    · rintro ⟨s', hs', hout⟩
      cases hs'
      refine ⟨nofun, fun text did tp interactor msg has => ?_⟩
      obtain ⟨a', hread', hdpid, -⟩ := has.reading
      cases hread.symm.trans hread'
      rcases hout with ⟨⟨m, -, -, hnone⟩, -⟩ | ⟨m, hone, -, hnamed, -⟩
      · rw [hsent] at hnone
        cases hnone
      · rw [hsent] at hone
        cases hone
        cases has.dpid.symm.trans hnamed
        rw [hdpid]
    · rintro ⟨-, hnamed⟩
      obtain ⟨text, tp, interactor, has⟩ := reading_ok hread
      refine ⟨_, rfl, .inr ⟨_, hsent, rfl, ?_, ⟨tp, interactor, has.type, has.lookup, has.msg⟩,
        fun m hm => ?_⟩⟩
      · rw [has.dpid, hnamed _ _ _ _ _ has]
      · rcases hposted m hm with hm | rfl
        · cases hm
        · rfl
  | error e =>
    have hnone : ∀ text did tp interactor msg,
        ¬ReadAs parse table s.dpids r sendGood text did tp interactor msg := by
      intro text did tp interactor msg has
      obtain ⟨a, hread', -⟩ := has.reading
      cases hread.symm.trans hread'
    have hno : ∀ text did tp interactor msg,
        ReadAs parse table s.dpids r sendGood text did tp interactor msg →
          text = toString did.toNat :=
      fun text did tp interactor msg has => absurd has (hnone text did tp interactor msg)
    cases e with
    | httpRequestError m =>
      refine ⟨fun _ => ⟨nofun, hno⟩, fun _ => ⟨_, rfl, .inl ⟨⟨m, rfl, ?_, rfl⟩, ?_⟩⟩⟩
      · exact hrefuses m hread
      · exact unaffected_refuse h hkept p m
    | exception what =>
      refine ⟨fun _ => ⟨nofun, hno⟩, fun _ => ⟨_, rfl, .inl ⟨⟨_, rfl, ?_, rfl⟩, ?_⟩⟩⟩
      · simp
      · exact unaffected_refuse h hkept p _
    | undefined => exact ⟨fun ⟨s', hs', _⟩ => (nomatch hs'), fun hdef => absurd rfl hdef.1⟩

end Verdicts

section Requests

/-! ## The requests that have one outcome -/

variable (parse : String → JsonObject) (junk : Nat → Junk)

/-- The body is typed as far as it is read; and where a message is made of it, the text of
its datapath id is the numeral of each connected switch it could be read as. -/
structure Unmistakable (dpids : List DatapathId) (r : RequestMsg) (sendGood : Int) : Prop where
  typed : r.url = "/switches/info" → r.data ≠ "" → parse r.data ≠ .null →
    BodyTyped parse dpids (parse r.data)
  named : r.url = "/switches/info" → r.data ≠ "" → sendGood = 0 →
    ∀ tp ∈ (msgResolver parse junk).map (·.1), (parse r.data).text? "type" = some tp →
      RequestAccepted parse (parse r.data) tp →
      ∀ text, (parse r.data).text? "dpid" = some text →
        ∀ d ∈ dpids, d ≠ 0 → IntSized d → SameLowBits text d → text = toString d.toNat

variable {parse junk} {s : RequestProcessor OflMsg}

theorem reading_avoids (dpids : List DatapathId) (r : RequestMsg) (sendGood : Int) :
    reading parse (msgResolver parse junk) dpids r sendGood ≠ .error .undefined ↔
      (r.url = "/switches/info" → r.data ≠ "" → parse r.data ≠ .null →
        BodyTyped parse dpids (parse r.data)) := by
  unfold reading
  split
  · next hurl =>
    rw [resolveData_avoids]
    exact ⟨fun h _ => h, fun h => h hurl⟩
  · next hurl => exact ⟨fun _ h => absurd h hurl, fun _ => httpRequestError_avoids _ _⟩

/-- Where a body is typed, a message is made of it when it is accepted. -/
theorem creates_iff {dpids : List DatapathId} {body : JsonObject} {tp text : String}
    {interactor : Interactor OflMsg} {d : DatapathId} (htyped : BodyTyped parse dpids body)
    (hmem : (tp, interactor) ∈ msgResolver parse junk) (htype : body.text? "type" = some tp)
    (hdpid : body.text? "dpid" = some text) (hid : atoi text ≠ 0 ∧ UInt64.ofInt (atoi text) = d)
    (hd : d ∈ dpids) :
    (∃ msg, interactor.requestMsgCreator body = .ok msg) ↔ RequestAccepted parse body tp := by
  have hswitch : NamesSwitch dpids body := ⟨text, hdpid, hid.1, hid.2 ▸ hd⟩
  exact (verdict_requestMsgCreator parse junk hmem htyped.1).returns
    (htyped.2 tp htype hswitch)

/-- In every state of the processor, exactly these requests have one outcome. -/
theorem oneOutcome_iff (h : Reached parse (msgResolver parse junk) s) (r : RequestMsg)
    (sendGood : Int) :
    OneOutcome parse (msgResolver parse junk) s r sendGood ↔
      Unmistakable parse junk s.dpids r sendGood := by
  have hbody : ∀ {tp}, (parse r.data).text? "type" = some tp → parse r.data ≠ .null := by
    intro tp htype heq
    rw [heq] at htype
    cases htype
  rw [oneOutcome_iff_reading h.holds, reading_avoids]
  constructor
  · rintro ⟨htyped, hnamed⟩
    refine ⟨htyped, ?_⟩
    intro hurl hdata hsend tp hmem htype haccepted text hdpid d hd hne hsize hsame
    obtain ⟨interactor, hlookup, hinteractor⟩ := lookup_of_mem hmem
    have hid := (atoi_iff text d).mpr ⟨hne, hsize, hsame⟩
    obtain ⟨msg, hmsg⟩ := (creates_iff (htyped hurl hdata (hbody htype)) hinteractor htype hdpid
      hid hd).mpr haccepted
    exact hnamed text d tp interactor msg
      ⟨hurl, hdata, htype, hlookup, hdpid, hid, hd, hmsg, hsend⟩
  · rintro ⟨htyped, hnamed⟩
    refine ⟨htyped, fun text did tp interactor msg has => ?_⟩
    obtain ⟨hne, hsize, hsame⟩ := (atoi_iff text did).mp has.id
    obtain ⟨l₁, l₂, htable, -⟩ := List.lookup_eq_some_iff.mp has.lookup
    have hinteractor : (tp, interactor) ∈ msgResolver parse junk := by
      rw [htable]
      exact List.mem_append_right l₁ List.mem_cons_self
    have haccepted := (creates_iff (htyped has.url has.data (hbody has.type)) hinteractor
      has.type has.dpid has.id has.mem).mp ⟨msg, has.msg⟩
    exact hnamed has.url has.data has.sendGood tp (List.mem_map_of_mem hinteractor) has.type
      haccepted text has.dpid did has.mem hne hsize hsame

/-- The state in which two switches have joined. -/
def twoJoined : RequestProcessor OflMsg :=
  ((install interactors).datapathJoin 1).datapathJoin 4294967297

theorem reached_twoJoined : Reached parseJson interactors twoJoined :=
  .join _ (.join _ .install)

theorem description_type (text : String)
    (h : (parseJson (descriptionRequest text).data).text? "type" = some "switch_description")
    {tp : String} (htype : (parseJson (descriptionRequest text).data).text? "type" = some tp) :
    tp = "switch_description" :=
  (Option.some.inj (h.symm.trans htype)).symm

/-- The request for the switch with the id 1 has one outcome. -/
theorem oneOutcome_description :
    OneOutcome parseJson interactors twoJoined (descriptionRequest "1") 0 := by
  have htype : (parseJson (descriptionRequest "1").data).text? "type" =
      some "switch_description" := by decide +kernel
  have hdpid : (parseJson (descriptionRequest "1").data).text? "dpid" = some "1" := by
    decide +kernel
  apply (oneOutcome_iff reached_twoJoined _ _).mpr
  constructor
  · intro _ _ _
    refine ⟨isDict_of_text htype, fun tp htp _ => ?_⟩
    rw [description_type "1" htype htp]
    exact trivial
  · intro _ _ _ tp _ _ _ text htext d hd _ hsize _
    cases hdpid.symm.trans htext
    have hcases : d = 1 ∨ d = 4294967297 := by simpa [twoJoined, datapathJoin, install] using hd
    rcases hcases with rfl | rfl
    · decide
    · exact absurd hsize (by decide)

/-- The request for the switch 2^32 + 1 is sent to the switch 1. -/
theorem high_id_other_outcome :
    Reached parseJson interactors twoJoined ∧
      ¬OneOutcome parseJson interactors twoJoined (descriptionRequest "4294967297") 0 := by
  refine ⟨reached_twoJoined, fun h => ?_⟩
  obtain ⟨-, hnamed⟩ := (oneOutcome_iff_reading reached_twoJoined.holds).mp h
  have has : ReadAs parseJson interactors twoJoined.dpids (descriptionRequest "4294967297") 0
      "4294967297" 1 "switch_description" (fixedRequest (.multipart .desc)) (.multipart .desc) :=
    { url := rfl
      data := by decide
      type := by decide +kernel
      lookup := rfl
      dpid := by decide +kernel
      id := by decide
      mem := by decide
      msg := rfl
      sendGood := rfl }
  exact absurd (hnamed _ _ _ _ _ has) (by decide)

end Requests

end RequestProcessor

end Nox.Interserver

import Nox.Lib.Runs
import Nox.Interserver.Processor

/-!
# The hand-over of HTTP requests

`http_handler::operator()` runs in the threads of the HTTP server, one call for each
request, beside `listen_state` and `response_handler`.  They share one record: the request,
the flag `_accept_post`, the response, and the mutex `_http_sync`, which is both a lock and
the signal that a response is there.  A step is one access to the record, so a run is any
interleaving of any number of handlers.

The record is written before the mutex is locked and cleared after it is unlocked, and
`response_handler` unlocks it whoever holds it, so requests get mixed up and responses end
the waits of others.  The hand-over is right (`correct_of_reached`) while one request is in
progress at a time, no wait runs out between `_accept_post` and the post of the request or
while `response_handler` is at work, and no response is delivered to a request whose wait
has run out.  `late_response` is a run in which one is.
-/

namespace Nox.Interserver

open Lib (Reaches runs)

section System

/-! ## The record and who uses it -/

/-- Where a call of `http_handler::operator()` is. -/
inductive Phase
  -- the URL has been written
  | wroteUrl
  | wroteData
  | locked
  -- `_accept_post` is set and `timed_lock` called
  | waiting
  | acquired
  -- with what the client will get
  | leaving (res : ReturnMsg)
  | unlocked (res : ReturnMsg)
  deriving DecidableEq

/-- A call of `http_handler::operator()` for one HTTP request. -/
structure HttpCall where
  id : Nat
  url : String
  data : String
  phase : Phase
  deriving DecidableEq

/-- Where `listen_state` is. -/
inductive Listener
  | idle
  -- `_accept_post` was set
  | found
  -- and has been reset
  | reset
  -- the URL has been copied
  | copied (url : String)
  deriving DecidableEq

/-- A posted `Http_request_event`, with the HTTP requests that were waiting then. -/
structure Posting where
  url : String
  data : String
  waiting : List HttpCall
  deriving DecidableEq

def Posting.ids (p : Posting) : List Nat := p.waiting.map (·.id)

/-- An `Http_response_event`, with the request event it was posted for. -/
structure Answer where
  posting : Posting
  msg : ReturnMsg
  deriving DecidableEq

/-- A wait that `timed_lock` ended before it ran out, and the response with which the mutex
was unlocked last, if it was `response_handler` that unlocked it. -/
structure Ended where
  id : Nat
  unlockedBy : Option Answer
  deriving DecidableEq

/-- `_rp_info`, its users, and the events between them and the request processor. -/
structure HandOver where
  received : Nat
  calls : List HttpCall
  url : String
  data : String
  acceptPost : Bool
  response : ReturnMsg
  httpSync : Bool
  -- whether the mutex was unlocked while nobody held it
  misused : Bool
  unlockedBy : Option Answer
  listener : Listener
  -- the response `response_handler` has written and not yet unlocked the mutex for
  responder : Option Answer
  posted : List Posting
  -- the request events that have no response yet, and the responses not yet delivered
  unanswered : List Posting
  inFlight : List Answer
  ended : List Ended
  timedOut : List Nat
  handed : List (Nat × ReturnMsg)

def HandOver.init : HandOver where
  received := 0
  calls := []
  url := ""
  data := ""
  acceptPost := false
  response := ⟨"", .ok⟩
  httpSync := false
  misused := false
  unlockedBy := none
  listener := .idle
  responder := none
  posted := []
  unanswered := []
  inFlight := []
  ended := []
  timedOut := []
  handed := []

end System

section Steps

/-! ## The steps -/

inductive HandOverStep
  -- an HTTP request arrives: a handler is called and writes the URL
  | receive (url data : String)
  -- the next step of this handler
  | handle (c : HttpCall)
  -- its `timed_lock` gives up
  | timeOut (c : HttpCall)
  -- the next step of `listen_state`
  | listen
  -- a response is posted for a request event
  | respond (p : Posting) (msg : ReturnMsg)
  -- `response_handler` gets it and writes it
  | deliver (a : Answer)
  -- and unlocks the mutex
  | release

/-- A handler has taken its step. -/
def HandOver.moved (s : HandOver) (c : HttpCall) (phase : Phase) : HandOver :=
  { s with calls := s.calls.map fun x => if x = c then { c with phase := phase } else x }

def HandOver.unlock (s : HandOver) (by_ : Option Answer) : HandOver :=
  { s with httpSync := false, misused := s.misused || !s.httpSync, unlockedBy := by_ }

def serviceUnavailable : ReturnMsg := ⟨"Datapathid not responses\n", .serviceUnavailable⟩

/-- `http_handler::operator()` from where it is. -/
def HandOver.handle (s : HandOver) (c : HttpCall) : Option HandOver :=
  if c ∈ s.calls then
    match c.phase with
    | .wroteUrl => some { s.moved c .wroteData with data := c.data }
    | .wroteData =>
      if s.httpSync then none else some { s.moved c .locked with httpSync := true }
    | .locked => some { s.moved c .waiting with acceptPost := true }
    | .waiting =>
      if s.httpSync then none
      else some { s.moved c .acquired with
        httpSync := true
        ended := s.ended ++ [⟨c.id, s.unlockedBy⟩] }
    | .acquired => some (s.moved c (.leaving s.response))
    | .leaving res => some ((s.moved c (.unlocked res)).unlock none)
    | .unlocked res =>
      some { s with
        calls := s.calls.erase c
        url := ""
        data := ""
        handed := s.handed ++ [(c.id, res)] }
  else none

/-- `timed_lock` fails only while the mutex is held. -/
def HandOver.timeOut (s : HandOver) (c : HttpCall) : Option HandOver :=
  if c ∈ s.calls ∧ c.phase = .waiting ∧ s.httpSync then
    some { s.moved c (.leaving serviceUnavailable) with timedOut := s.timedOut ++ [c.id] }
  else none

/-- `listen_state` from where it is. -/
def HandOver.listen (s : HandOver) : Option HandOver :=
  match s.listener with
  | .idle => if s.acceptPost then some { s with listener := .found } else none
  | .found => some { s with listener := .reset, acceptPost := false }
  | .reset => some { s with listener := .copied s.url }
  | .copied url =>
    let p : Posting := ⟨url, s.data, s.calls.filter (·.phase = .waiting)⟩
    some { s with
      listener := .idle
      posted := s.posted ++ [p]
      unanswered := s.unanswered ++ [p] }

/-- The request processor posts at most one response for each request event. -/
def HandOver.respond (s : HandOver) (p : Posting) (msg : ReturnMsg) : Option HandOver :=
  if p ∈ s.unanswered then
    some { s with unanswered := s.unanswered.erase p, inFlight := s.inFlight ++ [⟨p, msg⟩] }
  else none

def HandOver.deliver (s : HandOver) (a : Answer) : Option HandOver :=
  if a ∈ s.inFlight ∧ s.responder = none then
    some { s with inFlight := s.inFlight.erase a, response := a.msg, responder := some a }
  else none

def HandOver.release (s : HandOver) : Option HandOver :=
  match s.responder with
  | some a => some { s.unlock (some a) with responder := none }
  | none => none

def HandOver.step (s : HandOver) : HandOverStep → Option HandOver
  | .receive url data =>
    some { s with
      received := s.received + 1
      calls := s.calls ++ [⟨s.received + 1, url, data, .wroteUrl⟩]
      url := url }
  | .handle c => s.handle c
  | .timeOut c => s.timeOut c
  | .listen => s.listen
  | .respond p msg => s.respond p msg
  | .deliver a => s.deliver a
  | .release => s.release

end Steps

section Correct

/-! ## What the hand-over is to do -/

/-- The request that was posted is the one that was waiting. -/
def Posting.Exact (p : Posting) : Prop := ∃ c, p.waiting = [c] ∧ p.url = c.url ∧ p.data = c.data

/-- A wait was ended by the response to the request that waited. -/
def Ended.Own (e : Ended) : Prop := ∃ a, e.unlockedBy = some a ∧ a.posting.ids = [e.id]

structure HandOver.Correct (s : HandOver) : Prop where
  held : s.misused = false
  exact_ : ∀ p ∈ s.posted, p.Exact
  once : (s.posted.flatMap Posting.ids).Nodup
  own : ∀ e ∈ s.ended, e.Own

/-- The steps that keep the parties apart. -/
def HandOver.Apart (s : HandOver) : HandOverStep → Prop
  | .receive _ _ => s.calls = []
  | .timeOut _ => s.acceptPost = false ∧ s.listener = .idle ∧ s.responder = none
  | .deliver a => ∀ id ∈ a.posting.ids, id ∉ s.timedOut
  | _ => True

instance (s : HandOver) (l : HandOverStep) : Decidable (s.Apart l) :=
  match l with
  | .receive _ _ => inferInstanceAs (Decidable (s.calls = []))
  | .timeOut _ =>
    inferInstanceAs (Decidable (s.acceptPost = false ∧ s.listener = .idle ∧ s.responder = none))
  | .deliver a => inferInstanceAs (Decidable (∀ id ∈ a.posting.ids, id ∉ s.timedOut))
  | .handle _ => .isTrue trivial
  | .listen => .isTrue trivial
  | .respond _ _ => .isTrue trivial
  | .release => .isTrue trivial

end Correct

section Invariant

/-! ## Where a run is -/

/-- The record and where its users are. -/
structure Control where
  calls : List HttpCall
  url : String
  data : String
  acceptPost : Bool
  httpSync : Bool
  unlockedBy : Option Answer
  listener : Listener
  responder : Option Answer
  posted : List Nat

def HandOver.control (s : HandOver) : Control where
  calls := s.calls
  url := s.url
  data := s.data
  acceptPost := s.acceptPost
  httpSync := s.httpSync
  unlockedBy := s.unlockedBy
  listener := s.listener
  responder := s.responder
  posted := s.posted.flatMap Posting.ids

/-- The flags, and where `listen_state` and `response_handler` are. -/
structure Control.At (k : Control) (calls : List HttpCall) (httpSync acceptPost : Bool)
    (listener : Listener) (responder : Option Answer) : Prop where
  calls : k.calls = calls
  httpSync : k.httpSync = httpSync
  acceptPost : k.acceptPost = acceptPost
  listener : k.listener = listener
  responder : k.responder = responder

/-- The record has the request of a handler, which has not been posted. -/
structure Control.Holds (k : Control) (c : HttpCall) : Prop where
  url : k.url = c.url
  data : k.data = c.data
  new : c.id ∉ k.posted

/-- How far the one request in progress is, and the number of the one that may be answered. -/
inductive Stage (k : Control) : Option Nat → Prop
  | free : k.At [] false false .idle none → Stage k none
  | wroteUrl {c : HttpCall} : c.phase = .wroteUrl → k.url = c.url → c.id ∉ k.posted →
    k.At [c] false false .idle none → Stage k none
  | wroteData {c : HttpCall} : c.phase = .wroteData → k.Holds c →
    k.At [c] false false .idle none → Stage k none
  | locked {c : HttpCall} : c.phase = .locked → k.Holds c →
    k.At [c] true false .idle none → Stage k none
  | raised {c : HttpCall} {l : Listener} : c.phase = .waiting → k.Holds c →
    l = .idle ∨ l = .found → k.At [c] true true l none → Stage k none
  | taken {c : HttpCall} {l : Listener} : c.phase = .waiting → k.Holds c →
    l = .reset ∨ l = .copied c.url → k.At [c] true false l none → Stage k none
  | posted {c : HttpCall} : c.phase = .waiting →
    k.At [c] true false .idle none → Stage k (some c.id)
  | answering {c : HttpCall} {a : Answer} : c.phase = .waiting → a.posting.ids = [c.id] →
    k.At [c] true false .idle (some a) → Stage k none
  | answered {c : HttpCall} {a : Answer} : c.phase = .waiting → a.posting.ids = [c.id] →
    k.unlockedBy = some a → k.At [c] false false .idle none → Stage k none
  | leaving {c : HttpCall} : c.phase = .acquired ∨ (∃ res, c.phase = .leaving res) →
    k.At [c] true false .idle none → Stage k none
  | unlocked {c : HttpCall} {res : ReturnMsg} : c.phase = .unlocked res →
    k.At [c] false false .idle none → Stage k none

/-- What has happened so far. -/
structure Ledger where
  received : Nat
  calls : List Nat
  misused : Bool
  posted : List Posting
  unanswered : List Posting
  inFlight : List Answer
  ended : List Ended
  timedOut : List Nat

def HandOver.ledger (s : HandOver) : Ledger where
  received := s.received
  calls := s.calls.map (·.id)
  misused := s.misused
  posted := s.posted
  unanswered := s.unanswered
  inFlight := s.inFlight
  ended := s.ended
  timedOut := s.timedOut

/-- The requests whose event has no response yet, or one that has not been delivered. -/
def Ledger.awaited (l : Ledger) : List Nat :=
  l.unanswered.flatMap Posting.ids ++ l.inFlight.flatMap (·.posting.ids)

/-- What holds in all stages; `current` is the request that may be answered. -/
structure Ledger.Inv (l : Ledger) (current : Option Nat) : Prop where
  held : l.misused = false
  exact_ : ∀ p ∈ l.posted, p.Exact
  once : (l.posted.flatMap Posting.ids).Nodup
  own : ∀ e ∈ l.ended, e.Own
  posted_le : ∀ id ∈ l.posted.flatMap Posting.ids, id ≤ l.received
  calls_le : ∀ id ∈ l.calls, id ≤ l.received
  unanswered : ∀ p ∈ l.unanswered, p.Exact
  inFlight : ∀ a ∈ l.inFlight, a.posting.Exact
  nodup : l.awaited.Nodup
  awaited : ∀ id ∈ l.awaited, id ∈ l.timedOut ∨ current = some id
  asked : ∀ id ∈ l.awaited, id ∈ l.posted.flatMap Posting.ids

def HandOver.Good (s : HandOver) : Prop :=
  ∃ current, s.ledger.Inv current ∧ Stage s.control current

theorem HandOver.Good.correct {s : HandOver} (h : s.Good) : s.Correct := by
  obtain ⟨current, hinv, -⟩ := h
  exact ⟨hinv.held, hinv.exact_, hinv.once, hinv.own⟩

theorem good_init : HandOver.init.Good := by
  refine ⟨none, ⟨rfl, ?_, List.nodup_nil, ?_, ?_, ?_, ?_, ?_, List.nodup_nil, ?_, ?_⟩,
    .free ⟨rfl, rfl, rfl, rfl, rfl⟩⟩
  all_goals
    intro x hx
    cases hx

theorem moved_single {s : HandOver} {c : HttpCall} (h : s.calls = [c]) (phase : Phase) :
    (s.moved c phase).calls = [{ c with phase := phase }] := by
  simp [HandOver.moved, h]

/-- A step of a handler is no entry of the ledger. -/
theorem ledger_moved (s : HandOver) (c : HttpCall) (phase : Phase) :
    (s.moved c phase).ledger = s.ledger := by
  have hid : ∀ x : HttpCall, (if x = c then { c with phase := phase } else x).id = x.id := by
    intro x
    split
    · next heq => rw [heq]
    · rfl
  simp [HandOver.ledger, HandOver.moved, hid]

theorem Control.At.moved {s : HandOver} {c : HttpCall} {httpSync acceptPost : Bool}
    {l : Listener} {r : Option Answer} (h : s.control.At [c] httpSync acceptPost l r)
    (phase : Phase) :
    (s.moved c phase).control.At [{ c with phase := phase }] httpSync acceptPost l r :=
  { h with calls := moved_single h.calls phase }

theorem Control.At.only {s : HandOver} {c c' : HttpCall} {httpSync acceptPost : Bool}
    {l : Listener} {r : Option Answer} (h : s.control.At [c'] httpSync acceptPost l r)
    (hmem : c ∈ s.calls) : c = c' := by
  rw [show s.calls = [c'] from h.calls] at hmem
  exact List.mem_singleton.mp hmem

end Invariant

section Preservation

/-! ## Every step keeps it -/

variable {s s' : HandOver} {k : Control} {current : Option Nat}

theorem Stage.free_of_calls (h : Stage k current) (hfree : k.calls = []) :
    current = none ∧ k.At [] false false .idle none := by
  cases h with
  | free hat => exact ⟨rfl, hat⟩
  | _ =>
    rename_i hat
    cases hat.calls.symm.trans hfree

theorem good_receive {url data : String} (h : s.Good) (hfree : s.calls = [])
    (hstep : s.step (.receive url data) = some s') : s'.Good := by
  obtain ⟨current, hinv, hstage⟩ := h
  obtain ⟨rfl, hat⟩ := hstage.free_of_calls hfree
  cases hstep
  refine ⟨none, { hinv with posted_le := fun id hid => ?_, calls_le := fun id hid => ?_ }, ?_⟩
  · exact Nat.le_succ_of_le (hinv.posted_le id hid)
  · rw [HandOver.ledger, hfree] at hid
    exact Nat.le_of_eq (List.mem_singleton.mp hid)
  · refine .wroteUrl (c := ⟨s.received + 1, url, data, .wroteUrl⟩) rfl rfl (fun hmem => ?_)
      ⟨?_, hat.httpSync, hat.acceptPost, hat.listener, hat.responder⟩
    · exact absurd (hinv.posted_le _ hmem) (Nat.not_succ_le_self _)
    · rw [HandOver.control, hfree, List.nil_append]

/-- A handler that waits goes on when it has the mutex. -/
theorem free_of_handle {c : HttpCall} (hstep : s.handle c = some s')
    (hp : c.phase = .waiting) : s.httpSync = false := by
  unfold HandOver.handle at hstep
  rw [hp] at hstep
  cases hsync : s.httpSync with
  | false => rfl
  | true => simp [hsync] at hstep

/-- The handler in progress goes on. -/
theorem good_handle {c : HttpCall} (h : s.Good) (hstep : s.handle c = some s') : s'.Good := by
  obtain ⟨current, hinv, hstage⟩ := h
  have hfree := free_of_handle hstep
  unfold HandOver.handle at hstep
  split at hstep
  · next hmem =>
    have hmoved : ∀ phase, (s.moved c phase).ledger.Inv current := fun phase => by
      rwa [ledger_moved]
    cases hstage with
    | free hat =>
      rw [show s.calls = [] from hat.calls] at hmem
      cases hmem
    | wroteUrl hp hurl hnew hat =>
      obtain rfl := hat.only hmem
      rw [hp] at hstep
      cases hstep
      exact ⟨none, hmoved .wroteData, .wroteData (c := { c with phase := .wroteData }) rfl
        ⟨hurl, rfl, hnew⟩ { hat.moved .wroteData with }⟩
    | wroteData hp hholds hat =>
      obtain rfl := hat.only hmem
      have hsync : s.httpSync = false := hat.httpSync
      simp only [hp, hsync] at hstep
      cases hstep
      exact ⟨none, hmoved .locked, .locked (c := { c with phase := .locked }) rfl
        ⟨hholds.url, hholds.data, hholds.new⟩ { hat.moved .locked with httpSync := rfl }⟩
    | locked hp hholds hat =>
      obtain rfl := hat.only hmem
      rw [hp] at hstep
      cases hstep
      exact ⟨none, hmoved .waiting, .raised (c := { c with phase := .waiting }) rfl
        ⟨hholds.url, hholds.data, hholds.new⟩ (.inl rfl)
        { hat.moved .waiting with acceptPost := rfl }⟩
    | raised hp _ _ hat =>
      obtain rfl := hat.only hmem
      cases (hfree hp).symm.trans hat.httpSync
    | taken hp _ _ hat =>
      obtain rfl := hat.only hmem
      cases (hfree hp).symm.trans hat.httpSync
    | posted hp hat =>
      obtain rfl := hat.only hmem
      cases (hfree hp).symm.trans hat.httpSync
    | answering hp _ hat =>
      obtain rfl := hat.only hmem
      cases (hfree hp).symm.trans hat.httpSync
    | answered hp hids hby hat =>
      obtain rfl := hat.only hmem
      have hsync : s.httpSync = false := hat.httpSync
      simp only [hp, hsync] at hstep
      cases hstep
      refine ⟨none, { hmoved .acquired with own := ?_ },
        .leaving (c := { c with phase := .acquired }) (.inl rfl)
          { hat.moved .acquired with httpSync := rfl }⟩
      intro e he
      rcases List.mem_append.mp he with he | he
      · exact hinv.own e he
      · rw [List.mem_singleton.mp he]
        exact ⟨_, hby, hids⟩
    | leaving hp hat =>
      obtain rfl := hat.only hmem
      rcases hp with hp | ⟨res, hp⟩
      · rw [hp] at hstep
        cases hstep
        exact ⟨none, hmoved (.leaving s.response),
          .leaving (c := { c with phase := .leaving s.response }) (.inr ⟨_, rfl⟩)
            { hat.moved (.leaving s.response) with }⟩
      · rw [hp] at hstep
        cases hstep
        refine ⟨none, { hmoved (.unlocked res) with held := ?_ },
          .unlocked (c := { c with phase := .unlocked res }) rfl
            { hat.moved (.unlocked res) with httpSync := rfl }⟩
        have hsync : s.httpSync = true := hat.httpSync
        have hheld : s.misused = false := hinv.held
        simp [HandOver.ledger, HandOver.unlock, HandOver.moved, hsync, hheld]
    | unlocked hp hat =>
      obtain rfl := hat.only hmem
      have hcalls : s.calls = [c] := hat.calls
      rw [hp] at hstep
      cases hstep
      have hleft : s.calls.erase c = [] := by simp [hcalls]
      refine ⟨none, { hinv with calls_le := ?_ },
        .free { hat with calls := hleft }⟩
      rw [HandOver.ledger, hleft]
      intro id hid
      cases hid
  · cases hstep

/-- A wait runs out only when its request has been posted and nobody answers it. -/
theorem good_timeOut {c : HttpCall} (h : s.Good) (hapart : s.Apart (.timeOut c))
    (hstep : s.timeOut c = some s') : s'.Good := by
  obtain ⟨current, hinv, hstage⟩ := h
  obtain ⟨haccept, hlistener, hresponder⟩ := hapart
  unfold HandOver.timeOut at hstep
  split at hstep
  · next hc =>
    obtain ⟨hmem, hp, hsync⟩ := hc
    cases hstep
    have hmoved : (s.moved c (.leaving serviceUnavailable)).ledger.Inv current := by
      rwa [ledger_moved]
    cases hstage with
    | posted hp' hat =>
      obtain rfl := hat.only hmem
      refine ⟨none, { hmoved with awaited := fun id hid => .inl ?_ },
        .leaving (c := { c with phase := .leaving serviceUnavailable }) (.inr ⟨_, rfl⟩)
          { hat.moved (.leaving serviceUnavailable) with }⟩
      rcases hinv.awaited id hid with hout | hcur
      · exact List.mem_append_left _ hout
      · rw [Option.some.inj hcur]
        exact List.mem_append_right _ (List.mem_singleton_self id)
    | free hat => cases hat.httpSync.symm.trans hsync
    | wroteUrl _ _ _ hat => cases hat.httpSync.symm.trans hsync
    | wroteData _ _ hat => cases hat.httpSync.symm.trans hsync
    | answered _ _ _ hat => cases hat.httpSync.symm.trans hsync
    | unlocked _ hat => cases hat.httpSync.symm.trans hsync
    | raised _ _ _ hat => cases hat.acceptPost.symm.trans haccept
    | answering _ _ hat => cases hat.responder.symm.trans hresponder
    | taken _ _ hl hat =>
      have hidle := hat.listener.symm.trans hlistener
      rcases hl with rfl | rfl <;> cases hidle
    | locked hp' _ hat =>
      obtain rfl := hat.only hmem
      cases hp'.symm.trans hp
    | leaving hp' hat =>
      obtain rfl := hat.only hmem
      rcases hp' with hp' | ⟨res, hp'⟩ <;> cases hp'.symm.trans hp
  · cases hstep

theorem exact_ids {p : Posting} (h : p.Exact) : ∃ id, p.ids = [id] := by
  obtain ⟨c, hc, -⟩ := h
  exact ⟨c.id, by rw [Posting.ids, hc, List.map_singleton]⟩

section Awaited

variable {l : Ledger} {p : Posting} {a : Answer}

theorem awaited_post {id : Nat} (hp : p.ids = [id]) :
    (Ledger.awaited { l with posted := l.posted ++ [p], unanswered := l.unanswered ++ [p] }).Perm
      (id :: l.awaited) := by
  simp only [Ledger.awaited, List.flatMap_append, List.flatMap_singleton, hp, List.append_assoc]
  exact List.perm_middle

theorem awaited_respond (hp : p ∈ l.unanswered) (msg : ReturnMsg) :
    (Ledger.awaited { l with
      unanswered := l.unanswered.erase p
      inFlight := l.inFlight ++ [⟨p, msg⟩] }).Perm l.awaited := by
  have hu : (l.unanswered.flatMap Posting.ids).Perm
      (p.ids ++ (l.unanswered.erase p).flatMap Posting.ids) :=
    (List.perm_cons_erase hp).flatMap_right _
  simp only [Ledger.awaited, List.flatMap_append, List.flatMap_singleton]
  refine .trans ?_ (hu.append_right _).symm
  rw [← List.append_assoc]
  refine List.perm_append_comm.trans ?_
  rw [List.append_assoc]

theorem awaited_deliver (ha : a ∈ l.inFlight) :
    l.awaited.Perm (a.posting.ids ++
      Ledger.awaited { l with inFlight := l.inFlight.erase a }) := by
  have hf : (l.inFlight.flatMap (·.posting.ids)).Perm
      (a.posting.ids ++ (l.inFlight.erase a).flatMap (·.posting.ids)) :=
    (List.perm_cons_erase ha).flatMap_right _
  refine (hf.append_left _).trans ?_
  rw [← List.append_assoc]
  refine (List.perm_append_comm.append_right _).trans ?_
  rw [List.append_assoc]
  exact .refl _

/-- A request is posted that had not been. -/
theorem Ledger.Inv.post {id : Nat} (h : l.Inv none) (hexact : p.Exact) (hids : p.ids = [id])
    (hnew : id ∉ l.posted.flatMap Posting.ids) (hle : id ≤ l.received) :
    Ledger.Inv { l with posted := l.posted ++ [p], unanswered := l.unanswered ++ [p] }
      (some id) := by
  have hperm := awaited_post (l := l) hids
  have hposted : (l.posted ++ [p]).flatMap Posting.ids = l.posted.flatMap Posting.ids ++ [id] := by
    rw [List.flatMap_append, List.flatMap_singleton, hids]
  have happend : ∀ {ps : List Posting}, (∀ x ∈ ps, x.Exact) → ∀ x ∈ ps ++ [p], x.Exact := by
    intro ps hps x hx
    rcases List.mem_append.mp hx with hx | hx
    · exact hps x hx
    · exact List.mem_singleton.mp hx ▸ hexact
  refine { h with
    exact_ := happend h.exact_
    once := ?_
    posted_le := ?_
    unanswered := happend h.unanswered
    nodup := hperm.nodup_iff.mpr (List.nodup_cons.mpr ⟨fun hmem => hnew (h.asked id hmem), h.nodup⟩)
    awaited := ?_
    asked := ?_ }
  · rw [hposted]
    exact List.nodup_append.mpr ⟨h.once, List.pairwise_singleton _ id,
      fun x hx y hy heq => hnew (List.mem_singleton.mp hy ▸ heq ▸ hx)⟩
  · rw [hposted]
    intro x hx
    rcases List.mem_append.mp hx with hx | hx
    · exact h.posted_le x hx
    · rw [List.mem_singleton.mp hx]
      exact hle
  · intro x hx
    rcases List.mem_cons.mp (hperm.mem_iff.mp hx) with rfl | hx
    · exact .inr rfl
    · exact .inl ((h.awaited x hx).resolve_right fun hnone => nomatch hnone)
  · intro x hx
    rw [hposted]
    rcases List.mem_cons.mp (hperm.mem_iff.mp hx) with rfl | hx
    · exact List.mem_append_right _ (List.mem_singleton_self x)
    · exact List.mem_append_left _ (h.asked x hx)

/-- A response is posted for a request event. -/
theorem Ledger.Inv.respond (h : l.Inv current) (hp : p ∈ l.unanswered) (msg : ReturnMsg) :
    Ledger.Inv { l with
      unanswered := l.unanswered.erase p
      inFlight := l.inFlight ++ [⟨p, msg⟩] } current := by
  have hperm := awaited_respond hp msg
  refine { h with
    unanswered := fun x hx => h.unanswered x (List.mem_of_mem_erase hx)
    inFlight := fun x hx => ?_
    nodup := hperm.nodup_iff.mpr h.nodup
    awaited := fun x hx => h.awaited x (hperm.mem_iff.mp hx)
    asked := fun x hx => h.asked x (hperm.mem_iff.mp hx) }
  rcases List.mem_append.mp hx with hx | hx
  · exact h.inFlight x hx
  · rw [List.mem_singleton.mp hx]
    exact h.unanswered p hp

/-- A response is delivered: it was for the current request, and no other is for it. -/
theorem Ledger.Inv.deliver (h : l.Inv current) (ha : a ∈ l.inFlight)
    (hin : ∀ id ∈ a.posting.ids, id ∉ l.timedOut) :
    ∃ id, a.posting.ids = [id] ∧ current = some id ∧
      Ledger.Inv { l with inFlight := l.inFlight.erase a } none := by
  obtain ⟨id, hids⟩ := exact_ids (h.inFlight a ha)
  have hperm := awaited_deliver ha
  rw [hids] at hperm
  have hcur : current = some id := by
    have hmem : id ∈ l.awaited := hperm.mem_iff.mpr List.mem_cons_self
    exact (h.awaited id hmem).resolve_left (hin id (hids ▸ List.mem_singleton_self id))
  have hnodup := List.nodup_cons.mp (hperm.nodup_iff.mp h.nodup)
  have hsub : ∀ x, x ∈ Ledger.awaited { l with inFlight := l.inFlight.erase a } →
      x ∈ l.awaited := fun x hx => hperm.mem_iff.mpr (List.mem_cons_of_mem _ hx)
  refine ⟨id, hids, hcur, { h with
    inFlight := fun x hx => h.inFlight x (List.mem_of_mem_erase hx)
    nodup := hnodup.2
    awaited := fun x hx => .inl ?_
    asked := fun x hx => h.asked x (hsub x hx) }⟩
  refine (h.awaited x (hsub x hx)).resolve_right fun hx' => ?_
  rw [hcur] at hx'
  exact hnodup.1 (Option.some.inj hx' ▸ hx)

end Awaited

/-- `listen_state` posts the request of the handler that waits. -/
theorem good_listen (h : s.Good) (hstep : s.listen = some s') : s'.Good := by
  obtain ⟨current, hinv, hstage⟩ := h
  have hidle : s.listener = .idle → s.acceptPost = false → s.listen = none := by
    intro hl ha
    simp [HandOver.listen, hl, ha]
  cases hstage with
  | @raised c l hp hholds hl hat =>
    have hl' : s.listener = l := hat.listener
    have haccept : s.acceptPost = true := hat.acceptPost
    rcases hl with rfl | rfl
    · simp only [HandOver.listen, hl', haccept, if_true] at hstep
      cases hstep
      exact ⟨none, hinv, .raised hp ⟨hholds.url, hholds.data, hholds.new⟩ (.inr rfl)
        { hat with listener := rfl, acceptPost := rfl }⟩
    · simp only [HandOver.listen, hl'] at hstep
      cases hstep
      exact ⟨none, hinv, .taken hp ⟨hholds.url, hholds.data, hholds.new⟩ (.inl rfl)
        { hat with listener := rfl, acceptPost := rfl }⟩
  | @taken c l hp hholds hl hat =>
    have hl' : s.listener = l := hat.listener
    rcases hl with rfl | rfl
    · simp only [HandOver.listen, hl'] at hstep
      cases hstep
      exact ⟨none, hinv, .taken hp ⟨hholds.url, hholds.data, hholds.new⟩
        (.inr (congrArg _ hholds.url)) { hat with listener := rfl }⟩
    · simp only [HandOver.listen, hl'] at hstep
      cases hstep
      have hcalls : s.calls = [c] := hat.calls
      have hwaiting : s.calls.filter (fun x => decide (x.phase = .waiting)) = [c] := by
        simp [hcalls, hp]
      have hexact : Posting.Exact
          ⟨c.url, s.data, s.calls.filter fun x => decide (x.phase = .waiting)⟩ :=
        ⟨c, hwaiting, rfl, hholds.data⟩
      have hle : c.id ≤ s.received :=
        hinv.calls_le c.id (List.mem_map_of_mem (hcalls ▸ List.mem_singleton_self c))
      exact ⟨some c.id, hinv.post hexact (by rw [Posting.ids, hwaiting, List.map_singleton])
        hholds.new hle, .posted hp { hat with listener := rfl }⟩
  | free hat => cases (hidle hat.listener hat.acceptPost).symm.trans hstep
  | wroteUrl _ _ _ hat => cases (hidle hat.listener hat.acceptPost).symm.trans hstep
  | wroteData _ _ hat => cases (hidle hat.listener hat.acceptPost).symm.trans hstep
  | locked _ _ hat => cases (hidle hat.listener hat.acceptPost).symm.trans hstep
  | posted _ hat => cases (hidle hat.listener hat.acceptPost).symm.trans hstep
  | answering _ _ hat => cases (hidle hat.listener hat.acceptPost).symm.trans hstep
  | answered _ _ _ hat => cases (hidle hat.listener hat.acceptPost).symm.trans hstep
  | leaving _ hat => cases (hidle hat.listener hat.acceptPost).symm.trans hstep
  | unlocked _ hat => cases (hidle hat.listener hat.acceptPost).symm.trans hstep

theorem good_respond {p : Posting} {msg : ReturnMsg} (h : s.Good)
    (hstep : s.respond p msg = some s') : s'.Good := by
  obtain ⟨current, hinv, hstage⟩ := h
  unfold HandOver.respond at hstep
  split at hstep
  · next hp =>
    cases hstep
    exact ⟨current, hinv.respond hp msg, hstage⟩
  · cases hstep

theorem Stage.of_current (h : Stage k current) {id : Nat} (hcur : current = some id) :
    ∃ c : HttpCall, c.id = id ∧ c.phase = .waiting ∧ k.At [c] true false .idle none := by
  cases h with
  | posted hp hat => exact ⟨_, Option.some.inj hcur, hp, hat⟩
  | _ => cases hcur

/-- `response_handler` gets a response in time. -/
theorem good_deliver {a : Answer} (h : s.Good) (hapart : s.Apart (.deliver a))
    (hstep : s.deliver a = some s') : s'.Good := by
  obtain ⟨current, hinv, hstage⟩ := h
  unfold HandOver.deliver at hstep
  split at hstep
  · next ha =>
    cases hstep
    obtain ⟨id, hids, hcur, hinv'⟩ := hinv.deliver ha.1 hapart
    obtain ⟨c, rfl, hp, hat⟩ := hstage.of_current hcur
    exact ⟨none, hinv', .answering hp hids { hat with responder := rfl }⟩
  · cases hstep

theorem Stage.responder (h : Stage k current) {a : Answer} (ha : k.responder = some a) :
    current = none ∧ ∃ c : HttpCall, c.phase = .waiting ∧ a.posting.ids = [c.id] ∧
      k.At [c] true false .idle (some a) := by
  cases h with
  | answering hp hids hat =>
    obtain rfl := Option.some.inj (hat.responder.symm.trans ha)
    exact ⟨rfl, _, hp, hids, hat⟩
  | _ =>
    rename_i hat
    cases hat.responder.symm.trans ha

/-- `response_handler` unlocks the mutex, which is held. -/
theorem good_release (h : s.Good) (hstep : s.release = some s') : s'.Good := by
  obtain ⟨current, hinv, hstage⟩ := h
  unfold HandOver.release at hstep
  split at hstep
  · next a ha =>
    cases hstep
    obtain ⟨rfl, c, hp, hids, hat⟩ := hstage.responder ha
    have hsync : s.httpSync = true := hat.httpSync
    have hheld : s.misused = false := hinv.held
    refine ⟨none, { hinv with held := ?_ }, .answered hp hids rfl
      { hat with httpSync := rfl, responder := rfl }⟩
    simp [HandOver.ledger, HandOver.unlock, hsync, hheld]
  · cases hstep

theorem good_step {l : HandOverStep} (h : s.Good) (hapart : s.Apart l)
    (hstep : s.step l = some s') : s'.Good := by
  cases l with
  | receive url data => exact good_receive h hapart hstep
  | handle c => exact good_handle h hstep
  | timeOut c => exact good_timeOut h hapart hstep
  | listen => exact good_listen h hstep
  | respond p msg => exact good_respond h hstep
  | deliver a => exact good_deliver h hapart hstep
  | release => exact good_release h hstep

/-- While the parties are kept apart, the mutex is unlocked only when it is held, every posted
request is the one that waits and is posted once, and a wait is ended early only by the
response to its own request. -/
theorem correct_of_reached (h : Reaches HandOver.step HandOver.Apart HandOver.init s) :
    s.Correct :=
  (h.invariant good_init fun _ _ _ hgood hapart hstep =>
    good_step hgood hapart hstep : s.Good).correct

end Preservation

section Runs

/-! ## Two requests -/

/-- The handler of the request of this number. -/
def httpCall (id : Nat) (phase : Phase) : HttpCall :=
  ⟨id, "/switches/info", "request " ++ toString id, phase⟩

/-- Its request event, posted while it waits. -/
def posting (id : Nat) : Posting :=
  ⟨"/switches/info", "request " ++ toString id, [httpCall id .waiting]⟩

/-- The request arrives and is posted. -/
def requestSteps (id : Nat) : List HandOverStep :=
  [.receive "/switches/info" ("request " ++ toString id), .handle (httpCall id .wroteUrl),
    .handle (httpCall id .wroteData), .handle (httpCall id .locked), .listen, .listen, .listen,
    .listen]

/-- The handler gets this far and leaves. -/
def leaveSteps (id : Nat) (res : ReturnMsg) : List HandOverStep :=
  [.handle (httpCall id (.leaving res)), .handle (httpCall id (.unlocked res))]

/-- A response is posted for the request and ends the wait of a handler. -/
def responseSteps (id waiter : Nat) (msg : ReturnMsg) : List HandOverStep :=
  [.respond (posting id) msg, .deliver ⟨posting id, msg⟩, .release,
    .handle (httpCall waiter .waiting)]

/-- A request is answered in time. -/
theorem correct_answered :
    ∃ s, runs HandOver.step HandOver.Apart HandOver.init
        (requestSteps 1 ++ responseSteps 1 1 accepted ++
          .handle (httpCall 1 .acquired) :: leaveSteps 1 accepted) = some s ∧
      s.handed = [(1, accepted)] ∧ s.Correct := by
  have hrun : (runs HandOver.step HandOver.Apart HandOver.init
      (requestSteps 1 ++ responseSteps 1 1 accepted ++
        .handle (httpCall 1 .acquired) :: leaveSteps 1 accepted)).map (·.handed) =
      some [(1, accepted)] := by
    decide +kernel
  obtain ⟨s, hs, hhanded⟩ := Option.map_eq_some_iff.mp hrun
  exact ⟨s, hs, hhanded, correct_of_reached (Reaches.init.runs hs)⟩

/-- The wait of the first request runs out; its response ends the wait of the second. -/
def lateResponse : List HandOverStep :=
  requestSteps 1 ++ .timeOut (httpCall 1 .waiting) :: leaveSteps 1 serviceUnavailable ++
    requestSteps 2 ++ responseSteps 1 2 accepted

theorem late_response :
    ∃ s, runs HandOver.step (fun _ _ => True) HandOver.init lateResponse = some s ∧
      ¬s.Correct := by
  have hrun : (runs HandOver.step (fun _ _ => True) HandOver.init lateResponse).map (·.ended) =
      some [⟨2, some ⟨posting 1, accepted⟩⟩] := by
    decide +kernel
  obtain ⟨s, hs, hended⟩ := Option.map_eq_some_iff.mp hrun
  refine ⟨s, hs, fun hcorrect => ?_⟩
  obtain ⟨a, ha, hids⟩ := hcorrect.own _ (hended ▸ List.mem_cons_self)
  cases ha
  cases hids

end Runs

end Nox.Interserver

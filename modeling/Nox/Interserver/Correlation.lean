import Mathlib.Data.List.Perm.Subperm
import Nox.Interserver.Bridge

/-!
# Which answer a client gets

Nothing in the bridge ties a message of a switch to a request: every message is
sent with the xid 1, and the first response posted after a request was handled
is the answer of whoever waits when it is dispatched.  `late_reply` is a run in
which the second of two clients gets the answer of the other one's switch.

What the one flag `_reply_state` and the one lock do give is `handed_response`:
at most one response for each request handled, every response is handed to at
most one client, and a client whose predecessors did not time out gets the one
that was posted while its own request was the last one handled.
-/

namespace Nox.Interserver

variable {M : Type}

section Views

/-! ## Responses and pending requests -/

def queuedResponses (queue : List Event) : List Response :=
  queue.filterMap fun
    | .httpResponse r => some r
    | _ => none

def queuedRequests (queue : List Event) : List Nat :=
  queue.filterMap fun
    | .httpRequest r => some r.id
    | _ => none

/-- The responses clients were handed. -/
def Bridge.given (s : Bridge M) : List Response :=
  s.handed.filterMap fun h =>
    match h.outcome with
    | .response r => r
    | .timeout => none

/-- The response the waiting handler will find. -/
def Bridge.fresh (s : Bridge M) : List Response :=
  match s.handler, s.httpSync with
  | .waiting _, false => s.response.toList
  | _, _ => []

/-- All responses that were or will be handed to a client. -/
def Bridge.responses (s : Bridge M) : List Response :=
  s.given ++ s.fresh ++ queuedResponses s.queue

/-- The requests on their way to an answer: in `_rp_info`, in the queue, handled
and not answered, or answered with a response nobody has read. -/
def Bridge.pending (s : Bridge M) : List Nat :=
  (if s.acceptPost then [s.requestMsg.id] else []) ++ queuedRequests s.queue ++
    (if s.processor.replyState then [s.processor.slot] else []) ++
    (s.fresh ++ queuedResponses s.queue).map (·.slot)

/-- The number of handlers that wait. -/
def Bridge.waiters (s : Bridge M) : Nat :=
  match s.handler with
  | .waiting _ => 1
  | _ => 0

/-- No client has got the time-out response. -/
def Bridge.Prompt (s : Bridge M) : Prop := ∀ h ∈ s.handed, h.outcome ≠ .timeout

/-- The response was posted for the client's request or, after a time-out of an
earlier one, for an earlier request. -/
def Handed.Timely (handed : List Handed) (h : Handed) : Prop :=
  ∀ o, h.outcome = .response o → ∃ r, o = some r ∧ r.slot ≤ h.id ∧
    (r.slot = h.id ∨ ∃ h' ∈ handed, h'.id < h.id ∧ h'.outcome = .timeout)

/-- A response that a message of a switch gave rise to. -/
def Response.Arrived (sent : List (Sent M)) (r : Response) : Prop :=
  ∀ m, r.origin = .switch m → m.Arrives sent

end Views

section Invariant

/-! ## The invariant -/

structure Inv (s : Bridge M) : Prop where
  handler_id : ∀ id, s.handler = .entered id ∨ s.handler = .waiting id → id = s.received
  requestMsg_id : s.requestMsg.id = s.received
  response_some : s.waiters = 1 → s.httpSync = false → ∃ r, s.response = some r
  handed_le : ∀ h ∈ s.handed, h.id ≤ s.received
  handed_lt : s.handler ≠ .idle → ∀ h ∈ s.handed, h.id < s.received
  timely : ∀ h ∈ s.handed, h.Timely s.handed
  pending_le : ∀ i ∈ s.pending, i ≤ s.received
  prompt : s.Prompt → s.pending.length ≤ s.waiters ∧ ∀ i ∈ s.pending, i = s.received
  serial_nodup : (s.responses.map (·.serial)).Nodup
  serial_le : ∀ r ∈ s.responses, r.serial ≤ s.processor.serial
  serial_open : s.processor.replyState = true →
    ∀ r ∈ s.responses, r.serial ≠ s.processor.serial
  genuine : ∀ r ∈ s.responses, r.Genuine
  arrived : ∀ r ∈ s.responses, r.Arrived s.sent
  arrives : ∀ m, .interactReply m ∈ s.queue → m.Arrives s.sent

theorem inv_init : Inv (Bridge.init M) where
  handler_id := by rintro id (h | h) <;> cases h
  requestMsg_id := rfl
  response_some := by intro h; cases h
  handed_le := by intro h hm; cases hm
  handed_lt := by intro _ h hm; cases hm
  timely := by intro h hm; cases hm
  pending_le := by intro i hi; cases hi
  prompt := fun _ => ⟨Nat.le_refl _, fun i hi => by cases hi⟩
  serial_nodup := List.nodup_nil
  serial_le := by intro r hr; cases hr
  serial_open := by intro h; cases h
  genuine := by intro r hr; cases hr
  arrived := by intro r hr; cases hr
  arrives := by intro m hm; cases hm

/-- Events that are neither requests nor responses come and go. -/
theorem Inv.queue {s : Bridge M} (h : Inv s) {queue : List Event}
    (hreq : queuedRequests queue = queuedRequests s.queue)
    (hresp : queuedResponses queue = queuedResponses s.queue)
    (harr : ∀ m, .interactReply m ∈ queue → m.Arrives s.sent) :
    Inv { s with queue := queue } := by
  have hp : Bridge.pending { s with queue := queue } = s.pending := by
    simp only [Bridge.pending, Bridge.fresh, hreq, hresp]
  have hr : Bridge.responses { s with queue := queue } = s.responses := by
    simp only [Bridge.responses, Bridge.given, Bridge.fresh, hresp]
  exact { h with
    pending_le := by rw [hp]; exact h.pending_le
    prompt := by rw [hp]; exact h.prompt
    serial_nodup := by rw [hr]; exact h.serial_nodup
    serial_le := by rw [hr]; exact h.serial_le
    serial_open := by rw [hr]; exact h.serial_open
    genuine := by rw [hr]; exact h.genuine
    arrived := by rw [hr]; exact h.arrived
    arrives := harr }

theorem SwitchMsg.Arrives.mono {sent : List (Sent M)} {m : SwitchMsg} (h : m.Arrives sent)
    (more : List (Sent M)) : m.Arrives (sent ++ more) := by
  rcases h with h | ⟨x, hx, hans⟩
  · exact .inl h
  · exact .inr ⟨x, List.mem_append_left more hx, hans⟩

theorem Inv.sent {s : Bridge M} (h : Inv s) (more : List (Sent M)) :
    Inv { s with sent := s.sent ++ more } :=
  { h with
    arrived := fun r hr m hm => (h.arrived r hr m hm).mono more
    arrives := fun m hm => (h.arrives m hm).mono more }

/-- Pending requests may get fewer. -/
theorem Inv.of_subperm {s : Bridge M} (h : Inv s) {pending : List Nat}
    (hsub : pending.Subperm s.pending) :
    (∀ i ∈ pending, i ≤ s.received) ∧
      (s.Prompt → pending.length ≤ s.waiters ∧ ∀ i ∈ pending, i = s.received) := by
  refine ⟨fun i hi => h.pending_le i (hsub.subset hi), fun hprompt => ?_⟩
  obtain ⟨hle, heq⟩ := h.prompt hprompt
  exact ⟨Nat.le_trans hsub.length_le hle, fun i hi => heq i (hsub.subset hi)⟩

/-- A posted response closes the slot it is of. -/
theorem Inv.posts {s : Bridge M} (h : Inv s) {p : Processor} {e : Option Response}
    (hp : Posts s.processor p e) (hgen : ∀ r, e = some r → r.Genuine)
    (harr : ∀ r, e = some r → r.Arrived s.sent) :
    Inv { s with processor := p, queue := postEvents s.queue e } := by
  cases e with
  | none =>
    have hq : postEvents s.queue none = s.queue := by simp [postEvents]
    have hpend : Bridge.pending { s with processor := p, queue := s.queue } = s.pending := by
      simp only [Bridge.pending, Bridge.fresh, hp.slot, hp.silent rfl]
    rw [hq]
    exact { h with
      pending_le := by rw [hpend]; exact h.pending_le
      prompt := by rw [hpend]; exact h.prompt
      serial_le := by rw [hp.serial]; exact h.serial_le
      serial_open := by rw [hp.serial, hp.silent rfl]; exact h.serial_open }
  | some r =>
    obtain ⟨hopen, hclosed, hslot, hserial⟩ := hp.posted r rfl
    have hresp :
        queuedResponses (postEvents s.queue (some r)) = queuedResponses s.queue ++ [r] := by
      simp [postEvents, queuedResponses]
    have hreq : queuedRequests (postEvents s.queue (some r)) = queuedRequests s.queue := by
      simp [postEvents, queuedRequests]
    have hr : Bridge.responses { s with processor := p, queue := postEvents s.queue (some r) }
        = s.responses ++ [r] := by
      simp only [Bridge.responses, Bridge.given, Bridge.fresh, hresp, List.append_assoc]
    have hmem : ∀ {P : Response → Prop}, (∀ x ∈ s.responses, P x) → P r →
        ∀ x ∈ s.responses ++ [r], P x := by
      intro P hold hnew x hx
      rcases List.mem_append.mp hx with hx | hx
      · exact hold x hx
      · rw [List.mem_singleton.mp hx]
        exact hnew
    have hpend : (Bridge.pending
        { s with processor := p, queue := postEvents s.queue (some r) }).Perm s.pending := by
      simp only [Bridge.pending, Bridge.fresh, hresp, hreq, hopen, hclosed, if_true, List.map_append,
        List.map_singleton, hslot, Bool.false_eq_true, if_false, List.append_assoc, List.nil_append]
      refine (List.Perm.append_left _ (.append_left _ ?_))
      rw [← List.append_assoc]
      exact List.perm_append_comm
    obtain ⟨hple, hprompt⟩ := h.of_subperm hpend.subperm
    exact { h with
      pending_le := hple
      prompt := hprompt
      serial_nodup := by
        rw [hr, List.map_append]
        refine List.nodup_append.mpr ⟨h.serial_nodup, List.pairwise_singleton _ _, ?_⟩
        intro a ha b hb
        obtain ⟨x, hx, rfl⟩ := List.mem_map.mp ha
        rw [List.mem_singleton.mp hb]
        show x.serial ≠ r.serial
        rw [hserial]
        exact h.serial_open hopen x hx
      serial_le := by
        rw [hr, hp.serial]
        exact hmem h.serial_le (Nat.le_of_eq hserial)
      serial_open := by
        intro ht
        rw [hclosed] at ht
        cases ht
      genuine := by
        rw [hr]
        exact hmem h.genuine (hgen r rfl)
      arrived := by
        rw [hr]
        exact hmem h.arrived (harr r rfl)
      arrives := by
        intro m hm
        apply h.arrives m
        simpa [postEvents] using hm }

/-- A request leaves the queue and opens its slot. -/
theorem Inv.opened {s : Bridge M} (h : Inv s) {r : RequestMsg} {queue : List Event}
    (hq : s.queue = .httpRequest r :: queue) :
    Inv { s with queue := queue, processor := s.processor.opened r } := by
  have hresp : queuedResponses s.queue = queuedResponses queue := by
    rw [hq]
    rfl
  have hreq : queuedRequests s.queue = r.id :: queuedRequests queue := by
    rw [hq]
    rfl
  have hr : Bridge.responses { s with queue := queue, processor := s.processor.opened r }
      = s.responses := by
    simp only [Bridge.responses, Bridge.given, Bridge.fresh, hresp]
  have hpend : (Bridge.pending
      { s with queue := queue, processor := s.processor.opened r }).Subperm s.pending := by
    simp only [Bridge.pending, Bridge.fresh, hresp, hreq, Processor.opened, if_true,
      List.append_assoc, List.cons_append]
    refine (List.subperm_append_left _).mpr ?_
    refine List.Perm.subperm List.perm_middle |>.trans ?_
    refine (List.subperm_cons _).mpr ((List.subperm_append_left _).mpr ?_)
    exact (List.sublist_append_right _ _).subperm
  obtain ⟨hple, hprompt⟩ := h.of_subperm hpend
  exact { h with
    pending_le := hple
    prompt := hprompt
    serial_nodup := by rw [hr]; exact h.serial_nodup
    serial_le := by
      rw [hr]
      intro x hx
      exact Nat.le_succ_of_le (h.serial_le x hx)
    serial_open := by
      rw [hr]
      intro _ x hx
      have hle := h.serial_le x hx
      show x.serial ≠ s.processor.serial + 1
      omega
    genuine := by rw [hr]; exact h.genuine
    arrived := by rw [hr]; exact h.arrived
    arrives := fun m hm => h.arrives m (by rw [hq]; exact List.mem_cons_of_mem _ hm) }

end Invariant

section Steps

/-! ## Each step keeps it -/

theorem Inv.receive {s s' : Bridge M} {url data : String} (h : Inv s)
    (hs : s.receive url data = some s') : Inv s' := by
  unfold Bridge.receive at hs
  split at hs
  · next hidle =>
    cases hs
    have hw : s.waiters = 0 := by simp [Bridge.waiters, hidle]
    have hf : s.fresh = [] := by simp [Bridge.fresh, hidle]
    have hr : Bridge.responses { s with
        handler := .entered (s.received + 1), received := s.received + 1,
        requestMsg := ⟨url, data, s.received + 1⟩ } = s.responses := by
      simp only [Bridge.responses, hf]
      rfl
    have hpend : ∀ i ∈ Bridge.pending { s with
        handler := .entered (s.received + 1), received := s.received + 1,
        requestMsg := ⟨url, data, s.received + 1⟩ },
        (s.acceptPost = true ∧ i = s.received + 1) ∨ i ∈ s.pending := by
      intro i hi
      simp only [Bridge.pending, Bridge.fresh, hidle] at hi ⊢
      by_cases hacc : s.acceptPost = true
      · simp only [hacc, if_true, List.append_assoc, List.mem_append, List.mem_singleton,
          true_and] at hi ⊢
        exact hi.imp_right .inr
      · simp only [hacc] at hi ⊢
        exact .inr hi
    exact { h with
      handler_id := by
        rintro id (hid | hid)
        · exact (Handler.entered.inj hid).symm
        · cases hid
      requestMsg_id := rfl
      response_some := by
        intro hwait
        cases hwait
      handed_le := fun x hx => Nat.le_succ_of_le (h.handed_le x hx)
      handed_lt := fun _ x hx => Nat.lt_succ_of_le (h.handed_le x hx)
      pending_le := by
        intro i hi
        rcases hpend i hi with ⟨-, rfl⟩ | hi
        · exact Nat.le_refl _
        · exact Nat.le_succ_of_le (h.pending_le i hi)
      prompt := by
        intro hprompt
        have hnil : s.pending = [] :=
          List.length_eq_zero_iff.mp (Nat.le_zero.mp (hw ▸ (h.prompt hprompt).1))
        have hacc : s.acceptPost = false := by
          by_contra hacc
          simp [Bridge.pending, hacc] at hnil
        have hno : ∀ i ∈ Bridge.pending { s with
            handler := .entered (s.received + 1), received := s.received + 1,
            requestMsg := ⟨url, data, s.received + 1⟩ }, False := by
          intro i hi
          rcases hpend i hi with ⟨htrue, -⟩ | hi
          · rw [hacc] at htrue
            cases htrue
          · rw [hnil] at hi
            cases hi
        rw [List.eq_nil_iff_forall_not_mem.mpr hno]
        exact ⟨Nat.zero_le _, fun i hi => by cases hi⟩
      serial_nodup := by rw [hr]; exact h.serial_nodup
      serial_le := by rw [hr]; exact h.serial_le
      serial_open := by rw [hr]; exact h.serial_open
      genuine := by rw [hr]; exact h.genuine
      arrived := by rw [hr]; exact h.arrived }
  · cases hs

theorem Inv.lock {s s' : Bridge M} (h : Inv s) (hs : s.lock = some s') : Inv s' := by
  unfold Bridge.lock at hs
  split at hs
  · next id hent hfree =>
    cases hs
    have hf : s.fresh = [] := by simp [Bridge.fresh, hent]
    have hr : Bridge.responses { s with
        handler := .waiting id, httpSync := true, acceptPost := true } = s.responses := by
      simp only [Bridge.responses, hf]
      rfl
    have hpend : (Bridge.pending { s with
        handler := .waiting id, httpSync := true, acceptPost := true }).Subperm
        (s.requestMsg.id :: s.pending) := by
      simp only [Bridge.pending, Bridge.fresh, hent, if_true, List.append_assoc, List.cons_append,
        List.nil_append]
      refine (List.subperm_cons _).mpr ?_
      exact (List.sublist_append_right _ _).subperm
    have hid := h.requestMsg_id
    have hw : s.waiters = 0 := by simp [Bridge.waiters, hent]
    exact { h with
      handler_id := by
        rintro j (hj | hj)
        · cases hj
        · rw [← Handler.waiting.inj hj]
          exact h.handler_id id (.inl hent)
      response_some := by
        intro _ hfalse
        cases hfalse
      handed_lt := fun _ => h.handed_lt (by rw [hent]; exact fun hne => by cases hne)
      pending_le := by
        intro i hi
        rcases List.mem_cons.mp (hpend.subset hi) with rfl | hi
        · exact Nat.le_of_eq hid
        · exact h.pending_le i hi
      prompt := by
        intro hprompt
        obtain ⟨hle, heq⟩ := h.prompt hprompt
        refine ⟨?_, fun i hi => ?_⟩
        · have hlen := hpend.length_le
          rw [List.length_cons] at hlen
          show _ ≤ 1
          omega
        · rcases List.mem_cons.mp (hpend.subset hi) with rfl | hi
          · exact hid
          · exact heq i hi
      serial_nodup := by rw [hr]; exact h.serial_nodup
      serial_le := by rw [hr]; exact h.serial_le
      serial_open := by rw [hr]; exact h.serial_open
      genuine := by rw [hr]; exact h.genuine
      arrived := by rw [hr]; exact h.arrived }
  · cases hs

/-- What was timely stays so when more clients are answered. -/
theorem Handed.Timely.mono {handed : List Handed} {x : Handed} (h : x.Timely handed)
    (more : List Handed) : x.Timely (handed ++ more) := by
  intro o ho
  obtain ⟨r, hr, hle, hslot⟩ := h o ho
  refine ⟨r, hr, hle, hslot.imp_right ?_⟩
  rintro ⟨y, hy, hlt, hto⟩
  exact ⟨y, List.mem_append_left more hy, hlt, hto⟩

theorem finish_pending (s : Bridge M) (id : Nat) (o : Outcome) :
    (s.finish id o).pending =
      (if s.acceptPost then [s.requestMsg.id] else []) ++ queuedRequests s.queue ++
        (if s.processor.replyState then [s.processor.slot] else []) ++
        (queuedResponses s.queue).map (·.slot) :=
  rfl

/-- The client leaves with the time-out response, or with the fresh response. -/
theorem Inv.finish {s : Bridge M} (h : Inv s) {id : Nat} {o : Outcome}
    (hwait : s.handler = .waiting id)
    (hr : (s.finish id o).responses = s.responses)
    (htimely : (⟨id, o⟩ : Handed).Timely s.handed)
    (hprompt : (s.finish id o).Prompt → s.Prompt → (s.finish id o).pending.length ≤ 0) :
    Inv (s.finish id o) := by
  have hid : id = s.received := h.handler_id id (.inr hwait)
  have hpend : (s.finish id o).pending.Subperm s.pending := by
    rw [finish_pending, Bridge.pending, List.map_append]
    exact (List.subperm_append_left _).mpr (List.sublist_append_right _ _).subperm
  obtain ⟨hple, heq⟩ := h.of_subperm hpend
  have hmem : ∀ {P : Handed → Prop}, (∀ x ∈ s.handed, P x) → P ⟨id, o⟩ →
      ∀ x ∈ s.handed ++ [⟨id, o⟩], P x := by
    intro P hold hnew x hx
    rcases List.mem_append.mp hx with hx | hx
    · exact hold x hx
    · rw [List.mem_singleton.mp hx]
      exact hnew
  exact { h with
    handler_id := by
      rintro j (hj | hj) <;> cases hj
    requestMsg_id := h.requestMsg_id
    response_some := by
      intro hw
      cases hw
    handed_le := hmem h.handed_le (Nat.le_of_eq hid)
    handed_lt := fun hne => absurd rfl hne
    timely := hmem (fun x hx => (h.timely x hx).mono _) (htimely.mono _)
    pending_le := hple
    prompt := by
      intro hp
      have hold : s.Prompt := fun x hx => hp x (List.mem_append_left _ hx)
      exact ⟨hprompt hp hold, (heq hold).2⟩
    serial_nodup := by rw [hr]; exact h.serial_nodup
    serial_le := by rw [hr]; exact h.serial_le
    serial_open := by rw [hr]; exact h.serial_open
    genuine := by rw [hr]; exact h.genuine
    arrived := by rw [hr]; exact h.arrived }

theorem Inv.timeout {s s' : Bridge M} (h : Inv s) (hs : s.timeout = some s') : Inv s' := by
  unfold Bridge.timeout at hs
  split at hs
  · next id hwait hlocked =>
    cases hs
    apply h.finish hwait
    · simp [Bridge.responses, Bridge.given, Bridge.fresh, Bridge.finish, hwait, hlocked]
    · intro o ho
      cases ho
    · intro hp
      exact absurd rfl (hp ⟨id, .timeout⟩ (List.mem_append_right _ List.mem_cons_self))
  · cases hs

theorem Inv.wake {s s' : Bridge M} (h : Inv s) (hs : s.wake = some s') : Inv s' := by
  unfold Bridge.wake at hs
  split at hs
  · next id hwait hfree =>
    cases hs
    have hw : s.waiters = 1 := by simp [Bridge.waiters, hwait]
    obtain ⟨r, hresp⟩ := h.response_some hw hfree
    have hf : s.fresh = [r] := by simp [Bridge.fresh, hwait, hfree, hresp]
    have hmem : r.slot ∈ s.pending := by simp [Bridge.pending, hf]
    have hid : id = s.received := h.handler_id id (.inr hwait)
    apply h.finish hwait
    · simp only [Bridge.responses, hf]
      simp [Bridge.given, Bridge.fresh, Bridge.finish, hresp]
    · intro o ho
      refine ⟨r, (Outcome.response.inj ho).symm.trans hresp, ?_, ?_⟩
      · exact hid ▸ h.pending_le _ hmem
      · by_cases hprompt : s.Prompt
        · exact .inl (((h.prompt hprompt).2 _ hmem).trans hid.symm)
        · right
          unfold Bridge.Prompt at hprompt
          push Not at hprompt
          obtain ⟨x, hx, hto⟩ := hprompt
          refine ⟨x, hx, ?_, hto⟩
          have hlt := h.handed_lt (by rw [hwait]; exact fun hne => by cases hne) x hx
          exact hid ▸ hlt
    · intro _ hold
      have hlen := (h.prompt hold).1
      rw [hw] at hlen
      rw [finish_pending]
      simp only [Bridge.pending, hf, List.length_append, List.length_map, List.length_singleton]
        at hlen ⊢
      omega
  · cases hs

theorem Inv.listen {s s' : Bridge M} (h : Inv s) (hs : s.listen = some s') : Inv s' := by
  unfold Bridge.listen at hs
  split at hs
  · next hacc =>
    cases hs
    have hresp : queuedResponses (s.queue ++ [.httpRequest s.requestMsg])
        = queuedResponses s.queue := by
      simp [queuedResponses]
    have hreq : queuedRequests (s.queue ++ [.httpRequest s.requestMsg])
        = queuedRequests s.queue ++ [s.requestMsg.id] := by
      simp [queuedRequests]
    have hr : Bridge.responses { s with
        acceptPost := false, queue := s.queue ++ [.httpRequest s.requestMsg] } = s.responses := by
      simp only [Bridge.responses, Bridge.given, Bridge.fresh, hresp]
    have hpend : (Bridge.pending { s with
        acceptPost := false, queue := s.queue ++ [.httpRequest s.requestMsg] }).Perm s.pending := by
      simp only [Bridge.pending, Bridge.fresh, hresp, hreq, hacc, if_true, Bool.false_eq_true,
        if_false, List.append_assoc, List.nil_append, List.cons_append]
      exact List.perm_middle
    obtain ⟨hple, hprompt⟩ := h.of_subperm hpend.subperm
    exact { h with
      pending_le := hple
      prompt := hprompt
      serial_nodup := by rw [hr]; exact h.serial_nodup
      serial_le := by rw [hr]; exact h.serial_le
      serial_open := by rw [hr]; exact h.serial_open
      genuine := by rw [hr]; exact h.genuine
      arrived := by rw [hr]; exact h.arrived
      arrives := by
        intro m hm
        apply h.arrives m
        simpa using hm }
  · cases hs

/-- `response_handler`: the response leaves the queue; whoever waits will read it,
and no longer the one before. -/
theorem Inv.responseHandler {s : Bridge M} (h : Inv s) {r : Response} {queue : List Event}
    (hq : s.queue = .httpResponse r :: queue) :
    Inv { s with queue := queue, response := some r, httpSync := false } := by
  have hresp : queuedResponses s.queue = r :: queuedResponses queue := by
    rw [hq]
    rfl
  have hreq : queuedRequests s.queue = queuedRequests queue := by
    rw [hq]
    rfl
  have hfresh : (Bridge.fresh
      { s with queue := queue, response := some r, httpSync := false }).Sublist [r] := by
    unfold Bridge.fresh
    split
    · exact List.Sublist.refl _
    · exact List.nil_sublist _
  have hkept : (Bridge.fresh { s with queue := queue, response := some r, httpSync := false }
      ++ queuedResponses queue).Sublist (s.fresh ++ queuedResponses s.queue) := by
    rw [hresp]
    exact (hfresh.append (List.Sublist.refl _)).trans (List.sublist_append_right s.fresh _)
  have hr : (Bridge.responses
      { s with queue := queue, response := some r, httpSync := false }).Sublist s.responses := by
    simp only [Bridge.responses, List.append_assoc]
    exact (List.Sublist.refl _).append hkept
  have hpend : (Bridge.pending
      { s with queue := queue, response := some r, httpSync := false }).Sublist s.pending := by
    simp only [Bridge.pending, hreq]
    exact (List.Sublist.refl _).append (hkept.map _)
  obtain ⟨hple, hprompt⟩ := h.of_subperm hpend.subperm
  exact { h with
    response_some := fun _ _ => ⟨r, rfl⟩
    pending_le := hple
    prompt := hprompt
    serial_nodup := (hr.map _).nodup h.serial_nodup
    serial_le := fun x hx => h.serial_le x (hr.subset hx)
    serial_open := fun hopen x hx => h.serial_open hopen x (hr.subset hx)
    genuine := fun x hx => h.genuine x (hr.subset hx)
    arrived := fun x hx => h.arrived x (hr.subset hx)
    arrives := fun m hm => h.arrives m (by rw [hq]; exact List.mem_cons_of_mem _ hm) }

theorem Inv.dispatch {reslv : Resolver M} {parse : String → JsonObject} {s s' : Bridge M}
    {sendGood : Int} (h : Inv s) (hs : s.dispatch reslv parse sendGood = some s') : Inv s' := by
  unfold Bridge.dispatch at hs
  split at hs
  · cases hs
  · next ev queue hq =>
    have harr : ∀ m, .interactReply m ∈ queue → m.Arrives s.sent :=
      fun m hm => h.arrives m (by rw [hq]; exact List.mem_cons_of_mem _ hm)
    cases ev with
    | httpRequest r =>
      simp only [Bridge.handle] at hs
      split at hs
      · cases hs
      · next p e sent hreq =>
        cases hs
        obtain ⟨hposts, hgen⟩ := handleRequest_posts hreq
        refine ((h.opened hq).posts hposts (fun x hx => (hgen x hx).1) ?_).sent sent.toList
        intro x hx m hm
        rw [(hgen x hx).2] at hm
        cases hm
    | interactReply m =>
      have htail : Inv { s with queue := queue } :=
        h.queue (by rw [hq]; rfl) (by rw [hq]; rfl) harr
      cases hs
      refine htail.posts (handleReply_posts s.processor m) (fun r => handleReply_genuine) ?_
      intro r hr m' hm'
      rw [postResponse_eq_some hr] at hm'
      cases hm'
      exact h.arrives m (by rw [hq]; exact List.mem_cons_self)
    | httpResponse r =>
      cases hs
      exact h.responseHandler hq
    | datapathJoin d =>
      have htail : Inv { s with queue := queue } :=
        h.queue (by rw [hq]; rfl) (by rw [hq]; rfl) harr
      cases hs
      exact { htail with }
    | datapathLeave d =>
      have htail : Inv { s with queue := queue } :=
        h.queue (by rw [hq]; rfl) (by rw [hq]; rfl) harr
      simp only [Bridge.handle, Processor.datapathLeave] at hs
      by_cases hd : d ∈ s.processor.dpids
      · simp only [hd, if_true] at hs
        cases hs
        exact { htail with }
      · simp [hd] at hs

theorem Inv.sleep {s s' : Bridge M} (h : Inv s) (hs : s.sleep = some s') : Inv s' := by
  unfold Bridge.sleep at hs
  split at hs
  · cases hs
    exact { h with }
  · cases hs

theorem Inv.fire {s s' : Bridge M} (h : Inv s) (hs : s.fire = some s') : Inv s' := by
  unfold Bridge.fire at hs
  split at hs
  · cases hs
    have hposts := h.posts (autoReply_posts s.processor) (fun r hr => (autoReply_genuine hr).1)
      (fun r hr m hm => by rw [(autoReply_genuine hr).2] at hm; cases hm)
    exact { hposts with }
  · cases hs

theorem Inv.switchSends {s s' : Bridge M} {m : SwitchMsg} (h : Inv s)
    (hs : s.switchSends m = some s') : Inv s' := by
  unfold Bridge.switchSends at hs
  split at hs
  · next harr =>
    cases hs
    apply h.queue
    · simp [queuedRequests]
    · simp [queuedResponses]
    · intro m' hm'
      rcases List.mem_append.mp hm' with hm' | hm'
      · exact h.arrives m' hm'
      · cases List.mem_singleton.mp hm'
        exact harr
  · cases hs

theorem Inv.step {reslv : Resolver M} {parse : String → JsonObject} {s s' : Bridge M} {l : Label}
    (h : Inv s) (hs : s.step reslv parse l = some s') : Inv s' := by
  cases l with
  | receive url data => exact h.receive hs
  | lock => exact h.lock hs
  | timeout => exact h.timeout hs
  | wake => exact h.wake hs
  | listen => exact h.listen hs
  | dispatch sendGood => exact h.dispatch hs
  | sleep => exact h.sleep hs
  | fire => exact h.fire hs
  | switchSends m => exact h.switchSends hs
  | join d =>
    cases hs
    exact h.queue (by simp [queuedRequests]) (by simp [queuedResponses])
      (fun m hm => h.arrives m (by simpa using hm))
  | leave d =>
    cases hs
    exact h.queue (by simp [queuedRequests]) (by simp [queuedResponses])
      (fun m hm => h.arrives m (by simpa using hm))

theorem Inv.run {reslv : Resolver M} {parse : String → JsonObject} {ls : List Label}
    {s s' : Bridge M} (h : Inv s) (hs : s.run reslv parse ls = some s') : Inv s' := by
  induction ls generalizing s with
  | nil =>
    cases hs
    exact h
  | cons l ls ih =>
    unfold Bridge.run at hs
    rw [List.foldlM_cons] at hs
    obtain ⟨s₁, hstep, hrest⟩ := Option.bind_eq_some_iff.mp hs
    exact ih (h.step hstep) hrest

end Steps

section Clients

/-! ## What the clients get -/

/-- In every run, a client gets the time-out response or a response that says
what its origin may say.  It was posted after the client's own request was
handled and before another one was, unless the wait of an earlier client ran out;
then that request may be an earlier one.  No response is handed out twice, and
none are two for the handling of one request. -/
theorem handed_response {reslv : Resolver M} {parse : String → JsonObject} {ls : List Label}
    {s : Bridge M} (hs : (Bridge.init M).run reslv parse ls = some s) :
    (∀ h ∈ s.handed, h.outcome = .timeout ∨
      ∃ r, h.outcome = .response (some r) ∧ r.Genuine ∧ r.Arrived s.sent ∧ r.slot ≤ h.id ∧
        (r.slot = h.id ∨ ∃ h' ∈ s.handed, h'.id < h.id ∧ h'.outcome = .timeout)) ∧
      (s.given.map (·.serial)).Nodup := by
  have hinv := inv_init.run hs
  refine ⟨fun h hm => ?_, ?_⟩
  · cases ho : h.outcome with
    | timeout => exact .inl rfl
    | response o =>
      right
      obtain ⟨r, rfl, hle, hslot⟩ := hinv.timely h hm o ho
      have hgiven : r ∈ s.given := by
        refine List.mem_filterMap.mpr ⟨h, hm, ?_⟩
        simp only [ho]
      have hresp : r ∈ s.responses :=
        List.mem_append_left _ (List.mem_append_left _ hgiven)
      exact ⟨r, rfl, hinv.genuine r hresp, hinv.arrived r hresp, hle, hslot⟩
  · have hnodup := hinv.serial_nodup
    rw [Bridge.responses, List.append_assoc, List.map_append] at hnodup
    exact (List.nodup_append.mp hnodup).1

/-- A builder for one type of message, and requests that only give a datapath. -/
def descResolver : Resolver Unit := [("desc", ⟨false, fun _ => .ok ()⟩)]

def dpidRequest (data : String) : JsonObject :=
  .dict [("type", .string "desc"), ("dpid", .string data)]

/-- A request for a path that is not served is answered. -/
theorem wrong_path_response :
    ∃ s : Bridge Unit,
      (Bridge.init Unit).run descResolver dpidRequest
        [.receive "/" "", .lock, .listen, .dispatch 0, .dispatch 0, .wake] = some s ∧
      (s.given.map (·.serial)).Nodup := by
  have hrun : ((Bridge.init Unit).run descResolver dpidRequest
      [.receive "/" "", .lock, .listen, .dispatch 0, .dispatch 0, .wake]).isSome := by
    decide +kernel
  obtain ⟨s, hs⟩ := Option.isSome_iff_exists.mp hrun
  exact ⟨s, hs, (handed_response hs).2⟩

/-- The switch of the first client answers when the first client has gone and the
second one waits. -/
def lateReply : List Label :=
  [.join 1, .dispatch 0, .join 2, .dispatch 0,
    .receive "/switches/info" "1", .lock, .listen, .dispatch 0, .timeout,
    .receive "/switches/info" "2", .lock, .listen, .dispatch 0,
    .switchSends ⟨1, 1, "late\n", some 1⟩, .dispatch 0, .dispatch 0, .wake]

theorem lateReply_handed :
    ((Bridge.init Unit).run descResolver dpidRequest lateReply).map (·.handed) =
      some [⟨1, .timeout⟩, ⟨2, .response (some
        ⟨⟨"late\n", .ok⟩, .switch ⟨1, 1, "late\n", some 1⟩, 2, 2⟩)⟩] := by
  decide +kernel

/-- The second client gets what the switch of the first one answered. -/
theorem late_reply :
    ∃ s : Bridge Unit, (Bridge.init Unit).run descResolver dpidRequest lateReply = some s ∧
      ¬ s.Correlated := by
  obtain ⟨s, hs, hhanded⟩ := Option.map_eq_some_iff.mp lateReply_handed
  refine ⟨s, hs, fun hcorr => ?_⟩
  rcases hcorr _ (by rw [hhanded]; exact List.mem_cons_of_mem _ List.mem_cons_self) with
    hto | ⟨r, hr, hans⟩
  · cases hto
  · cases hr
    obtain ⟨x, -, hx, hx', -⟩ := hans
    cases hx'.trans (congrArg some hx)

end Clients

end Nox.Interserver

import Nox.Switch.Controller

/-!
# The order of a switch's events

A handler should get the events of a datapath id in episodes: a join event, messages of the
connection that joined, and a leave event.  The events are posted in that order, but the
join event waits in the queue while the connection is polled already, and a dispatch that
blocks in another handler is overtaken by later ones (`early_message`).  When neither
happens the handler gets episodes (`episodes_of_reached`).
-/

namespace Nox.Switch

open Lib (Reaches runs)

section Guarantee

/-! ## Episodes -/

/-- The event comes in an episode: the state is the connection that has joined and not left. -/
def SwitchEvent.next (conn : Option Nat) : SwitchEvent → Option (Option Nat)
  | .join _ a => if conn = none then some (some a) else none
  | .message _ a => if conn = some a then some conn else none
  | .leave _ => if conn.isSome then some none else none

def ofDpid (d : UInt64) (l : List SwitchEvent) : List SwitchEvent := l.filter (·.dpid = d)

/-- The connection that is in an episode of a datapath id after these events, if they come in
episodes. -/
def episode (d : UInt64) (l : List SwitchEvent) : Option (Option Nat) :=
  (ofDpid d l).foldlM SwitchEvent.next none

/-- The handler got episodes of every datapath id, the last of which may be open. -/
def Controller.InEpisodes (s : Controller) : Prop := ∀ d, (episode d s.delivered).isSome

/-- An event is dispatched when no dispatch for its datapath id is in progress, and a message
when no join or leave event for its datapath id waits either; join and leave events are not
stopped. -/
def Controller.Orderly (messages : Bool) (s : Controller) : ControllerStep → Prop
  | .dispatch => ∀ e ∈ s.queue.head?, ∀ x ∈ s.running, x.dpid ≠ e.dpid
  | .poll a .message => messages = true → ∀ c, s.conns.conns a = some c →
    ∀ x ∈ s.queue ++ s.running, x.isMessage = true ∨ x.dpid ≠ c.datapathId
  | .stop e => e.isMessage = true
  | _ => True

end Guarantee

section Filters

/-! ## The events of one datapath id -/

variable {d : UInt64} {e : SwitchEvent} {l : List SwitchEvent}

theorem ofDpid_append (d : UInt64) (l l' : List SwitchEvent) :
    ofDpid d (l ++ l') = ofDpid d l ++ ofDpid d l' :=
  List.filter_append ..

theorem ofDpid_same (h : e.dpid = d) : ofDpid d [e] = [e] := by
  simp [ofDpid, h]

theorem ofDpid_other (h : e.dpid ≠ d) : ofDpid d [e] = [] := by
  simp [ofDpid, h]

theorem mem_ofDpid : e ∈ ofDpid d l ↔ e ∈ l ∧ e.dpid = d := by
  simp [ofDpid]

theorem ofDpid_erase (d : UInt64) (l : List SwitchEvent) (e : SwitchEvent) :
    ofDpid d (l.erase e) = (ofDpid d l).erase e :=
  List.erase_filter.symm

theorem ofDpid_erase_other (h : e.dpid ≠ d) : ofDpid d (l.erase e) = ofDpid d l := by
  rw [ofDpid_erase, List.erase_of_not_mem fun hmem => h (mem_ofDpid.mp hmem).2]

/-- One more event. -/
theorem episode_concat (d : UInt64) (l : List SwitchEvent) (e : SwitchEvent) :
    episode d (l ++ [e]) =
      if e.dpid = d then (episode d l).bind fun st => e.next st else episode d l := by
  rw [episode, ofDpid_append]
  split
  · next heq =>
    rw [ofDpid_same heq, List.foldlM_append]
    simp [episode]
  · next hne => rw [ofDpid_other hne, List.append_nil, episode]

end Filters

section Invariant

/-! ## The invariant -/

/-- What the handler got for a datapath id, what it will get, and who is in the map. -/
inductive Ordered (s : Controller) (d : UInt64) : Prop
  -- messages are on their way
  | calm {st : Option Nat} : episode d s.delivered = some st →
    (∀ e ∈ ofDpid d s.running, ∃ a, e = .message d a ∧ st = some a) →
    (ofDpid d s.queue).foldlM SwitchEvent.next st = some (s.conns.find d) → Ordered s d
  -- a join or leave event is
  | busy {st : Option Nat} {e : SwitchEvent} : episode d s.delivered = some st →
    ofDpid d s.running = [e] → e.isMessage = false →
    (e :: ofDpid d s.queue).foldlM SwitchEvent.next st = some (s.conns.find d) → Ordered s d

structure Controller.Inv (s : Controller) : Prop where
  tidy : Tidy s.conns none none
  queue : ∀ e ∈ s.queue, e.isMessage = false
  ordered : ∀ d, Ordered s d

theorem Controller.Inv.inEpisodes {s : Controller} (h : s.Inv) : s.InEpisodes := by
  intro d
  cases h.ordered d with
  | calm hst _ _ => exact Option.isSome_of_eq_some hst
  | busy hst _ _ _ => exact Option.isSome_of_eq_some hst

theorem inv_controller_init : Controller.init.Inv where
  tidy := tidy_init
  queue := fun _ he => absurd he List.not_mem_nil
  ordered := fun _ => .calm rfl (fun _ he => absurd he List.not_mem_nil) rfl

/-- Nothing happens for a datapath id. -/
theorem Ordered.frame {s s' : Controller} {d : UInt64} (h : Ordered s d)
    (hdelivered : ofDpid d s'.delivered = ofDpid d s.delivered)
    (hrunning : ofDpid d s'.running = ofDpid d s.running)
    (hqueue : ofDpid d s'.queue = ofDpid d s.queue)
    (hfind : s'.conns.find d = s.conns.find d) : Ordered s' d := by
  have hepisode : episode d s'.delivered = episode d s.delivered := by
    rw [episode, hdelivered]
    rfl
  cases h with
  | calm hst hmessages hfold =>
    refine .calm (hepisode.trans hst) ?_ ?_
    · rwa [hrunning]
    · rwa [hqueue, hfind]
  | busy hst hone hcontrol hfold =>
    refine .busy (hepisode.trans hst) (hrunning.trans hone) hcontrol ?_
    rwa [hqueue, hfind]

/-- Events are posted for a datapath id. -/
theorem Ordered.post {s s' : Controller} {d : UInt64} {more : List SwitchEvent}
    (h : Ordered s d) (hdelivered : s'.delivered = s.delivered)
    (hrunning : s'.running = s.running) (hqueue : s'.queue = s.queue ++ more)
    (hfold : (ofDpid d more).foldlM SwitchEvent.next (s.conns.find d) =
      some (s'.conns.find d)) : Ordered s' d := by
  cases h with
  | calm hst hmessages hold =>
    refine .calm (hdelivered ▸ hst) (hrunning ▸ hmessages) ?_
    rw [hqueue, ofDpid_append, List.foldlM_append, hold]
    exact hfold
  | busy hst hone hcontrol hold =>
    refine .busy (hdelivered ▸ hst) (hrunning ▸ hone) hcontrol ?_
    rw [hqueue, ofDpid_append, ← List.cons_append, List.foldlM_append, hold]
    exact hfold

end Invariant

section Preservation

/-! ## Every step keeps it -/

variable {s s' : Controller}

theorem Controller.Inv.operate (h : s.Inv) {op : Op} (hop : ∀ d, op ≠ .registerConn d)
    (hs : s.operate op = some s') : s'.Inv := by
  obtain ⟨conns, hstep, rfl⟩ := Option.map_eq_some_iff.mp hs
  refine ⟨h.tidy.step hstep, fun e he => ?_, fun d => ?_⟩
  · rcases List.mem_append.mp he with he | he
    · exact h.queue e he
    · obtain ⟨d, -, rfl⟩ := List.mem_map.mp he
      rfl
  · refine (h.ordered d).post rfl rfl rfl ?_
    cases effect_step h.tidy hop hstep with
    | none hleft hfind =>
      rw [hleft, List.drop_length, hfind]
      rfl
    | @leave d' hd hleft hfind =>
      rw [hleft, List.drop_left, List.map_singleton, hfind]
      by_cases heq : d' = d
      · subst heq
        rw [ofDpid_same (d := d') (e := .leave d') rfl, if_pos rfl]
        simp [SwitchEvent.next, hd]
      · rw [ofDpid_other (d := d) (e := .leave d') heq, if_neg (Ne.symm heq)]
        rfl

theorem Controller.Inv.registerSwitch (h : s.Inv) {d : UInt64}
    (hs : s.registerSwitch d = some s') : s'.Inv := by
  obtain ⟨s₁, hs₁, rfl⟩ := Option.map_eq_some_iff.mp hs
  obtain ⟨conns, hstep, rfl⟩ := Option.map_eq_some_iff.mp hs₁
  obtain ⟨hleft, hfind⟩ := effect_registerConn h.tidy hstep
  refine ⟨h.tidy.step hstep, fun e he => ?_, fun d' => ?_⟩
  · rcases List.mem_append.mp he with he | he
    · rcases List.mem_append.mp he with he | he
      · exact h.queue e he
      · obtain ⟨d, -, rfl⟩ := List.mem_map.mp he
        rfl
    · rw [List.mem_singleton.mp he]
      rfl
  · refine (h.ordered d').post rfl rfl (List.append_assoc ..) ?_
    rw [hleft, List.drop_left, ofDpid_append, hfind]
    by_cases heq : d = d'
    · subst heq
      rw [if_pos rfl, ofDpid_same (d := d) (e := .join d _) rfl]
      cases hold : s.conns.find d with
      | none => rfl
      | some b =>
        rw [Option.isSome_some, if_pos rfl, List.map_singleton,
          ofDpid_same (d := d) (e := .leave d) rfl]
        rfl
    · rw [if_neg (Ne.symm heq), ofDpid_other (d := d') (e := .join d _) heq, List.append_nil]
      split
      · rw [List.map_singleton, ofDpid_other (d := d') (e := .leave d) heq]
        rfl
      · rfl

/-- A message of a connection in the map comes while no join or leave event is on its way. -/
theorem Controller.Inv.message (h : s.Inv) {a : Nat} {c : Conn} (hc : s.conns.conns a = some c)
    (hopen : c.closing = false)
    (hclear : ∀ x ∈ s.queue ++ s.running, x.isMessage = true ∨ x.dpid ≠ c.datapathId) :
    Controller.Inv { s with running := s.running ++ [.message c.datapathId a] } := by
  refine ⟨h.tidy, h.queue, fun d => ?_⟩
  by_cases heq : c.datapathId = d
  · subst heq
    have hfind : s.conns.find c.datapathId = some a :=
      mapped_find h.tidy ((h.tidy.map _ _).mpr ⟨fun heq => (nomatch heq), c, hc, rfl, hopen⟩)
    have hqueue : ofDpid c.datapathId s.queue = [] := by
      refine List.eq_nil_iff_forall_not_mem.mpr fun x hx => ?_
      obtain ⟨hx, hd⟩ := mem_ofDpid.mp hx
      rcases hclear x (List.mem_append_left _ hx) with hmsg | hne
      · exact Bool.noConfusion ((h.queue x hx).symm.trans hmsg)
      · exact hne hd
    cases h.ordered c.datapathId with
    | @calm st hst hmessages hfold =>
      have hst' : st = some a := by
        rw [hqueue, hfind] at hfold
        exact Option.some.inj hfold
      refine .calm hst (fun e he => ?_) hfold
      rw [ofDpid_append, ofDpid_same (d := c.datapathId) (e := .message c.datapathId a) rfl] at he
      rcases List.mem_append.mp he with he | he
      · exact hmessages e he
      · exact ⟨a, List.mem_singleton.mp he, hst'⟩
    | @busy st e hst hone hcontrol hfold =>
      have he : e ∈ ofDpid c.datapathId s.running := hone ▸ List.mem_singleton_self e
      obtain ⟨he, hd⟩ := mem_ofDpid.mp he
      rcases hclear e (List.mem_append_right _ he) with hmsg | hne
      · exact Bool.noConfusion (hcontrol.symm.trans hmsg)
      · exact absurd hd hne
  · refine (h.ordered d).frame rfl ?_ rfl rfl
    rw [ofDpid_append, ofDpid_other (d := d) (e := .message c.datapathId a) heq, List.append_nil]

/-- A poll keeps the connections and their order. -/
theorem Controller.Inv.poll {messages : Bool} (h : s.Inv) {a : Nat} {r : Received}
    (horderly : s.Orderly messages (.poll a r)) (hs : s.poll messages a r = some s') :
    s'.Inv := by
  unfold Controller.poll at hs
  split at hs
  · cases hs
  · next c hc =>
    split at hs
    · next hpollable =>
      obtain ⟨s₁, hs₁, rfl⟩ := Option.map_eq_some_iff.mp hs
      have hinv := h.operate (fun d => by simp) hs₁
      cases r with
      | message =>
        cases messages with
        | false => exact hinv
        | true =>
          obtain ⟨conns, hstep, rfl⟩ := Option.map_eq_some_iff.mp hs₁
          obtain ⟨c', hc', hopen⟩ := (h.tidy.pollables a).mp hpollable
          cases hc.symm.trans hc'
          have hbegin : s.conns.beginPoll a c = conns := by
            simpa [Connections.step, Connections.poll, Connections.withConn, hc] using hstep
          subst hbegin
          refine hinv.message (c := { c with pollCnt := c.pollCnt + 1 })
            (Function.update_self ..) hopen fun x hx => ?_
          refine horderly rfl c hc x ?_
          simpa [Connections.beginPoll] using hx
      | malformed => exact hinv
      | again => exact hinv
      | closed => exact hinv
      | failed => exact hinv
    · cases hs

theorem Controller.Inv.dispatch {messages : Bool} (h : s.Inv)
    (horderly : s.Orderly messages .dispatch) (hs : s.dispatch = some s') : s'.Inv := by
  unfold Controller.dispatch at hs
  split at hs
  · cases hs
  · next e queue hq =>
    cases hs
    have hclear : ∀ x ∈ s.running, x.dpid ≠ e.dpid := horderly e (by rw [hq]; rfl)
    have hcontrol : e.isMessage = false := h.queue e (hq ▸ List.mem_cons_self)
    refine ⟨h.tidy, fun x hx => h.queue x (hq ▸ List.mem_cons_of_mem e hx), fun d => ?_⟩
    by_cases heq : e.dpid = d
    · have hnone : ofDpid d s.running = [] :=
        List.eq_nil_iff_forall_not_mem.mpr fun x hx => by
          obtain ⟨hx, hd⟩ := mem_ofDpid.mp hx
          exact hclear x hx (hd.trans heq.symm)
      have hqueue : ofDpid d s.queue = e :: ofDpid d queue := by
        rw [hq]
        simp [ofDpid, heq]
      have hrunning : ofDpid d (s.running ++ [e]) = [e] := by
        rw [ofDpid_append, hnone, ofDpid_same heq, List.nil_append]
      cases h.ordered d with
      | calm hst _ hfold => exact .busy hst hrunning hcontrol (hqueue ▸ hfold)
      | busy _ hone _ _ => cases hone.symm.trans hnone
    · refine (h.ordered d).frame rfl ?_ ?_ rfl
      · rw [ofDpid_append, ofDpid_other heq, List.append_nil]
      · rw [hq]
        simp [ofDpid, heq]

theorem Controller.Inv.deliver {e : SwitchEvent} (h : s.Inv) (hs : s.deliver e = some s') :
    s'.Inv := by
  unfold Controller.deliver at hs
  split at hs
  · next hmem =>
    cases hs
    refine ⟨h.tidy, h.queue, fun d => ?_⟩
    by_cases heq : e.dpid = d
    · have hin : e ∈ ofDpid d s.running := mem_ofDpid.mpr ⟨hmem, heq⟩
      have hepisode : ∀ st, episode d s.delivered = some st →
          episode d (s.delivered ++ [e]) = e.next st := fun st hst => by
        rw [episode_concat, if_pos heq, hst, Option.bind_some]
      cases h.ordered d with
      | calm hst hmessages hfold =>
        obtain ⟨a, rfl, rfl⟩ := hmessages e hin
        refine .calm ((hepisode _ hst).trans (if_pos rfl)) (fun x hx => ?_) hfold
        rw [ofDpid_erase] at hx
        exact hmessages x (List.mem_of_mem_erase hx)
      | busy hst hone hcontrol hfold =>
        rw [hone, List.mem_singleton] at hin
        subst hin
        obtain ⟨st', hnext, hrest⟩ := Option.bind_eq_some_iff.mp hfold
        refine .calm ((hepisode _ hst).trans hnext) (fun x hx => ?_) hrest
        rw [ofDpid_erase, hone, List.erase_cons_head] at hx
        cases hx
    · refine (h.ordered d).frame ?_ (ofDpid_erase_other heq) rfl rfl
      rw [ofDpid_append, ofDpid_other heq, List.append_nil]
  · cases hs

/-- Only a message is stopped. -/
theorem Controller.Inv.stop {messages : Bool} {e : SwitchEvent} (h : s.Inv)
    (horderly : s.Orderly messages (.stop e)) (hs : s.stop e = some s') : s'.Inv := by
  unfold Controller.stop at hs
  split at hs
  · next hmem =>
    cases hs
    refine ⟨h.tidy, h.queue, fun d => ?_⟩
    by_cases heq : e.dpid = d
    · have hin : e ∈ ofDpid d s.running := mem_ofDpid.mpr ⟨hmem, heq⟩
      cases h.ordered d with
      | calm hst hmessages hfold =>
        refine .calm hst (fun x hx => ?_) hfold
        rw [ofDpid_erase] at hx
        exact hmessages x (List.mem_of_mem_erase hx)
      | busy hst hone hcontrol hfold =>
        rw [hone, List.mem_singleton] at hin
        subst hin
        exact Bool.noConfusion (hcontrol.symm.trans horderly)
    · exact (h.ordered d).frame rfl (ofDpid_erase_other heq) rfl rfl
  · cases hs

theorem Controller.Inv.step {messages : Bool} {l : ControllerStep} (h : s.Inv)
    (horderly : s.Orderly messages l) (hs : s.step messages l = some s') : s'.Inv := by
  cases l with
  | registerSwitch d => exact h.registerSwitch hs
  | poll a r => exact h.poll horderly hs
  | ret a =>
    simp only [Controller.step, Controller.ret] at hs
    split at hs
    · exact h.operate (fun d => by simp) hs
    · cases hs
  | close a => exact h.operate (fun d => by simp) hs
  | closeOpenflowConnection d => exact h.operate (fun d' => by simp) hs
  | dispatch => exact h.dispatch horderly hs
  | deliver e => exact h.deliver hs
  | stop e => exact h.stop horderly hs

/-- In an orderly run a handler gets the events of every datapath id in episodes. -/
theorem episodes_of_reached {messages : Bool}
    (h : Reaches (Controller.step messages) (Controller.Orderly messages) Controller.init s) :
    s.InEpisodes :=
  (h.invariant inv_controller_init fun _ _ _ hinv horderly hs =>
    hinv.step horderly hs : s.Inv).inEpisodes

end Preservation

section Runs

/-! ## Two runs -/

instance (messages : Bool) (s : Controller) (l : ControllerStep) :
    Decidable (s.Orderly messages l) :=
  match l with
  | .dispatch => inferInstanceAs (Decidable (∀ e ∈ s.queue.head?, ∀ x ∈ s.running, x.dpid ≠ e.dpid))
  | .poll a .message =>
    match hc : s.conns.conns a with
    | none => .isTrue fun _ c h => nomatch hc.symm.trans h
    | some c =>
      decidable_of_iff (messages = true →
        ∀ x ∈ s.queue ++ s.running, x.isMessage = true ∨ x.dpid ≠ c.datapathId)
        ⟨fun h hm c' h' => by cases hc.symm.trans h'; exact h hm, fun h hm => h hm c hc⟩
  | .poll _ .malformed => .isTrue trivial
  | .poll _ .again => .isTrue trivial
  | .poll _ .closed => .isTrue trivial
  | .poll _ .failed => .isTrue trivial
  | .stop e => inferInstanceAs (Decidable (e.isMessage = true))
  | .registerSwitch _ => .isTrue trivial
  | .ret _ => .isTrue trivial
  | .close _ => .isTrue trivial
  | .closeOpenflowConnection _ => .isTrue trivial
  | .deliver _ => .isTrue trivial

/-- A switch joins, sends a message and registers again. -/
theorem episodes_reregistered :
    ∃ s, runs (Controller.step true) (Controller.Orderly true) Controller.init
        [.registerSwitch 5, .dispatch, .deliver (.join 5 0), .poll 0 .message,
          .deliver (.message 5 0), .ret 0, .registerSwitch 5, .dispatch, .deliver (.leave 5),
          .dispatch, .deliver (.join 5 1)] = some s ∧
      s.delivered = [.join 5 0, .message 5 0, .leave 5, .join 5 1] ∧ s.InEpisodes := by
  have hrun : (runs (Controller.step true) (Controller.Orderly true) Controller.init
      [.registerSwitch 5, .dispatch, .deliver (.join 5 0), .poll 0 .message,
        .deliver (.message 5 0), .ret 0, .registerSwitch 5, .dispatch, .deliver (.leave 5),
        .dispatch, .deliver (.join 5 1)]).map (·.delivered) =
      some [.join 5 0, .message 5 0, .leave 5, .join 5 1] := by
    rfl
  obtain ⟨s, hs, hdelivered⟩ := Option.map_eq_some_iff.mp hrun
  exact ⟨s, hs, hdelivered, episodes_of_reached (Reaches.init.runs hs)⟩

/-- While the join event is with a handler that blocks, the connection is polled and another
handler gets its message. -/
theorem early_message :
    ∃ s, runs (Controller.step true) (fun _ _ => True) Controller.init
        [.registerSwitch 5, .dispatch, .poll 0 .message, .deliver (.message 5 0)] = some s ∧
      ¬s.InEpisodes := by
  have hrun : (runs (Controller.step true) (fun _ _ => True) Controller.init
      [.registerSwitch 5, .dispatch, .poll 0 .message, .deliver (.message 5 0)]).map
      (·.delivered) = some [.message 5 0] := by
    rfl
  obtain ⟨s, hs, hdelivered⟩ := Option.map_eq_some_iff.mp hrun
  refine ⟨s, hs, fun h => ?_⟩
  have hepisode := h 5
  rw [hdelivered] at hepisode
  cases hepisode

end Runs

end Nox.Switch

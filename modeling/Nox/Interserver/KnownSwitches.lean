import Nox.Interserver.Service
import Nox.Switch.Episodes

/-!
# The switches the request processor knows

`_dpids` has a datapath id from its join event to its leave event.  When the two come in
turn the handler of the leave event always finds it (`known_of_reached`).  A join event that
blocks in an earlier handler is overtaken by the leave event, and the handler erases past
the end (`erased_end`).
-/

namespace Nox.Interserver

open Switch
open Lib (Reaches runs)

section Known

/-! ## Join and leave events in turn -/

/-- The event reaches the handlers of `Request_processor`, `datapath_join_handler` or
`datapath_leave_handler`; nothing when that is undefined. -/
def Processor.hear (p : Processor) : SwitchEvent → Option Processor
  | .join d _ => some (p.datapathJoin d)
  | .message _ _ => some p
  | .leave d => p.datapathLeave d

/-- Joins and leaves in turn; `join` tells which comes first. -/
def Alternates (join : Bool) : List SwitchEvent → Prop
  | [] => True
  | e :: l => e.isJoin = join ∧ Alternates (!join) l

/-- The join and leave events for a datapath id. -/
def changes (d : UInt64) (l : List SwitchEvent) : List SwitchEvent :=
  (ofDpid d l).filter fun e => !e.isMessage

def joins (d : UInt64) (l : List SwitchEvent) : Nat := (ofDpid d l).countP SwitchEvent.isJoin

def leaves (d : UInt64) (l : List SwitchEvent) : Nat := (ofDpid d l).countP SwitchEvent.isLeave

/-- The join and leave events of a datapath id come in turn, and `_dpids` has the datapath ids
with more joins than leaves, each once. -/
structure Known (delivered : List SwitchEvent) : Prop where
  alternates : ∀ d, Alternates true (changes d delivered)
  dpids : ∃ p, delivered.foldlM Processor.hear Processor.init = some p ∧ p.dpids.Nodup ∧
    ∀ d, d ∈ p.dpids ↔ leaves d delivered < joins d delivered

end Known

section Episodes

/-! ## What episodes give -/

variable {l : List SwitchEvent} {st st' : Option Nat} {d : UInt64}

theorem alternates_of_episode (h : l.foldlM SwitchEvent.next st = some st') :
    Alternates st.isNone (l.filter fun e => !e.isMessage) := by
  induction l generalizing st with
  | nil => trivial
  | cons e l ih =>
    obtain ⟨st₁, hnext, hrest⟩ := Option.bind_eq_some_iff.mp h
    have hl := ih hrest
    cases e with
    | join d a =>
      simp only [SwitchEvent.next] at hnext
      split at hnext
      · next hnone =>
        cases hnext
        subst hnone
        exact ⟨rfl, hl⟩
      · cases hnext
    | message d a =>
      simp only [SwitchEvent.next] at hnext
      split at hnext
      · cases hnext
        exact hl
      · cases hnext
    | leave d =>
      simp only [SwitchEvent.next] at hnext
      split at hnext
      · next hsome =>
        cases hnext
        obtain ⟨a, rfl⟩ := Option.isSome_iff_exists.mp hsome
        exact ⟨rfl, hl⟩
      · cases hnext

theorem count_of_episode (h : l.foldlM SwitchEvent.next st = some st') :
    l.countP SwitchEvent.isJoin + st.isSome.toNat =
      l.countP SwitchEvent.isLeave + st'.isSome.toNat := by
  induction l generalizing st with
  | nil =>
    cases h
    rfl
  | cons e l ih =>
    obtain ⟨st₁, hnext, hrest⟩ := Option.bind_eq_some_iff.mp h
    have hl := ih hrest
    rw [List.countP_cons, List.countP_cons]
    cases e with
    | join d a =>
      simp only [SwitchEvent.next] at hnext
      split at hnext
      · next hnone =>
        cases hnext
        subst hnone
        simpa [SwitchEvent.isJoin, SwitchEvent.isLeave] using hl
      · cases hnext
    | message d a =>
      simp only [SwitchEvent.next] at hnext
      split at hnext
      · cases hnext
        simpa [SwitchEvent.isJoin, SwitchEvent.isLeave] using hl
      · cases hnext
    | leave d =>
      simp only [SwitchEvent.next] at hnext
      split at hnext
      · next hsome =>
        cases hnext
        obtain ⟨a, rfl⟩ := Option.isSome_iff_exists.mp hsome
        simp [SwitchEvent.isJoin, SwitchEvent.isLeave] at hl ⊢
        omega
      · cases hnext

/-- A datapath id is in an episode when it has more joins than leaves. -/
theorem leaves_lt_joins (h : episode d l = some st) : leaves d l < joins d l ↔ st.isSome := by
  have hcount := count_of_episode h
  rw [leaves, joins]
  cases st with
  | none =>
    simp at hcount ⊢
    omega
  | some a =>
    simp at hcount ⊢
    omega

/-- `_dpids` has the datapath ids that are in an episode, each once. -/
def Processor.Knows (p : Processor) (l : List SwitchEvent) : Prop :=
  p.dpids.Nodup ∧ ∀ d, d ∈ p.dpids ↔ ∃ a, episode d l = some (some a)

/-- The next event of an episode is heard. -/
theorem Processor.Knows.hear {p : Processor} {e : SwitchEvent} (h : p.Knows l)
    (hst : episode e.dpid l = some st) (hnext : e.next st = some st') :
    ∃ p', p.hear e = some p' ∧ p'.Knows (l ++ [e]) := by
  have hepisode : ∀ d, episode d (l ++ [e]) =
      if e.dpid = d then some st' else episode d l := fun d => by
    rw [episode_concat]
    split
    · next heq => rw [← heq, hst, Option.bind_some, hnext]
    · rfl
  obtain ⟨hnodup, hdpids⟩ := h
  cases e with
  | join d a =>
    simp only [SwitchEvent.next] at hnext
    split at hnext
    · next hnone =>
      cases hnext
      subst hnone
      have hnot : d ∉ p.dpids := fun hmem => by
        obtain ⟨a, ha⟩ := (hdpids d).mp hmem
        cases hst.symm.trans ha
      have hnodup' : (p.dpids ++ [d]).Nodup := by
        rw [← List.concat_eq_append]
        exact hnodup.concat hnot
      refine ⟨p.datapathJoin d, rfl, hnodup', fun d' => ?_⟩
      rw [hepisode, Processor.datapathJoin, List.mem_append, List.mem_singleton, hdpids]
      split
      · next heq => exact ⟨fun _ => ⟨a, rfl⟩, fun _ => .inr heq.symm⟩
      · next hne => exact ⟨fun hor => hor.resolve_right (Ne.symm hne), .inl⟩
    · cases hnext
  | message d a =>
    simp only [SwitchEvent.next] at hnext
    split at hnext
    · cases hnext
      refine ⟨p, rfl, hnodup, fun d' => ?_⟩
      rw [hepisode, hdpids]
      split
      · next heq => rw [← heq, ← hst]
      · rfl
    · cases hnext
  | leave d =>
    simp only [SwitchEvent.next] at hnext
    split at hnext
    · next hsome =>
      cases hnext
      obtain ⟨a, rfl⟩ := Option.isSome_iff_exists.mp hsome
      have hmem : d ∈ p.dpids := (hdpids d).mpr ⟨a, hst⟩
      refine ⟨{ p with dpids := p.dpids.erase d }, if_pos hmem, hnodup.erase d, fun d' => ?_⟩
      rw [hepisode, hnodup.mem_erase_iff, hdpids]
      split
      · next heq =>
        refine iff_of_false (fun hand => hand.1 heq.symm) ?_
        rintro ⟨_, ⟨⟩⟩
      · next hne => exact ⟨fun hand => hand.2, fun ha => ⟨Ne.symm hne, ha⟩⟩
    · cases hnext

/-- Events in episodes are heard. -/
theorem knows_of_episodes (h : ∀ d, (episode d l).isSome) :
    ∃ p, l.foldlM Processor.hear Processor.init = some p ∧ p.Knows l := by
  induction l using List.reverseRecOn with
  | nil =>
    refine ⟨.init, rfl, List.nodup_nil, fun d => ⟨fun hmem => absurd hmem List.not_mem_nil, ?_⟩⟩
    rintro ⟨a, ha⟩
    cases ha
  | append_singleton l e ih =>
    have hbefore : ∀ d, (episode d l).isSome := fun d => by
      have hd := h d
      rw [episode_concat] at hd
      split at hd
      · exact Option.isSome_of_isSome_bind hd
      · exact hd
    obtain ⟨p, hp, hknows⟩ := ih hbefore
    obtain ⟨st, hst⟩ := Option.isSome_iff_exists.mp (hbefore e.dpid)
    obtain ⟨st', hnext⟩ := Option.isSome_iff_exists.mp (h e.dpid)
    rw [episode_concat, if_pos rfl, hst, Option.bind_some] at hnext
    obtain ⟨p', hhear, hknows'⟩ := hknows.hear hst hnext
    refine ⟨p', ?_, hknows'⟩
    rw [List.foldlM_append, hp]
    simpa using hhear

theorem known_of_episodes (h : ∀ d, (episode d l).isSome) : Known l := by
  refine ⟨fun d => ?_, ?_⟩
  · obtain ⟨st, hst⟩ := Option.isSome_iff_exists.mp (h d)
    exact alternates_of_episode hst
  · obtain ⟨p, hp, hnodup, hdpids⟩ := knows_of_episodes h
    refine ⟨p, hp, hnodup, fun d => ?_⟩
    obtain ⟨st, hst⟩ := Option.isSome_iff_exists.mp (h d)
    rw [hdpids, leaves_lt_joins hst, hst, Option.isSome_iff_exists]
    exact ⟨fun ⟨a, ha⟩ => ⟨a, Option.some.inj ha⟩, fun ⟨a, ha⟩ => ⟨a, congrArg some ha⟩⟩

end Episodes

section Runs

/-! ## Over runs -/

/-- In an orderly run `_dpids` has the switches that have joined and not left. -/
theorem known_of_reached {s : Controller}
    (h : Reaches (Controller.step false) (Controller.Orderly false) Controller.init s) :
    Known s.delivered :=
  known_of_episodes (h.invariant inv_controller_init fun _ _ _ hinv horderly hs =>
    hinv.step horderly hs : s.Inv).inEpisodes

/-- A switch registers twice and its second connection is closed. -/
theorem known_reregistered :
    ∃ s, runs (Controller.step false) (Controller.Orderly false) Controller.init
        [.registerSwitch 5, .dispatch, .deliver (.join 5 0), .poll 0 .message,
          .registerSwitch 5, .dispatch, .deliver (.leave 5), .dispatch, .deliver (.join 5 1),
          .poll 1 .closed, .dispatch, .deliver (.leave 5)] = some s ∧
      s.delivered = [.join 5 0, .leave 5, .join 5 1, .leave 5] ∧ Known s.delivered := by
  have hrun : (runs (Controller.step false) (Controller.Orderly false) Controller.init
      [.registerSwitch 5, .dispatch, .deliver (.join 5 0), .poll 0 .message,
        .registerSwitch 5, .dispatch, .deliver (.leave 5), .dispatch, .deliver (.join 5 1),
        .poll 1 .closed, .dispatch, .deliver (.leave 5)]).map (·.delivered) =
      some [.join 5 0, .leave 5, .join 5 1, .leave 5] := by
    rfl
  obtain ⟨s, hs, hdelivered⟩ := Option.map_eq_some_iff.mp hrun
  exact ⟨s, hs, hdelivered, known_of_reached (Reaches.init.runs hs)⟩

/-- The join event is with a handler that blocks when the leave event comes. -/
theorem erased_end :
    ∃ s, runs (Controller.step false) (fun _ _ => True) Controller.init
        [.registerSwitch 5, .dispatch, .poll 0 .closed, .dispatch, .deliver (.leave 5)] =
          some s ∧
      Processor.init.datapathLeave 5 = none ∧ ¬Known s.delivered := by
  have hrun : (runs (Controller.step false) (fun _ _ => True) Controller.init
      [.registerSwitch 5, .dispatch, .poll 0 .closed, .dispatch, .deliver (.leave 5)]).map
      (·.delivered) = some [.leave 5] := by
    rfl
  obtain ⟨s, hs, hdelivered⟩ := Option.map_eq_some_iff.mp hrun
  refine ⟨s, hs, rfl, fun h => ?_⟩
  obtain ⟨p, hp, -⟩ := h.dpids
  rw [hdelivered] at hp
  cases hp

end Runs

end Nox.Interserver

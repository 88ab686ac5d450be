import Mathlib.Data.List.Perm.Basic
import Nox.Events.Dispatcher

/-!
# The handlers of a dispatch

`Calls` says which handlers the dispatches have called.  A dispatch in progress is a
walk through the handlers of its name, which grow on the way; the frame that waits
for it knows where it stands.
-/

namespace Nox.Events

open Lib

section Signals

/-! ## Signals -/

namespace Signal

/-- The handler is put somewhere into the list. -/
theorem insert_split (h : Handler) (l : Signal) :
    ∃ l₁ l₂, l = l₁ ++ l₂ ∧ insert h l = l₁ ++ h :: l₂ := by
  induction l with
  | nil => exact ⟨[], [], rfl, rfl⟩
  | cons g l ih =>
    rw [insert]
    split
    · exact ⟨[], g :: l, rfl, rfl⟩
    · obtain ⟨l₁, l₂, rfl, heq⟩ := ih
      exact ⟨g :: l₁, l₂, rfl, by rw [heq]; rfl⟩

theorem insert_perm (h : Handler) (l : Signal) : (insert h l).Perm (h :: l) := by
  obtain ⟨l₁, l₂, rfl, heq⟩ := insert_split h l
  rw [heq]
  exact List.perm_middle

theorem sublist_insert (h : Handler) (l : Signal) : l.Sublist (insert h l) := by
  obtain ⟨l₁, l₂, rfl, heq⟩ := insert_split h l
  rw [heq]
  exact List.Sublist.append_left (List.sublist_cons_self h l₂) l₁

/-- The multimap stays in order. -/
theorem insert_ordered (h : Handler) {l : Signal} (hl : l.Pairwise fun x y => x.order ≤ y.order) :
    (insert h l).Pairwise fun x y => x.order ≤ y.order := by
  induction l with
  | nil => exact List.pairwise_singleton _ _
  | cons g l ih =>
    obtain ⟨hg, hl'⟩ := List.pairwise_cons.mp hl
    rw [insert]
    split
    · next hlt =>
      refine List.pairwise_cons.mpr ⟨fun x hx => ?_, hl⟩
      rcases List.mem_cons.mp hx with rfl | hx
      · exact Int.le_of_lt hlt
      · exact Int.le_trans (Int.le_of_lt hlt) (hg x hx)
    · next hlt =>
      refine List.pairwise_cons.mpr ⟨fun x hx => ?_, ih hl'⟩
      rcases List.mem_cons.mp ((insert_perm h l).mem_iff.mp hx) with rfl | hx
      · exact Int.not_lt.mp hlt
      · exact hg x hx

end Signal

theorem addHandler_signal (s : Dispatcher) (name : String) (order : Int) (n : String) :
    (s.addHandler name order).signal n =
      if n = name then Signal.insert ⟨s.registered, order⟩ (s.signal name) else s.signal n := by
  unfold Dispatcher.signal Dispatcher.addHandler
  dsimp only
  split <;> rfl

end Signals

section Calls

/-! ## The records -/

/-- The record of a dispatch that waits for the handler of the frame. -/
structure Running (signal : String → Signal) (f : Frame) (r : Record) : Prop where
  name : r.name = f.name
  walk : ∃ before rest, Walk (signal r.name) r.handlers r.called before rest
  calling : r.called.getLast? = some f.calling
  waits : r.called.length = r.results.length + 1
  cont : ∀ x ∈ r.results, x = .cont

/-- The record of a dispatch that is over: it has called the handlers from the front
on, and stopped before the end only where one did not return `CONTINUE`. -/
structure Ended (r : Record) : Prop where
  front : (r.called.filter fun h => h ∈ r.handlers) <+: r.handlers
  length : r.called.length = r.results.length
  cont : ∀ x ∈ r.results.dropLast, x = .cont
  last : (∃ x, r.results.getLast? = some x ∧ x ≠ .cont) ∨
    (r.called.filter fun h => h ∈ r.handlers) = r.handlers

/-- What holds of the handlers that were called. -/
structure Calls (s : Dispatcher) : Prop where
  ordered : ∀ n, (s.signal n).Pairwise fun x y => x.order ≤ y.order
  nodup : ∀ n, (s.signal n).Nodup
  registered : ∀ n, ∀ h ∈ s.signal n, h.id < s.registered
  frames : (s.frames.map (·.record)).Nodup
  running : ∀ f ∈ s.frames, ∃ r, s.log[f.record]? = some r ∧ Running s.signal f r
  ended : ∀ i r, s.log[i]? = some r → i ∉ s.frames.map (·.record) → Ended r
  called : ∀ r ∈ s.log, r.called.Sublist (s.signal r.name)

/-- What `Calls` is about. -/
def Dispatcher.calls (s : Dispatcher) : (String → Option Signal) × Nat × List Frame × List Record :=
  (s.table, s.registered, s.frames, s.log)

theorem Calls.congr {s s' : Dispatcher} (h : Calls s) (heq : s'.calls = s.calls) : Calls s' := by
  obtain ⟨table, queue, serial, frames, registered, posted, log, polls, returned, cut, pops⟩ := s
  obtain ⟨table', queue', serial', frames', registered', posted', log', polls', returned', cut',
    pops'⟩ := s'
  simp only [Dispatcher.calls, Prod.mk.injEq] at heq
  obtain ⟨rfl, rfl, rfl, rfl⟩ := heq
  exact ⟨h.ordered, h.nodup, h.registered, h.frames, h.running, h.ended, h.called⟩

theorem calls_init : Calls .init where
  ordered := fun n => List.Pairwise.nil
  nodup := fun n => List.nodup_nil
  registered := fun n h hh => by cases hh
  frames := List.nodup_nil
  running := fun f hf => by cases hf
  ended := fun i r hr => by cases hr
  called := fun r hr => by cases hr

theorem Calls.addHandler {s : Dispatcher} (h : Calls s) (name : String) (order : Int) :
    Calls (s.addHandler name order) := by
  have hnew : ∀ n, (⟨s.registered, order⟩ : Handler) ∉ s.signal n := fun n hmem =>
    Nat.lt_irrefl _ (h.registered n _ hmem)
  have hperm := Signal.insert_perm ⟨s.registered, order⟩ (s.signal name)
  have hsub : ∀ n, (s.signal n).Sublist ((s.addHandler name order).signal n) := by
    intro n
    rw [addHandler_signal]
    split
    · next heq => exact heq ▸ Signal.sublist_insert _ _
    · exact List.Sublist.refl _
  refine ⟨fun n => ?_, fun n => ?_, fun n g hg => ?_, h.frames, fun f hf => ?_, h.ended,
    fun r hr => (h.called r hr).trans (hsub _)⟩
  · rw [addHandler_signal]
    split
    · exact Signal.insert_ordered _ (h.ordered name)
    · exact h.ordered n
  · rw [addHandler_signal]
    split
    · exact hperm.nodup_iff.mpr (List.nodup_cons.mpr ⟨hnew name, h.nodup name⟩)
    · exact h.nodup n
  · rw [addHandler_signal] at hg
    split at hg
    · rcases List.mem_cons.mp (hperm.mem_iff.mp hg) with rfl | hg
      · exact Nat.lt_succ_self _
      · exact Nat.lt_succ_of_lt (h.registered name g hg)
    · exact Nat.lt_succ_of_lt (h.registered n g hg)
  · obtain ⟨r, hr, hrun⟩ := h.running f hf
    refine ⟨r, hr, hrun.name, ?_, hrun.calling, hrun.waits, hrun.cont⟩
    obtain ⟨before, rest, hwalk⟩ := hrun.walk
    rw [addHandler_signal]
    split
    · next heq =>
      obtain ⟨l₁, l₂, hl, hins⟩ := Signal.insert_split ⟨s.registered, order⟩ (s.signal name)
      rw [heq, hl] at hwalk
      rw [hins]
      exact hwalk.insert (hl ▸ hnew name)
    · exact ⟨before, rest, hwalk⟩

/-- The record `k` is new or changed, and the frame that waits for it, if there is one. -/
theorem Calls.update {s s' : Dispatcher} (h : Calls s) (k : Nat) (fs : List Frame)
    (o : Option Frame) (r : Record) (htable : s'.table = s.table)
    (hregistered : s'.registered = s.registered) (hframes : s'.frames = fs ++ o.toList)
    (hfs : fs.Sublist s.frames) (hk : ∀ f ∈ s.frames, f ∈ fs ↔ f.record ≠ k)
    (hr : s'.log[k]? = some r) (hlog : ∀ j, j ≠ k → s'.log[j]? = s.log[j]?)
    (hcalled : r.called.Sublist (s.signal r.name))
    (ho : ∀ f, o = some f → f.record = k ∧ Running s.signal f r) (hnone : o = none → Ended r) :
    Calls s' := by
  have hsignal : s'.signal = s.signal := by
    funext n
    rw [Dispatcher.signal, htable]
    rfl
  refine ⟨hsignal ▸ h.ordered, hsignal ▸ h.nodup, hsignal ▸ hregistered ▸ h.registered, ?_,
    fun f hf => ?_, fun i r' hi hmem => ?_, fun r' hr' => ?_⟩
  · have hnodup : (fs.map (·.record)).Nodup := (hfs.map _).nodup h.frames
    rw [hframes, List.map_append]
    cases o with
    | none => simpa using hnodup
    | some f =>
      refine List.nodup_append.mpr ⟨hnodup, List.pairwise_singleton _ _, fun a ha b hb heq => ?_⟩
      obtain ⟨g, hg, rfl⟩ := List.mem_map.mp ha
      refine (hk g (hfs.subset hg)).mp hg ?_
      rw [heq, List.mem_singleton.mp hb]
      exact (ho f rfl).1
  · rw [hsignal]
    rw [hframes] at hf
    rcases List.mem_append.mp hf with hf | hf
    · have hmem := hfs.subset hf
      obtain ⟨r', hr', hrun⟩ := h.running f hmem
      exact ⟨r', (hlog _ ((hk f hmem).mp hf)).trans hr', hrun⟩
    · obtain ⟨hrecord, hrun⟩ := ho f (Option.mem_toList.mp hf)
      exact ⟨r, hrecord ▸ hr, hrun⟩
  · rw [hframes, List.map_append, List.mem_append, not_or] at hmem
    by_cases hik : i = k
    · subst hik
      cases hr.symm.trans hi
      refine hnone ?_
      cases o with
      | none => rfl
      | some f =>
        refine absurd ?_ hmem.2
        rw [← (ho f rfl).1]
        exact List.mem_cons_self
    · refine h.ended i r' ((hlog i hik).symm.trans hi) fun hmem' => hmem.1 ?_
      obtain ⟨f, hf, rfl⟩ := List.mem_map.mp hmem'
      exact List.mem_map_of_mem ((hk f hf).mpr hik)
  · rw [hsignal]
    obtain ⟨i, hi⟩ := List.mem_iff_getElem?.mp hr'
    by_cases hik : i = k
    · subst hik
      cases hr.symm.trans hi
      exact hcalled
    · exact h.called r' (List.mem_of_getElem? ((hlog i hik).symm.trans hi))

/-- The frames wait for records of the log. -/
theorem Calls.record_lt {s : Dispatcher} (h : Calls s) {f : Frame} (hf : f ∈ s.frames) :
    f.record < s.log.length := by
  obtain ⟨r, hr, -⟩ := h.running f hf
  exact (List.getElem?_eq_some_iff.mp hr).1

/-- A new record, and the frame that waits for it. -/
theorem Calls.enter {s s' : Dispatcher} (h : Calls s) (o : Option Frame) (r : Record)
    (htable : s'.table = s.table) (hregistered : s'.registered = s.registered)
    (hframes : s'.frames = s.frames ++ o.toList) (hlog : s'.log = s.log ++ [r])
    (hcalled : r.called.Sublist (s.signal r.name))
    (ho : ∀ f, o = some f → f.record = s.log.length ∧ Running s.signal f r)
    (hnone : o = none → Ended r) : Calls s' := by
  apply h.update s.log.length s.frames o r htable hregistered hframes (List.Sublist.refl _)
  · exact fun f hf => ⟨fun _ => Nat.ne_of_lt (h.record_lt hf), fun _ => hf⟩
  · rw [hlog]
    exact List.getElem?_concat_length
  · intro j hj
    rw [hlog, List.getElem?_append]
    split
    · rfl
    · next hlt => rw [List.getElem?_eq_none (by simp; omega), List.getElem?_eq_none (by omega)]
  · exact hcalled
  · exact ho
  · exact hnone

/-- A dispatch that finds no handlers is over. -/
theorem Calls.begin_nil {s : Dispatcher} (h : Calls s) {name : String} (event : Option Event)
    (hnil : s.signal name = []) : Calls (s.begin name event) := by
  refine h.enter none ⟨name, event, s.signal name, [], []⟩ rfl rfl (List.append_nil _).symm rfl
    (List.nil_sublist _) (fun f hf => ?_) fun _ => ⟨List.nil_prefix, rfl, fun x hx => ?_, .inr ?_⟩
  · cases hf
  · cases hx
  · rw [hnil]
    rfl

theorem modify_concat {α : Type*} (l : List α) (a : α) (f : α → α) :
    (l ++ [a]).modify l.length f = l ++ [f a] := by
  induction l with
  | nil => rfl
  | cons b l ih => rw [List.cons_append, List.length_cons, List.modify_succ_cons, ih]; rfl

/-- A dispatch calls the first handler. -/
theorem Calls.begin_cons {s : Dispatcher} (h : Calls s) {name : String} (event : Option Event)
    (batch : Option Batch) {g : Handler} {l : Signal} (hcons : s.signal name = g :: l) :
    Calls ((s.begin name event).call s.log.length name g batch) := by
  have hwalk := Walk.begin (h.nodup name)
  rw [hcons] at hwalk
  refine h.enter (some ⟨s.log.length, name, g, batch⟩) ⟨name, event, s.signal name, [g], []⟩ rfl rfl
    rfl (modify_concat _ _ _) ?_ (fun f hf => ?_) fun ho => nomatch ho
  · rw [hcons]
    exact List.Sublist.cons_cons g (List.nil_sublist l)
  · cases hf
    refine ⟨rfl, rfl, ⟨[g], l, ?_⟩, rfl, rfl, fun x hx => nomatch hx⟩
    rw [hcons]
    exact hwalk.next

section Ret

variable {s : Dispatcher} {i : Nat} {f : Frame}

/-- The other frames when the frame `i` is gone. -/
theorem Calls.mem_eraseIdx (h : Calls s) (hf : s.frames[i]? = some f) :
    ∀ f' ∈ s.frames, f' ∈ s.frames.eraseIdx i ↔ f'.record ≠ f.record := by
  obtain ⟨hi, rfl⟩ := List.getElem?_eq_some_iff.mp hf
  have hperm := List.getElem_cons_eraseIdx_perm hi
  have hnodup := (hperm.map (·.record)).nodup_iff.mpr h.frames
  rw [List.map_cons, List.nodup_cons] at hnodup
  refine fun f' hf' => ⟨fun hmem heq => hnodup.1 (heq ▸ List.mem_map_of_mem hmem), fun hne => ?_⟩
  rcases List.mem_cons.mp (hperm.mem_iff.mpr hf') with rfl | hmem
  · exact absurd rfl hne
  · exact hmem

/-- A dispatch calls its next handler. -/
theorem Calls.ret_call (h : Calls s) (hf : s.frames[i]? = some f) {g : Handler} {result : Result}
    (hnext : s.next f result = some g) :
    Calls ((s.resume i f result).call f.record f.name g f.batch) := by
  obtain ⟨r, hr, hrun⟩ := h.running f (List.mem_of_getElem? hf)
  obtain ⟨before, rest, hwalk⟩ := hrun.walk
  have hcont : result = .cont := by
    cases result with
    | cont => rfl
    | _ => cases hnext
  subst hcont
  have hrest := hwalk.rest_eq hrun.calling
  rw [Dispatcher.next, ← hrun.name, hrest] at hnext
  obtain ⟨rest, rfl⟩ : ∃ l, rest = g :: l := by
    cases rest with
    | nil => cases hnext
    | cons b rest =>
      cases hnext
      exact ⟨rest, rfl⟩
  have hwalk' := hwalk.next
  refine h.update f.record (s.frames.eraseIdx i) (some ⟨f.record, f.name, g, f.batch⟩)
    { r with called := r.called ++ [g], results := r.results ++ [.cont] } rfl rfl rfl
    (List.eraseIdx_sublist ..) (h.mem_eraseIdx hf) ?_ (fun j hj => ?_) hwalk'.visited_sublist
    (fun f' hf' => ?_) fun ho => nomatch ho
  · simp [Dispatcher.call, Dispatcher.resume, hr]
  · simp [Dispatcher.call, Dispatcher.resume, Ne.symm hj]
  · cases hf'
    refine ⟨rfl, hrun.name, ⟨_, _, hwalk'⟩, List.getLast?_concat, ?_, fun x hx => ?_⟩
    · simp [hrun.waits]
    · rcases List.mem_append.mp hx with hx | hx
      · exact hrun.cont x hx
      · exact List.mem_singleton.mp hx

/-- A dispatch is over. -/
theorem Calls.ret_end (h : Calls s) (hf : s.frames[i]? = some f) {result : Result}
    (hnext : s.next f result = none) :
    Calls (s.resume i f result) := by
  obtain ⟨r, hr, hrun⟩ := h.running f (List.mem_of_getElem? hf)
  obtain ⟨before, rest, hwalk⟩ := hrun.walk
  refine h.update f.record (s.frames.eraseIdx i) none { r with results := r.results ++ [result] }
    rfl rfl (List.append_nil _).symm (List.eraseIdx_sublist ..) (h.mem_eraseIdx hf) ?_
    (fun j hj => ?_) hwalk.visited_sublist (fun f' hf' => nomatch hf') fun _ => ?_
  · simp [Dispatcher.resume, hr]
  · simp [Dispatcher.resume, Ne.symm hj]
  · refine ⟨hwalk.isPrefix, ?_, fun x hx => ?_, ?_⟩
    · simp [hrun.waits]
    · rw [List.dropLast_concat] at hx
      exact hrun.cont x hx
    · by_cases hcont : result = .cont
      · subst hcont
        have hrest := hwalk.rest_eq hrun.calling
        rw [Dispatcher.next, ← hrun.name, hrest, List.head?_eq_none_iff] at hnext
        subst hnext
        exact .inr hwalk.complete
      · exact .inl ⟨result, List.getLast?_concat, hcont⟩

end Ret

end Calls

end Nox.Events

import Nox.Components.Lists

/-!
# The invariant of `resolve`

The contexts `resolve` is about to move have their dependencies installed.  And as
long as no requirement has changed, the contexts below the state it has come to wait
for a dependency.
-/

namespace Nox.Components

variable {α : Type}

section Cases

/-! ## The steps of `resolve` -/

variable [DecidableEq α]

/-- What a step of the kernel's own code does. -/
inductive Kernel.Ticks (s : Kernel α) : Kernel α → Prop
  | absent (source) (hpc : s.pc = .visit source) (hlist : s.perState source = none) :
    s.Ticks { s with pc := .crashed }
  | visit (source l) (hpc : s.pc = .visit source) (hlist : s.perState source = some l) :
    s.Ticks { s with pc := .scan source 0 [] }
  | throws (source i resolved) (hpc : s.pc = .scan source i resolved) :
    s.Ticks { s with pc := .idle }
  | ask (source i resolved c s' ok) (hpc : s.pc = .scan source i resolved)
    (hc : (s.list source)[i]? = some c)
    (hres : s.resolveContext (s.dependencies c) = some (s', ok)) :
    s.Ticks
      { s' with pc := .scan source (i + 1) (if ok then resolved ++ [c] else resolved) }
  | advance (source i) (hpc : s.pc = .scan source i []) (hend : (s.list source)[i]? = none) :
    s.Ticks (s.advance source)
  | resolved (source i c rest) (hpc : s.pc = .scan source i (c :: rest))
    (hend : (s.list source)[i]? = none) :
    s.Ticks { s with pc := .batch source (c :: rest) }
  | restart (source) (hpc : s.pc = .batch source []) : s.Ticks s.restart
  | install (source c rest) (hpc : s.pc = .batch source (c :: rest)) :
    s.Ticks { s with pc := .acting source c rest }

theorem Kernel.tick_cases {s s' : Kernel α} (h : s.tick = some s') : s.Ticks s' := by
  unfold Kernel.tick at h
  cases hpc : s.pc with
  | idle => rw [hpc] at h; cases h
  | acting source c rest => rw [hpc] at h; cases h
  | crashed => rw [hpc] at h; cases h
  | visit source =>
    rw [hpc] at h
    cases hlist : s.perState source with
    | none =>
      simp only [hlist] at h
      cases h
      exact .absent source hpc hlist
    | some l =>
      simp only [hlist] at h
      cases h
      exact .visit source l hpc hlist
  | scan source i resolved =>
    rw [hpc] at h
    cases hc : (s.list source)[i]? with
    | some c =>
      rw [Kernel.list] at hc
      cases hres : s.resolveContext (s.dependencies c) with
      | none =>
        simp only [hc, hres] at h
        cases h
        exact .throws source i resolved hpc
      | some r =>
        simp only [hc, hres] at h
        cases h
        exact .ask source i resolved c r.1 r.2 hpc hc hres
    | none =>
      have hend := hc
      rw [Kernel.list] at hc
      simp only [hc] at h
      cases resolved with
      | nil =>
        cases h
        exact .advance source i hpc hend
      | cons c rest =>
        cases h
        exact .resolved source i c rest hpc hend
  | batch source rest =>
    rw [hpc] at h
    cases rest with
    | nil =>
      cases h
      exact .restart source hpc
    | cons c rest =>
      cases h
      exact .install source c rest hpc

/-- What the end of an action does. -/
inductive Kernel.Acts (s : Kernel α) : Kernel α → Prop
  | moves (source c rest st) (hpc : s.pc = .acting source c rest)
    (hst : st = source.next ∨ st = .error) :
    s.Acts { s.move source c st with pc := .batch source rest }
  | throws (source c rest) (hpc : s.pc = .acting source c rest) : s.Acts { s with pc := .idle }

theorem Kernel.act_cases {s s' : Kernel α} {outcome : Outcome} (h : s.act outcome = some s') :
    s.Acts s' := by
  unfold Kernel.act at h
  split at h
  · next source c rest hpc =>
    cases outcome with
    | ok => cases h; exact .moves source c rest source.next hpc (.inl rfl)
    | error => cases h; exact .moves source c rest .error hpc (.inr rfl)
    | throws => cases h; exact .throws source c rest hpc
  · cases h

end Cases

section Invariant

/-! ## The invariant -/

/-- As long as no requirement has changed, the contexts below the rank `n` wait for a
dependency. -/
def Kernel.SettledBelow (s : Kernel α) (n : Nat) : Prop :=
  s.changed = false → ∀ c st, s.state c = some st → st.rank < n → ¬s.Ready c

/-- The contexts of `l` are to leave `source`. -/
def Kernel.Moving (s : Kernel α) (source : ComponentState) (l : List α) : Prop :=
  l.Nodup ∧ ∀ c ∈ l, s.state c = some source ∧ s.Ready c

/-- What holds where `resolve` is. -/
def Kernel.At (s : Kernel α) : Pc α → Prop
  | .idle => True
  | .visit source => s.installing = true ∧ source.rank < 6 ∧ s.SettledBelow source.rank
  | .scan source i resolved =>
    s.installing = true ∧ source.rank < 6 ∧ s.SettledBelow source.rank ∧
      i ≤ (s.list source).length ∧ resolved.Sublist ((s.list source).take i) ∧
      (∀ c ∈ resolved, s.Ready c) ∧
      (s.changed = false → ∀ c ∈ (s.list source).take i, c ∉ resolved → ¬s.Ready c)
  | .batch source rest => s.installing = true ∧ source.rank < 6 ∧ s.Moving source rest
  | .acting source c rest => s.installing = true ∧ source.rank < 6 ∧ s.Moving source (c :: rest)
  | .crashed => True

structure Kernel.Inv (s : Kernel α) : Prop where
  core : s.Core
  pc : s.At s.pc

theorem Kernel.Inv.init : (Kernel.init (α := α)).Inv where
  core := by
    refine ⟨⟨?_, fun _ => List.nodup_nil⟩, List.nodup_nil, ?_, ?_, nofun⟩
    · intro c st
      exact ⟨nofun, nofun⟩
    · intro c
      exact ⟨nofun, fun h => absurd rfl h⟩
    · intro st
      exact ⟨nofun, fun h => absurd rfl h⟩
  pc := trivial

variable [DecidableEq α]

omit [DecidableEq α] in
theorem Kernel.Grows.moving {s s' : Kernel α} (h : s.Grows s') {source : ComponentState}
    {l : List α} (hl : s.Moving source l) : s'.Moving source l := by
  refine ⟨hl.1, fun c hc => ?_⟩
  obtain ⟨hstate, hready⟩ := hl.2 c hc
  exact ⟨h.state c source hstate, h.ready hstate hready⟩

/-- What is installed stays so when another context moves. -/
theorem Kernel.ready_move {s : Kernel α} {source st : ComponentState} {c c' : α}
    (hsource : source.rank < 6) (hc : s.state c = some source) (h : s.Ready c') :
    (s.move source c st).Ready c' := by
  intro d hd
  rw [Kernel.dependencies_move] at hd
  have hd' := h d hd
  have hne : d ≠ c := by
    rintro rfl
    rw [hc] at hd'
    cases hd'
    simp [ComponentState.rank] at hsource
  rw [Kernel.state_move, if_neg hne, hd']

theorem Kernel.Moving.move {s : Kernel α} {source st : ComponentState} {c : α} {rest : List α}
    (hsource : source.rank < 6) (h : s.Moving source (c :: rest)) :
    (s.move source c st).Moving source rest := by
  obtain ⟨hnodup, hmoving⟩ := h
  obtain ⟨hnot, hrest⟩ := List.nodup_cons.mp hnodup
  refine ⟨hrest, fun c' hc' => ?_⟩
  obtain ⟨hstate, hready⟩ := hmoving c' (List.mem_cons_of_mem c hc')
  have hne : c' ≠ c := by
    rintro rfl
    exact hnot hc'
  refine ⟨?_, Kernel.ready_move hsource (hmoving c List.mem_cons_self).1 hready⟩
  rw [Kernel.state_move, if_neg hne, hstate]

omit [DecidableEq α] in
theorem Kernel.at_restart (s : Kernel α) : s.restart.At s.restart.pc :=
  ⟨rfl, Nat.succ_pos 5, fun _ _ _ _ hlt => absurd hlt (Nat.not_lt_zero _)⟩

theorem Kernel.Inv.request {s : Kernel α} (h : s.Inv) (hforeign : s.pc.foreign = true)
    (r : Request α) : (s.request r).Inv := by
  obtain ⟨hcore, hgrows⟩ := h.core.request r
  refine ⟨hcore, ?_⟩
  have hat := h.pc
  cases hpc : s.pc with
  | idle =>
    rcases hgrows.pc with ⟨hpc', -⟩ | ⟨hpc', hinst, -⟩
    · rw [hpc', hpc]
      trivial
    · rw [hpc']
      exact ⟨hinst, Nat.succ_pos 5, fun _ _ _ _ hlt => absurd hlt (Nat.not_lt_zero _)⟩
  | acting source c rest =>
    rw [hpc] at hat
    obtain ⟨hinst, hsource, hmoving⟩ := hat
    obtain ⟨hinst', hpc'⟩ := hgrows.stays hinst
    rw [hpc', hpc]
    exact ⟨hinst', hsource, hgrows.moving hmoving⟩
  | visit source => rw [hpc] at hforeign; cases hforeign
  | scan source i resolved => rw [hpc] at hforeign; cases hforeign
  | batch source rest => rw [hpc] at hforeign; cases hforeign
  | crashed => rw [hpc] at hforeign; cases hforeign

/-- A context was asked for its dependencies. -/
theorem Kernel.Inv.ask {s s' : Kernel α} (h : s.Inv) {source : ComponentState} {i : Nat}
    {resolved : List α} {c : α} {ok : Bool} (hpc : s.pc = .scan source i resolved)
    (hc : (s.list source)[i]? = some c)
    (hres : s.resolveContext (s.dependencies c) = some (s', ok)) :
    Kernel.Inv
      { s' with pc := .scan source (i + 1) (if ok then resolved ++ [c] else resolved) } := by
  have hat := h.pc
  rw [hpc] at hat
  obtain ⟨hinst, hsource, hbelow, hi, hsub, hready, hblocked⟩ := hat
  obtain ⟨hcore, hgrows, heq⟩ := h.core.resolveContext hinst hres
  have hcases := Kernel.resolveContext_cases hres
  obtain ⟨hlt, hget⟩ := List.getElem?_eq_some_iff.mp hc
  have htake : (s'.list source).take (i + 1) = (s.list source).take i ++ [c] := by
    obtain ⟨l, hl⟩ := hgrows.lists source
    rw [← hl, List.take_append_of_le_length hlt, List.take_succ_eq_append_getElem hlt, hget]
  have hlist : ∀ n ∈ (s.list source).take i, s.state n = some source := fun n hn =>
    (h.core.listed.mem_iff n source).mp (List.mem_of_mem_take hn)
  have hcstate : s.state c = some source :=
    (h.core.listed.mem_iff c source).mp (List.mem_of_getElem? hc)
  refine ⟨hcore.congr rfl (fun _ => rfl) rfl rfl, (hgrows.stays hinst).1, hsource, ?_, ?_, ?_, ?_,
    ?_⟩
  · intro hchanged
    rcases heq with rfl | hset
    · exact hbelow hchanged
    · exact absurd (hset.symm.trans hchanged) Bool.noConfusion
  · exact Nat.le_trans hlt (hgrows.lists source).length_le
  · show List.Sublist _ ((s'.list source).take (i + 1))
    rw [htake]
    cases ok with
    | true => exact hsub.append_right [c]
    | false => exact hsub.trans (List.sublist_append_left _ _)
  · intro n hn
    rcases hcases with ⟨rfl, rfl, hdeps⟩ | ⟨rfl, -⟩
    · rcases List.mem_append.mp hn with hn | hn
      · exact hready n hn
      · rw [List.mem_singleton.mp hn]
        exact hdeps
    · exact hgrows.ready (hlist n (hsub.subset hn)) (hready n hn)
  · intro hchanged n hn hnot
    replace hn : n ∈ (s'.list source).take (i + 1) := hn
    rw [htake] at hn
    have heq : s' = s := heq.resolve_right fun hset =>
      absurd (hset.symm.trans hchanged) Bool.noConfusion
    rw [heq] at hchanged
    show ¬s'.Ready n
    rw [heq]
    rcases hcases with ⟨rfl, -, -⟩ | ⟨rfl, d, hd, hne, -⟩
    · rcases List.mem_append.mp hn with hn | hn
      · exact hblocked hchanged n hn fun hmem => hnot (List.mem_append_left [c] hmem)
      · exact absurd (List.mem_append_right resolved hn) hnot
    · rcases List.mem_append.mp hn with hn | hn
      · exact hblocked hchanged n hn hnot
      · rw [List.mem_singleton.mp hn]
        exact fun hall => hne (hall d hd)

omit [DecidableEq α] in
/-- No context of `source` can advance. -/
theorem Kernel.Inv.settled {s : Kernel α} (h : s.Inv) {source : ComponentState} {i : Nat}
    (hpc : s.pc = .scan source i []) (hend : (s.list source)[i]? = none) :
    s.SettledBelow (source.rank + 1) := by
  have hat := h.pc
  rw [hpc] at hat
  obtain ⟨-, -, hbelow, -, -, -, hblocked⟩ := hat
  intro hchanged c st hc hlt
  rcases Nat.lt_or_eq_of_le (Nat.le_of_lt_succ hlt) with hlt | heq
  · exact hbelow hchanged c st hc hlt
  · obtain rfl := ComponentState.rank_inj heq
    apply hblocked hchanged c _ List.not_mem_nil
    rw [List.take_of_length_le (List.getElem?_eq_none_iff.mp hend)]
    exact (h.core.listed.mem_iff c st).mpr hc

theorem Kernel.Inv.tick {s s' : Kernel α} (h : s.Inv) (htick : s.tick = some s') : s'.Inv := by
  have hat := h.pc
  have hcore : ∀ (changed installing : Bool) (pc : Pc α), Kernel.Core
      { s with changed := changed, installing := installing, pc := pc } :=
    fun _ _ _ => h.core.congr rfl (fun _ => rfl) rfl rfl
  cases Kernel.tick_cases htick with
  | absent source hpc hlist => exact ⟨hcore .., trivial⟩
  | visit source l hpc hlist =>
    rw [hpc] at hat
    obtain ⟨hinst, hsource, hbelow⟩ := hat
    refine ⟨hcore .., hinst, hsource, hbelow, Nat.zero_le _, List.nil_sublist _, nofun, ?_⟩
    intro _ c hc
    rw [List.take_zero] at hc
    cases hc
  | throws source i resolved hpc => exact ⟨hcore .., trivial⟩
  | ask source i resolved c s₁ ok hpc hc hres => exact h.ask hpc hc hres
  | advance source i hpc hend =>
    have hbelow := h.settled hpc hend
    rw [hpc] at hat
    obtain ⟨hinst, hsource, -⟩ := hat
    unfold Kernel.advance
    split
    · split
      · exact ⟨hcore .., Kernel.at_restart s⟩
      · exact ⟨hcore .., trivial⟩
    · next hne =>
      refine ⟨hcore .., hinst, ?_, ?_⟩
      · rw [ComponentState.rank_next hsource]
        have hfive : source.rank ≠ 5 := fun heq => hne (ComponentState.rank_inj heq)
        omega
      · rw [ComponentState.rank_next hsource]
        exact hbelow
  | resolved source i c rest hpc hend =>
    rw [hpc] at hat
    obtain ⟨hinst, hsource, -, -, hsub, hready, -⟩ := hat
    refine ⟨hcore .., hinst, hsource, ?_, ?_⟩
    · exact (hsub.trans (List.take_sublist ..)).nodup (h.core.listed.nodup source)
    · intro n hn
      refine ⟨?_, hready n hn⟩
      exact (h.core.listed.mem_iff n source).mp (List.mem_of_mem_take (hsub.subset hn))
  | restart source hpc => exact ⟨hcore .., Kernel.at_restart s⟩
  | install source c rest hpc =>
    rw [hpc] at hat
    exact ⟨hcore .., hat⟩

theorem Kernel.Inv.act {s s' : Kernel α} (h : s.Inv) {outcome : Outcome}
    (hact : s.act outcome = some s') : s'.Inv := by
  have hat := h.pc
  cases Kernel.act_cases hact with
  | moves source c rest st hpc hst =>
    rw [hpc] at hat
    obtain ⟨hinst, hsource, hmoving⟩ := hat
    have hc := (hmoving.2 c List.mem_cons_self).1
    refine ⟨?_, hinst, hsource, hmoving.move hsource⟩
    exact (h.core.move hc hsource hst).congr rfl (fun _ => rfl) rfl rfl
  | throws source c rest hpc => exact ⟨h.core.congr rfl (fun _ => rfl) rfl rfl, trivial⟩

theorem Kernel.Inv.step {s s' : Kernel α} (h : s.Inv) {l : Label α} (hstep : s.step l = some s') :
    s'.Inv := by
  cases l with
  | request r =>
    simp only [Kernel.step] at hstep
    split at hstep
    · next hforeign =>
      cases hstep
      exact h.request hforeign r
    · cases hstep
  | tick => exact h.tick hstep
  | act outcome => exact h.act hstep

theorem Kernel.Inv.run {s s' : Kernel α} (h : s.Inv) {ls : List (Label α)}
    (hrun : s.run ls = some s') : s'.Inv := by
  induction ls generalizing s with
  | nil =>
    cases hrun
    exact h
  | cons l ls ih =>
    obtain ⟨s₁, hstep, hrest⟩ := Option.bind_eq_some_iff.mp hrun
    exact ih (h.step hstep) hrest

end Invariant

end Nox.Components

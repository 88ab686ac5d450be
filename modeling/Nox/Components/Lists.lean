import Nox.Components.Kernel
import Mathlib.Data.List.Nodup

/-!
# The lists of the states

Whatever runs, every context of the kernel is in the list of its state and in no
other.  The updates of the state keep this, and so do the requests; what a request
adds is new, and leaves the states of the other contexts and their dependencies as
they were.
-/

namespace Nox.Components

theorem ComponentState.rank_inj {a b : ComponentState} (h : a.rank = b.rank) : a = b := by
  cases a <;> cases b <;> first | rfl | cases h

theorem ComponentState.rank_next {a : ComponentState} (h : a.rank < 6) :
    a.next.rank = a.rank + 1 := by
  cases a <;> first | rfl | (simp [rank] at h)

theorem ComponentState.next_ne {a : ComponentState} (h : a.rank < 6) : a.next ≠ a := by
  intro heq
  have hrank := rank_next h
  rw [heq] at hrank
  omega

theorem ComponentState.ne_error {a : ComponentState} (h : a.rank < 6) : a ≠ .error := by
  rintro rfl
  simp [rank] at h

variable {α : Type}

/-- The list of a state. -/
def Kernel.list (s : Kernel α) (st : ComponentState) : List α :=
  (s.perState st).getD []

/-- All dependencies of a context are installed. -/
def Kernel.Ready (s : Kernel α) (c : α) : Prop :=
  ∀ d ∈ s.dependencies c, s.state d = some .installed

/-- Every context is in the list of its state, once, and in no other. -/
structure Kernel.Listed (s : Kernel α) : Prop where
  mem_iff : ∀ c st, c ∈ s.list st ↔ s.state c = some st
  nodup : ∀ st, (s.list st).Nodup

/-- What does not depend on where `resolve` is. -/
structure Kernel.Core (s : Kernel α) : Prop where
  listed : s.Listed
  names_nodup : s.names.Nodup
  names_iff : ∀ c, c ∈ s.names ↔ s.contexts c ≠ none
  entered_iff : ∀ st, st ∈ s.entered ↔ s.perState st ≠ none
  entered_below : ∀ st ∈ s.entered, st ≠ .error →
    ∀ st', st'.rank ≤ st.rank → st' ∈ s.entered

/-- What stays of a state when contexts are added, where `resolve` may begin. -/
structure Kernel.Grows (s s' : Kernel α) : Prop where
  state : ∀ c st, s.state c = some st → s'.state c = some st
  dependencies : ∀ c, s.contexts c ≠ none → s'.dependencies c = s.dependencies c
  lists : ∀ st, s.list st <+: s'.list st
  fresh : ∀ c st, s.contexts c = none → s'.state c = some st → st = .notInstalled
  pc : s'.pc = s.pc ∧ s'.installing = s.installing ∨
    s'.pc = .visit .notInstalled ∧ s'.installing = true ∧ s.installing = false

section Grows

theorem Kernel.state_ne_none {s : Kernel α} {c : α} {st : ComponentState}
    (h : s.state c = some st) : s.contexts c ≠ none := by
  intro hnone
  rw [Kernel.state, hnone] at h
  cases h

theorem Kernel.Grows.refl (s : Kernel α) : s.Grows s where
  state := fun _ _ h => h
  dependencies := fun _ _ => rfl
  lists := fun _ => List.prefix_rfl
  fresh := fun _ _ hnone h => absurd hnone (Kernel.state_ne_none h)
  pc := .inl ⟨rfl, rfl⟩

theorem Kernel.exists_state {s : Kernel α} {c : α} (h : s.contexts c ≠ none) :
    ∃ st, s.state c = some st := by
  obtain ⟨ctxt, hctxt⟩ := Option.ne_none_iff_exists'.mp h
  exact ⟨ctxt.state, by rw [Kernel.state, hctxt]; rfl⟩

theorem Kernel.Grows.trans {s₁ s₂ s₃ : Kernel α} (h₁ : s₁.Grows s₂) (h₂ : s₂.Grows s₃) :
    s₁.Grows s₃ where
  state := fun c st h => h₂.state c st (h₁.state c st h)
  dependencies := by
    intro c hc
    obtain ⟨st, hst⟩ := Kernel.exists_state hc
    rw [h₂.dependencies c (Kernel.state_ne_none (h₁.state c st hst)), h₁.dependencies c hc]
  lists := fun st => (h₁.lists st).trans (h₂.lists st)
  fresh := by
    intro c st hnone h
    by_cases hc : s₂.contexts c = none
    · exact h₂.fresh c st hc h
    · obtain ⟨st', hst'⟩ := Kernel.exists_state hc
      have heq := h₁.fresh c st' hnone hst'
      rw [h₂.state c st' hst'] at h
      cases h
      exact heq
  pc := by
    rcases h₁.pc with ⟨hpc, hinst⟩ | ⟨hpc, hinst, hidle⟩
    · rw [← hpc, ← hinst]
      exact h₂.pc
    · rcases h₂.pc with ⟨hpc', hinst'⟩ | ⟨-, -, hidle'⟩
      · exact .inr ⟨hpc'.trans hpc, hinst'.trans hinst, hidle⟩
      · rw [hinst] at hidle'
        cases hidle'

/-- While `resolve` runs it is not begun again. -/
theorem Kernel.Grows.stays {s s' : Kernel α} (h : s.Grows s') (hinst : s.installing = true) :
    s'.installing = true ∧ s'.pc = s.pc := by
  rcases h.pc with ⟨hpc, hinst'⟩ | ⟨-, -, hidle⟩
  · exact ⟨hinst'.trans hinst, hpc⟩
  · rw [hinst] at hidle
    cases hidle

/-- A context that is ready stays so. -/
theorem Kernel.Grows.ready {s s' : Kernel α} (h : s.Grows s') {c : α} {st : ComponentState}
    (hc : s.state c = some st) (hready : s.Ready c) : s'.Ready c := by
  intro d hd
  rw [h.dependencies c (Kernel.state_ne_none hc)] at hd
  exact h.state d _ (hready d hd)

/-- Only what is in the kernel matters. -/
theorem Kernel.Core.congr {s s' : Kernel α} (h : s.Core) (hnames : s'.names = s.names)
    (hstate : ∀ c, s'.state c = s.state c) (hper : s'.perState = s.perState)
    (hentered : s'.entered = s.entered) : s'.Core where
  listed :=
    ⟨fun c st => by rw [hstate, Kernel.list, hper]; exact h.listed.mem_iff c st,
      fun st => by rw [Kernel.list, hper]; exact h.listed.nodup st⟩
  names_nodup := hnames ▸ h.names_nodup
  names_iff := by
    intro c
    rw [hnames, h.names_iff c, not_iff_not]
    have hc := hstate c
    simp only [Kernel.state] at hc
    rw [← Option.map_eq_none_iff (f := Context.state), ← hc, Option.map_eq_none_iff]
  entered_iff := fun st => by rw [hentered, hper]; exact h.entered_iff st
  entered_below := by rw [hentered]; exact h.entered_below

end Grows

section Updates

/-! ## The updates -/

variable [DecidableEq α]

theorem Kernel.state_setRequired (s : Kernel α) (c n : α) (target : ComponentState) :
    (s.setRequired c target).state n = s.state n := by
  simp only [Kernel.state, Kernel.setRequired]
  split
  · rw [Option.map_map]
    rfl
  · rfl

theorem Kernel.dependencies_setRequired (s : Kernel α) (c n : α) (target : ComponentState) :
    (s.setRequired c target).dependencies n = s.dependencies n := by
  simp only [Kernel.dependencies, Kernel.setRequired]
  split
  · cases s.contexts n <;> rfl
  · rfl

omit [DecidableEq α] in
theorem Kernel.list_push (s : Kernel α) (st st' : ComponentState) (c : α) :
    (s.push st c).list st' = if st' = st then s.list st ++ [c] else s.list st' := by
  simp only [Kernel.list, Kernel.push]
  split <;> rfl

theorem Kernel.list_erase (s : Kernel α) (st st' : ComponentState) (c : α) :
    (s.erase st c).list st' = if st' = st then (s.list st).erase c else s.list st' := by
  simp only [Kernel.list, Kernel.erase]
  split
  · cases s.perState st <;> rfl
  · rfl

theorem Kernel.state_register (s : Kernel α) (c n : α) (deps : List α) :
    (s.register c deps).state n = if n = c then some .notInstalled else s.state n := by
  simp only [Kernel.state, Kernel.register, Kernel.push]
  split <;> rfl

theorem Kernel.list_register (s : Kernel α) (c : α) (deps : List α) (st : ComponentState) :
    (s.register c deps).list st = if st = .notInstalled then s.list st ++ [c] else s.list st := by
  rw [Kernel.register, Kernel.list_push]
  split
  · next h => subst h; rfl
  · rfl

theorem Kernel.state_move (s : Kernel α) (source st : ComponentState) (c n : α) :
    (s.move source c st).state n = if n = c then (s.state n).map fun _ => st else s.state n := by
  simp only [Kernel.state, Kernel.move, Kernel.push, Kernel.erase, Kernel.setState]
  split
  · cases s.contexts n <;> rfl
  · rfl

theorem Kernel.dependencies_move (s : Kernel α) (source st : ComponentState) (c n : α) :
    (s.move source c st).dependencies n = s.dependencies n := by
  simp only [Kernel.dependencies, Kernel.move, Kernel.push, Kernel.erase, Kernel.setState]
  split
  · cases s.contexts n <;> rfl
  · rfl

theorem Kernel.list_move (s : Kernel α) {source st : ComponentState} (hne : st ≠ source)
    (c : α) (st' : ComponentState) :
    (s.move source c st).list st' =
      if st' = st then s.list st ++ [c]
      else if st' = source then (s.list source).erase c else s.list st' := by
  rw [Kernel.move, Kernel.list_push, Kernel.list_erase, Kernel.list_erase, if_neg hne]
  rfl

omit [DecidableEq α] in
/-- One state more has been entered. -/
theorem Kernel.entered_push {s : Kernel α} (st : ComponentState) (c : α)
    (hiff : ∀ st', st' ∈ s.entered ↔ s.perState st' ≠ none)
    (hbelow : ∀ st' ∈ s.entered, st' ≠ .error → ∀ st'', st''.rank ≤ st'.rank → st'' ∈ s.entered)
    (hst : st ≠ .error → ∀ st', st'.rank < st.rank → st' ∈ s.entered) :
    (∀ st', st' ∈ (s.push st c).entered ↔ (s.push st c).perState st' ≠ none) ∧
      ∀ st' ∈ (s.push st c).entered, st' ≠ .error →
        ∀ st'', st''.rank ≤ st'.rank → st'' ∈ (s.push st c).entered := by
  constructor
  · intro st'
    simp only [Kernel.push, List.mem_cons]
    by_cases h : st' = st
    · simp [h]
    · simp [h, hiff st']
  · intro st' hmem hne st'' hle
    simp only [Kernel.push, List.mem_cons] at hmem ⊢
    rcases hmem with rfl | hmem
    · rcases Nat.lt_or_eq_of_le hle with hlt | heq
      · exact .inr (hst hne st'' hlt)
      · exact .inl (ComponentState.rank_inj heq)
    · exact .inr (hbelow st' hmem hne st'' hle)

theorem Kernel.Core.register {s : Kernel α} (h : s.Core) {c : α} (hc : s.contexts c = none)
    (deps : List α) : (s.register c deps).Core := by
  have hstate : s.state c = none := by rw [Kernel.state, hc]; rfl
  have hfresh : ∀ st, c ∉ s.list st := by
    intro st hmem
    rw [h.listed.mem_iff, hstate] at hmem
    cases hmem
  obtain ⟨hiff, hbelow⟩ := Kernel.entered_push .notInstalled c h.entered_iff
    h.entered_below (fun _ _ hlt => absurd hlt (Nat.not_lt_zero _))
  refine ⟨⟨?_, ?_⟩, ?_, ?_, hiff, hbelow⟩
  · intro n st
    rw [Kernel.list_register, Kernel.state_register]
    by_cases hn : n = c
    · subst hn
      by_cases hst : st = .notInstalled
      · simp [hst]
      · simp [hst, hfresh st, Ne.symm hst]
    · by_cases hst : st = .notInstalled
      · simp [hst, hn, h.listed.mem_iff]
      · simp [hst, hn, h.listed.mem_iff]
  · intro st
    rw [Kernel.list_register]
    split
    · apply List.nodup_append.mpr
      refine ⟨h.listed.nodup st, List.nodup_singleton c, ?_⟩
      rintro n hn m hm rfl
      exact hfresh st (List.mem_singleton.mp hm ▸ hn)
    · exact h.listed.nodup st
  · apply List.nodup_append.mpr
    refine ⟨h.names_nodup, List.nodup_singleton c, ?_⟩
    rintro n hn m hm rfl
    exact (h.names_iff n).mp hn (List.mem_singleton.mp hm ▸ hc)
  · intro n
    simp only [Kernel.register, Kernel.push, List.mem_append, List.mem_singleton, h.names_iff n]
    by_cases hn : n = c
    · simp [hn]
    · simp [hn]

theorem Kernel.Core.setRequired {s : Kernel α} (h : s.Core) (c : α) (target : ComponentState) :
    (s.setRequired c target).Core :=
  h.congr rfl (fun n => Kernel.state_setRequired s c n target) rfl rfl

/-- A context moves up one state, or to `ERROR`. -/
theorem Kernel.Core.move {s : Kernel α} (h : s.Core) {source st : ComponentState} {c : α}
    (hc : s.state c = some source) (hsource : source.rank < 6)
    (hst : st = source.next ∨ st = .error) : (s.move source c st).Core := by
  have hne : st ≠ source := by
    rcases hst with rfl | rfl
    · exact ComponentState.next_ne hsource
    · exact (ComponentState.ne_error hsource).symm
  have hmem := (h.listed.mem_iff c source).mpr hc
  have hentered : source ∈ s.entered := by
    rw [h.entered_iff]
    intro hnone
    rw [Kernel.list, hnone] at hmem
    cases hmem
  have herase : ∀ st', st' ∈ ((s.setState c st).erase source c).entered ↔
      ((s.setState c st).erase source c).perState st' ≠ none := by
    intro st'
    refine (h.entered_iff st').trans ?_
    simp only [Kernel.erase, Kernel.setState]
    split
    · next heq => subst heq; cases s.perState st' <;> simp
    · exact Iff.rfl
  have hst' : st ≠ .error → ∀ st', st'.rank < st.rank → st' ∈ s.entered := by
    intro herr st' hlt
    rcases hst with rfl | rfl
    · rw [ComponentState.rank_next hsource] at hlt
      apply h.entered_below source hentered (ComponentState.ne_error hsource)
      exact Nat.le_of_lt_succ hlt
    · exact absurd rfl herr
  obtain ⟨hiff, hbelow⟩ := Kernel.entered_push _ c herase h.entered_below hst'
  refine ⟨⟨?_, ?_⟩, h.names_nodup, ?_, hiff, hbelow⟩
  · intro n st'
    rw [Kernel.list_move s hne, Kernel.state_move]
    by_cases hn : n = c
    · subst hn
      rw [if_pos rfl, hc]
      by_cases hst' : st' = st
      · simp [hst']
      · by_cases hsrc : st' = source
        · subst hsrc
          simp [hst', Ne.symm hst', (h.listed.nodup st').mem_erase_iff]
        · simp [hst', hsrc, Ne.symm hst', h.listed.mem_iff, hc, Ne.symm hsrc]
    · rw [if_neg hn, ← h.listed.mem_iff]
      by_cases hst' : st' = st
      · simp [hst', hn]
      · by_cases hsrc : st' = source
        · subst hsrc
          simp [hst', List.mem_erase_of_ne hn]
        · simp [hst', hsrc]
  · intro st'
    rw [Kernel.list_move s hne]
    split
    · apply List.nodup_append.mpr
      refine ⟨h.listed.nodup st, List.nodup_singleton c, ?_⟩
      rintro n hn m hm rfl
      rw [List.mem_singleton.mp hm, h.listed.mem_iff, hc] at hn
      exact hne (Option.some.inj hn).symm
    · split
      · exact (h.listed.nodup source).erase c
      · exact h.listed.nodup st'
  · intro n
    rw [show (s.move source c st).names = s.names from rfl, h.names_iff, not_iff_not]
    simp only [Kernel.move, Kernel.push, Kernel.erase, Kernel.setState]
    split
    · rw [Option.map_eq_none_iff]
    · exact Iff.rfl

theorem Kernel.Grows.register {s : Kernel α} {c : α} (hc : s.contexts c = none) (deps : List α) :
    s.Grows (s.register c deps) where
  state := by
    intro n st hn
    have hne : n ≠ c := by
      rintro rfl
      exact Kernel.state_ne_none hn hc
    rw [Kernel.state_register, if_neg hne, hn]
  dependencies := by
    intro n hn
    have hne : n ≠ c := by
      rintro rfl
      exact hn hc
    simp only [Kernel.dependencies, Kernel.register, Kernel.push]
    rw [if_neg hne]
  lists := by
    intro st
    rw [Kernel.list_register]
    split
    · exact List.prefix_append ..
    · exact List.prefix_rfl
  fresh := by
    intro n st hn hst
    rw [Kernel.state_register] at hst
    split at hst
    · exact (Option.some.inj hst).symm
    · exact absurd hn (Kernel.state_ne_none hst)
  pc := .inl ⟨rfl, rfl⟩

/-- The requirement of a context is set, and `resolve` may begin. -/
theorem Kernel.Grows.setRequired {s s' : Kernel α} {c : α} {target : ComponentState}
    (hcontexts : s'.contexts = (s.setRequired c target).contexts)
    (hper : s'.perState = s.perState)
    (hpc : s'.pc = s.pc ∧ s'.installing = s.installing ∨
      s'.pc = .visit .notInstalled ∧ s'.installing = true ∧ s.installing = false) :
    s.Grows s' where
  state := by
    intro n st hn
    rw [Kernel.state, hcontexts]
    exact (Kernel.state_setRequired s c n target).trans hn
  dependencies := by
    intro n _
    rw [Kernel.dependencies, hcontexts]
    exact Kernel.dependencies_setRequired s c n target
  lists := by
    intro st
    simp only [Kernel.list, hper, List.prefix_rfl]
  fresh := by
    intro n st hnone hn
    rw [Kernel.state, hcontexts] at hn
    replace hn := (Kernel.state_setRequired s c n target).symm.trans hn
    exact absurd hnone (Kernel.state_ne_none hn)
  pc := hpc

end Updates

section Requests

/-! ## Install and change -/

variable [DecidableEq α]

/-- What `change` does. -/
theorem Kernel.change_cases {s s' : Kernel α} {c : α} {target : ComponentState}
    (h : s.change c target = some s') :
    s' = s ∧ s.state c = some target ∨
      s.installing = true ∧ s' = { s.setRequired c target with changed := true } ∨
      s.installing = false ∧ s' = (s.setRequired c target).restart := by
  unfold Kernel.change at h
  cases hctxt : s.contexts c with
  | none => rw [hctxt] at h; cases h
  | some ctxt =>
    rw [hctxt] at h
    simp only at h
    split at h
    · next htarget =>
      cases h
      exact .inl ⟨rfl, by rw [Kernel.state, hctxt, Option.map_some, htarget]⟩
    · split at h
      · cases h
      · cases hinst : s.installing with
        | true =>
          rw [hinst, if_pos rfl] at h
          exact .inr (.inl ⟨rfl, (Option.some.inj h).symm⟩)
        | false =>
          rw [hinst, if_neg Bool.false_ne_true] at h
          exact .inr (.inr ⟨rfl, (Option.some.inj h).symm⟩)

theorem Kernel.change_self {s : Kernel α} {c : α} {st : ComponentState}
    (h : s.state c = some st) : s.change c st = some s := by
  unfold Kernel.change
  cases hctxt : s.contexts c with
  | none => exact absurd hctxt (Kernel.state_ne_none h)
  | some ctxt =>
    rw [Kernel.state, hctxt] at h
    exact if_pos (Option.some.inj h)

theorem Kernel.Core.change {s s' : Kernel α} (h : s.Core) {c : α} {target : ComponentState}
    (hchange : s.change c target = some s') : s'.Core ∧ s.Grows s' := by
  rcases Kernel.change_cases hchange with ⟨rfl, -⟩ | ⟨hinst, rfl⟩ | ⟨hinst, rfl⟩
  · exact ⟨h, Kernel.Grows.refl _⟩
  · exact ⟨(h.setRequired c target).congr rfl (fun _ => rfl) rfl rfl,
      Kernel.Grows.setRequired rfl rfl (.inl ⟨rfl, rfl⟩)⟩
  · exact ⟨(h.setRequired c target).congr rfl (fun _ => rfl) rfl rfl,
      Kernel.Grows.setRequired rfl rfl (.inr ⟨rfl, rfl, hinst⟩)⟩

theorem Kernel.installContext_cases {s s' : Kernel α} {c : α} {deps : List α}
    {target : ComponentState} (h : s.installContext c deps target = some s') :
    s.contexts c = none ∧ (s.register c deps).change c target = some s' := by
  unfold Kernel.installContext at h
  cases hc : s.contexts c with
  | none => exact ⟨rfl, by rwa [hc] at h⟩
  | some ctxt => rw [hc] at h; cases h

theorem Kernel.Core.installContext {s s' : Kernel α} (h : s.Core) {c : α} {deps : List α}
    {target : ComponentState} (hinstall : s.installContext c deps target = some s') :
    s'.Core ∧ s.Grows s' := by
  obtain ⟨hc, hchange⟩ := Kernel.installContext_cases hinstall
  obtain ⟨hcore, hgrows⟩ := (h.register hc deps).change hchange
  exact ⟨hcore, (Kernel.Grows.register hc deps).trans hgrows⟩

/-- The context the first deployer that knows `name` would bring in. -/
def Kernel.undeploy (s : Kernel α) (name : α) : Kernel α :=
  { s with uninstalled := s.uninstalled.eraseP (·.1 = name) }

/-- A deployer brings a context in, and then its state is to change. -/
theorem Kernel.install_cases {s s' : Kernel α} {name : α} {target : ComponentState}
    (h : s.install name target = some s') :
    s.contexts name = none ∧ ∃ deps, (name, deps) ∈ s.uninstalled ∧
      ((s.undeploy name).register name deps).change name target = some s' := by
  unfold Kernel.install at h
  cases hname : s.contexts name with
  | some ctxt => rw [hname] at h; cases h
  | none =>
    rw [hname] at h
    obtain ⟨s₁, hdeploy, hchange⟩ := Option.bind_eq_some_iff.mp h
    unfold Kernel.deploy at hdeploy
    cases hfind : s.uninstalled.find? (·.1 = name) with
    | none => rw [hfind] at hdeploy; cases hdeploy
    | some d =>
      rw [hfind] at hdeploy
      obtain ⟨-, hregister⟩ := Kernel.installContext_cases hdeploy
      rw [Kernel.change_self (by rw [Kernel.state_register, if_pos rfl])] at hregister
      cases hregister
      have hd : d.1 = name := by simpa using List.find?_some hfind
      refine ⟨rfl, d.2, ?_, hchange⟩
      rw [← hd]
      exact List.mem_of_find?_eq_some hfind

theorem Kernel.Core.install {s s' : Kernel α} (h : s.Core) {name : α} {target : ComponentState}
    (hinstall : s.install name target = some s') : s'.Core ∧ s.Grows s' := by
  obtain ⟨hnone, deps, -, hchange⟩ := Kernel.install_cases hinstall
  have hundeploy : (s.undeploy name).Core := h.congr rfl (fun _ => rfl) rfl rfl
  obtain ⟨hcore, hgrows⟩ := (hundeploy.register hnone deps).change hchange
  have hgrows' : s.Grows (s.undeploy name) :=
    ⟨fun _ _ h => h, fun _ _ => rfl, fun _ => List.prefix_rfl,
      fun _ _ hnone h => absurd hnone (Kernel.state_ne_none h), .inl ⟨rfl, rfl⟩⟩
  have hregister := Kernel.Grows.register (s := s.undeploy name) hnone deps
  exact ⟨hcore, (hgrows'.trans hregister).trans hgrows⟩

theorem Kernel.Core.request {s : Kernel α} (h : s.Core) (r : Request α) :
    (s.request r).Core ∧ s.Grows (s.request r) := by
  have hgetD : ∀ o : Option (Kernel α), (∀ s', o = some s' → s'.Core ∧ s.Grows s') →
      (o.getD s).Core ∧ s.Grows (o.getD s) := by
    intro o ho
    cases o with
    | none => exact ⟨h, Kernel.Grows.refl s⟩
    | some s' => exact ho s' rfl
  cases r with
  | installContext c deps target => exact hgetD _ fun s' hs' => h.installContext hs'
  | install name target => exact hgetD _ fun s' hs' => h.install hs'
  | change c target => exact hgetD _ fun s' hs' => h.change hs'
  | attachDeployer known =>
    exact ⟨h.congr rfl (fun _ => rfl) rfl rfl, fun _ _ h => h, fun _ _ => rfl,
      fun _ => List.prefix_rfl, fun _ _ hnone h => absurd hnone (Kernel.state_ne_none h),
      .inl ⟨rfl, rfl⟩⟩

end Requests

section Dependencies

/-! ## Asking a context for its dependencies -/

variable [DecidableEq α]

/-- An install while `resolve` runs is remembered. -/
theorem Kernel.install_changed {s s' : Kernel α} (hinst : s.installing = true) {name : α}
    (h : s.install name .installed = some s') : s'.changed = true := by
  obtain ⟨-, deps, -, hchange⟩ := Kernel.install_cases h
  rcases Kernel.change_cases hchange with ⟨-, hstate⟩ | ⟨-, rfl⟩ | ⟨hidle, -⟩
  · rw [Kernel.state_register, if_pos rfl] at hstate
    cases hstate
  · rfl
  · rw [show ((s.undeploy name).register name deps).installing = s.installing from rfl, hinst]
      at hidle
    cases hidle

/-- A context is ready, or one of its dependencies is not installed, which may have been
brought in. -/
theorem Kernel.resolveContext_cases {s s' : Kernel α} {ds : List α} {ok : Bool}
    (h : s.resolveContext ds = some (s', ok)) :
    ok = true ∧ s' = s ∧ (∀ d ∈ ds, s.state d = some .installed) ∨
      ok = false ∧ ∃ d ∈ ds, s.state d ≠ some .installed ∧
        (s' = s ∨ s.install d .installed = some s') := by
  induction ds with
  | nil =>
    cases h
    exact .inl ⟨rfl, rfl, nofun⟩
  | cons d ds ih =>
    simp only [Kernel.resolveContext, Kernel.resolveDependency] at h
    cases hd : s.contexts d with
    | none =>
      rw [hd] at h
      have hstate : s.state d ≠ some .installed := fun heq => Kernel.state_ne_none heq hd
      cases hinstall : s.install d .installed with
      | none => rw [hinstall] at h; cases h
      | some s₁ =>
        rw [hinstall] at h
        cases h
        exact .inr ⟨rfl, d, List.mem_cons_self, hstate, .inr hinstall⟩
    | some ctxt =>
      rw [hd] at h
      have hstate : s.state d = some ctxt.state := by rw [Kernel.state, hd]; rfl
      by_cases hinst : ctxt.state = .installed
      · rw [hinst] at hstate
        simp only [hinst, decide_true] at h
        rcases ih h with ⟨hok, heq, hall⟩ | ⟨hok, d', hd', hrest⟩
        · refine .inl ⟨hok, heq, fun d' hd' => ?_⟩
          rcases List.mem_cons.mp hd' with rfl | hd'
          · exact hstate
          · exact hall d' hd'
        · exact .inr ⟨hok, d', List.mem_cons_of_mem d hd', hrest⟩
      · simp only [hinst, decide_false] at h
        cases h
        refine .inr ⟨rfl, d, List.mem_cons_self, ?_, .inl rfl⟩
        rw [hstate]
        exact fun heq => hinst (Option.some.inj heq)

/-- Asking keeps what is there; and if nothing was remembered then nothing has happened. -/
theorem Kernel.Core.resolveContext {s s' : Kernel α} (h : s.Core) (hinst : s.installing = true)
    {ds : List α} {ok : Bool} (hres : s.resolveContext ds = some (s', ok)) :
    s'.Core ∧ s.Grows s' ∧ (s' = s ∨ s'.changed = true) := by
  rcases Kernel.resolveContext_cases hres with ⟨-, rfl, -⟩ | ⟨-, d, -, -, rfl | hinstall⟩
  · exact ⟨h, .refl s', .inl rfl⟩
  · exact ⟨h, .refl s', .inl rfl⟩
  · obtain ⟨hcore, hgrows⟩ := h.install hinstall
    exact ⟨hcore, hgrows, .inr (Kernel.install_changed hinst hinstall)⟩

end Dependencies

end Nox.Components

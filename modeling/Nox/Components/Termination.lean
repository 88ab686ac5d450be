import Mathlib.Algebra.GroupWithZero.Nat
import Nox.Components.Resolve
import Mathlib.Algebra.Order.BigOperators.Group.List
import Mathlib.Algebra.Order.Group.Nat

/-!
# `resolve` comes to an end

What the contexts have before them can only become less: a context moves up or into
`ERROR`, and one that a deployer brings in is no longer to be brought in.  Between
two such events `resolve` passes at most twice over all contexts.  So a run is no
longer than what was asked of the kernel allows.
-/

namespace Nox.Components

variable {α : Type}

section Potential

/-- The contexts in the kernel and with its deployers. -/
def Kernel.total (s : Kernel α) : Nat :=
  s.names.length + s.uninstalled.length

/-- What a context has before it. -/
def Kernel.ahead (s : Kernel α) (c : α) : Nat :=
  (s.state c).elim 0 fun st => 6 - st.rank

/-- What all contexts have before them. -/
def Kernel.left (s : Kernel α) : Nat :=
  (s.names.map s.ahead).sum + 7 * s.uninstalled.length

/-- What may still happen before the next event, if passing over one state is worth `k`
and there are `n` contexts. -/
def Pc.cost (k n : Nat) : Pc α → Nat
  | .idle => 0
  | .crashed => 0
  | .visit source => (6 - source.rank) * k
  | .scan source i _ => (5 - source.rank) * k + (n + 1 - i) + (2 * n + 1)
  | .batch _ [] => 6 * k + 1
  | .batch _ (_ :: rest) => 2 * (rest.length + 1)
  | .acting _ _ rest => 2 * rest.length + 1

/-- What may still happen apart from where `resolve` is. -/
def Kernel.base (k : Nat) (s : Kernel α) : Nat :=
  12 * k * s.left + if s.changed then 6 * k else 0

def Kernel.potential (k : Nat) (s : Kernel α) : Nat :=
  s.base k + s.pc.cost k s.total

/-- What is ahead of the contexts pays for the change of a requirement. -/
theorem Kernel.base_le {s s' : Kernel α} (k : Nat) (h : s'.left + 1 ≤ s.left) :
    s'.base k ≤ s.base k := by
  have hle := Nat.mul_le_mul_left (12 * k) h
  rw [Nat.mul_add, Nat.mul_one] at hle
  simp only [Kernel.base]
  split <;> split <;> omega

/-- And more where none is changed. -/
theorem Kernel.base_add_le {s s' : Kernel α} (k : Nat) (h : s'.left + 1 ≤ s.left)
    (hchanged : s'.changed = s.changed) : s'.base k + 12 * k ≤ s.base k := by
  have hle := Nat.mul_le_mul_left (12 * k) h
  rw [Nat.mul_add, Nat.mul_one] at hle
  rw [Kernel.base, Kernel.base, hchanged]
  omega

end Potential

section Updates

variable [DecidableEq α]

theorem Kernel.left_register {s : Kernel α} (h : s.Core) {c : α} (hc : s.contexts c = none)
    (deps : List α) : (s.register c deps).left = s.left + 6 := by
  have hmap : s.names.map (s.register c deps).ahead = s.names.map s.ahead := by
    apply List.map_congr_left
    intro n hn
    have hne : n ≠ c := by
      rintro rfl
      exact (h.names_iff n).mp hn hc
    rw [Kernel.ahead, Kernel.ahead, Kernel.state_register, if_neg hne]
  have hnew : (s.register c deps).ahead c = 6 := by
    rw [Kernel.ahead, Kernel.state_register, if_pos rfl]
    rfl
  have hnames : (s.register c deps).names = s.names ++ [c] := rfl
  have huninstalled : (s.register c deps).uninstalled = s.uninstalled := rfl
  rw [Kernel.left, Kernel.left, hnames, huninstalled, List.map_append, hmap, List.sum_append]
  simp only [List.map_cons, List.map_nil, List.sum_cons, List.sum_nil, hnew]
  omega

theorem Kernel.total_register (s : Kernel α) (c : α) (deps : List α) :
    (s.register c deps).total = s.total + 1 := by
  have hlength : (s.register c deps).names.length = s.names.length + 1 := List.length_append
  have huninstalled : (s.register c deps).uninstalled = s.uninstalled := rfl
  rw [Kernel.total, Kernel.total, hlength, huninstalled]
  omega

theorem Kernel.length_undeploy {s : Kernel α} {name : α} {deps : List α}
    (h : (name, deps) ∈ s.uninstalled) :
    (s.undeploy name).uninstalled.length + 1 = s.uninstalled.length := by
  have hpos := List.length_pos_of_mem h
  have hlength := List.length_eraseP_of_mem (p := fun d : α × List α => d.1 = name) h
    (decide_eq_true rfl)
  rw [Kernel.undeploy, hlength]
  omega

theorem Kernel.left_undeploy {s : Kernel α} {name : α} {deps : List α}
    (h : (name, deps) ∈ s.uninstalled) : (s.undeploy name).left + 7 = s.left := by
  have hlength := Kernel.length_undeploy h
  have hahead : (s.undeploy name).ahead = s.ahead := rfl
  rw [Kernel.left, Kernel.left, hahead]
  show (s.names.map s.ahead).sum + _ + 7 = _
  omega

/-- A context that moves has less before it. -/
theorem Kernel.left_move {s : Kernel α} (h : s.Core) {source st : ComponentState} {c : α}
    (hc : s.state c = some source) (hsource : source.rank < 6)
    (hst : st = source.next ∨ st = .error) : (s.move source c st).left + 1 ≤ s.left := by
  have hmem : c ∈ s.names := (h.names_iff c).mpr (Kernel.state_ne_none hc)
  have hrank : source.rank < st.rank := by
    rcases hst with rfl | rfl
    · rw [ComponentState.rank_next hsource]
      exact Nat.lt_succ_self _
    · exact Nat.lt_succ_of_lt hsource
  have hlt : (s.move source c st).ahead c < s.ahead c := by
    rw [Kernel.ahead, Kernel.ahead, Kernel.state_move, if_pos rfl, hc]
    show 6 - st.rank < 6 - source.rank
    omega
  have hle : ∀ n ∈ s.names, (s.move source c st).ahead n ≤ s.ahead n := by
    intro n _
    by_cases hn : n = c
    · rw [hn]
      exact Nat.le_of_lt hlt
    · rw [Kernel.ahead, Kernel.ahead, Kernel.state_move, if_neg hn]
  have hsum := List.sum_lt_sum _ _ hle ⟨c, hmem, hlt⟩
  have hnames : (s.move source c st).names = s.names := rfl
  have huninstalled : (s.move source c st).uninstalled = s.uninstalled := rfl
  rw [Kernel.left, Kernel.left, hnames, huninstalled]
  omega

theorem Kernel.left_setRequired (s : Kernel α) (c : α) (target : ComponentState) :
    (s.setRequired c target).left = s.left := by
  have hahead : (s.setRequired c target).ahead = s.ahead := by
    funext n
    rw [Kernel.ahead, Kernel.ahead, Kernel.state_setRequired]
  rw [Kernel.left, hahead]
  rfl

end Updates

section Requests

variable [DecidableEq α]

theorem Kernel.change_left {s s' : Kernel α} {c : α} {target : ComponentState}
    (h : s.change c target = some s') : s'.left = s.left ∧ s'.total = s.total := by
  rcases Kernel.change_cases h with ⟨rfl, -⟩ | ⟨-, rfl⟩ | ⟨-, rfl⟩
  · exact ⟨rfl, rfl⟩
  · exact ⟨Kernel.left_setRequired s c target, rfl⟩
  · exact ⟨Kernel.left_setRequired s c target, rfl⟩

theorem Kernel.install_left {s s' : Kernel α} (h : s.Core) {name : α} {target : ComponentState}
    (hinstall : s.install name target = some s') :
    s'.left + 1 = s.left ∧ s'.total = s.total := by
  obtain ⟨hnone, deps, hmem, hchange⟩ := Kernel.install_cases hinstall
  have hcore : (s.undeploy name).Core := h.congr rfl (fun _ => rfl) rfl rfl
  obtain ⟨hleft, htotal⟩ := Kernel.change_left hchange
  have hregister := Kernel.left_register hcore hnone deps
  have hundeploy := Kernel.left_undeploy hmem
  have hlength := Kernel.length_undeploy hmem
  rw [Kernel.total_register] at htotal
  refine ⟨by omega, ?_⟩
  rw [htotal, Kernel.total, Kernel.total, ← hlength]
  show s.names.length + _ + 1 = _
  omega

/-- How many contexts a request may bring in. -/
def Request.fresh : Request α → Nat
  | .installContext _ _ _ => 1
  | .attachDeployer known => known.length
  | _ => 0

theorem Kernel.request_left {s : Kernel α} (h : s.Core) (r : Request α) :
    (s.request r).left ≤ s.left + 7 * r.fresh ∧ (s.request r).total ≤ s.total + r.fresh := by
  have hgetD : ∀ (o : Option (Kernel α)) (n : Nat),
      (∀ s', o = some s' → s'.left ≤ s.left + 7 * n ∧ s'.total ≤ s.total + n) →
      (o.getD s).left ≤ s.left + 7 * n ∧ (o.getD s).total ≤ s.total + n := by
    intro o n ho
    cases o with
    | none => exact ⟨Nat.le_add_right .., Nat.le_add_right ..⟩
    | some s' => exact ho s' rfl
  cases r with
  | installContext c deps target =>
    apply hgetD _ 1
    intro s' hs'
    obtain ⟨hc, hchange⟩ := Kernel.installContext_cases hs'
    obtain ⟨hleft, htotal⟩ := Kernel.change_left hchange
    rw [hleft, htotal, Kernel.left_register h hc, Kernel.total_register]
    exact ⟨Nat.add_le_add_left (Nat.le_succ 6) _, Nat.le_refl _⟩
  | install name target =>
    apply hgetD _ 0
    intro s' hs'
    obtain ⟨hleft, htotal⟩ := Kernel.install_left h hs'
    omega
  | change c target =>
    apply hgetD _ 0
    intro s' hs'
    obtain ⟨hleft, htotal⟩ := Kernel.change_left hs'
    omega
  | attachDeployer known =>
    have hlength : (s.uninstalled ++ known).length = s.uninstalled.length + known.length :=
      List.length_append
    constructor
    · show (s.names.map s.ahead).sum + 7 * (s.uninstalled ++ known).length ≤ _
      rw [hlength, Kernel.left]
      show _ ≤ _ + 7 * known.length
      omega
    · show s.names.length + (s.uninstalled ++ known).length ≤ _
      rw [hlength, Kernel.total]
      show _ ≤ _ + known.length
      omega

omit [DecidableEq α] in
theorem Pc.cost_foreign {pc : Pc α} (h : pc.foreign = true) (k n n' : Nat) :
    pc.cost k n = pc.cost k n' := by
  cases pc <;> first | rfl | cases h

/-- What a request may cause. -/
theorem Kernel.request_potential {s : Kernel α} (h : s.Core) (hforeign : s.pc.foreign = true)
    (r : Request α) (k : Nat) :
    (s.request r).potential k ≤ s.potential k + 84 * k * r.fresh + 12 * k := by
  obtain ⟨-, hgrows⟩ := h.request r
  have hleft := Nat.mul_le_mul_left (12 * k) (Kernel.request_left h r).1
  have hfresh : 12 * k * (7 * r.fresh) = 84 * k * r.fresh := by
    rw [← Nat.mul_assoc, Nat.mul_right_comm 12 k 7]
  rw [Nat.mul_add, hfresh] at hleft
  have hbase : (s.request r).base k ≤ s.base k + 84 * k * r.fresh + 6 * k := by
    simp only [Kernel.base]
    split <;> split <;> omega
  have hcost : (s.request r).pc.cost k (s.request r).total ≤ s.pc.cost k s.total + 6 * k := by
    rcases hgrows.pc with ⟨hpc, -⟩ | ⟨hpc, -⟩
    · rw [hpc, Pc.cost_foreign hforeign k _ s.total]
      exact Nat.le_add_right ..
    · rw [hpc]
      show (6 - 0) * k ≤ _
      omega
  simp only [Kernel.potential]
  omega

end Requests

section Steps

variable [DecidableEq α]

omit [DecidableEq α] in
theorem Kernel.Core.length_list_le {s : Kernel α} (h : s.Core) (st : ComponentState) :
    (s.list st).length ≤ s.total := by
  have hsub : s.list st ⊆ s.names := fun c hc =>
    (h.names_iff c).mpr (Kernel.state_ne_none ((h.listed.mem_iff c st).mp hc))
  have hle := (List.subperm_of_subset (h.listed.nodup st) hsub).length_le
  exact Nat.le_trans hle (Nat.le_add_right ..)

section Costs

variable {s : Kernel α} {k : Nat}

omit [DecidableEq α] in
/-- Going on costs what lies between the two places. -/
theorem Kernel.potential_pc {pc : Pc α} (h : pc.cost k s.total + 1 ≤ s.pc.cost k s.total) :
    ({ s with pc } : Kernel α).potential k + 1 ≤ s.potential k ∧
      ({ s with pc } : Kernel α).total = s.total := by
  refine ⟨?_, rfl⟩
  show s.base k + pc.cost k s.total + 1 ≤ s.base k + s.pc.cost k s.total
  omega

omit [DecidableEq α] in
/-- Starting again is paid by a change, or by what has been resolved. -/
theorem Kernel.potential_restart
    (h : s.changed = true ∧ 1 ≤ s.pc.cost k s.total ∨ 6 * k + 1 ≤ s.pc.cost k s.total) :
    s.restart.potential k + 1 ≤ s.potential k ∧ s.restart.total = s.total := by
  refine ⟨?_, rfl⟩
  show 12 * k * s.left + 0 + (6 - 0) * k + 1 ≤
    12 * k * s.left + (if s.changed then 6 * k else 0) + s.pc.cost k s.total
  rcases h with ⟨hchanged, hcost⟩ | hcost
  · rw [if_pos hchanged]
    omega
  · omega

omit [DecidableEq α] in
theorem visit_cost {source : ComponentState} (h : source.rank < 6) (k : Nat) :
    (6 - source.rank) * k = (5 - source.rank) * k + k := by
  rw [← Nat.succ_mul]
  congr 1
  omega

theorem Kernel.base_resolveContext {s₁ : Kernel α} {deps : List α} {ok : Bool} (h : s.Core)
    (hres : s.resolveContext deps = some (s₁, ok)) (k : Nat) :
    s₁.base k ≤ s.base k ∧ s₁.total = s.total := by
  rcases Kernel.resolveContext_cases hres with ⟨-, rfl, -⟩ | ⟨-, d, -, -, rfl | hinstall⟩
  · exact ⟨Nat.le_refl _, rfl⟩
  · exact ⟨Nat.le_refl _, rfl⟩
  · obtain ⟨hleft, htotal⟩ := Kernel.install_left h hinstall
    exact ⟨Kernel.base_le k (Nat.le_of_eq hleft), htotal⟩

omit [DecidableEq α] in
theorem Kernel.advance_potential {source : ComponentState} (hsource : source.rank < 6)
    (hcost : (5 - source.rank) * k + 1 ≤ s.pc.cost k s.total) :
    (s.advance source).potential k + 1 ≤ s.potential k ∧ (s.advance source).total = s.total := by
  unfold Kernel.advance
  split
  · split
    · next hchanged => exact Kernel.potential_restart (.inl ⟨hchanged, by omega⟩)
    · refine ⟨?_, rfl⟩
      show s.base k + 0 + 1 ≤ s.base k + _
      omega
  · refine Kernel.potential_pc ?_
    have hnext : (6 - source.next.rank) * k = (5 - source.rank) * k := by
      rw [ComponentState.rank_next hsource]
      congr 1
      omega
    rw [Pc.cost, hnext]
    exact hcost

end Costs

theorem Kernel.tick_potential {s s' : Kernel α} (h : s.Inv) (htick : s.tick = some s') {k : Nat}
    (hk : 3 * s.total + 3 ≤ k) :
    s'.potential k + 1 ≤ s.potential k ∧ s'.total = s.total := by
  have hat := h.pc
  cases Kernel.tick_cases htick with
  | absent source hpc hlist =>
    rw [hpc] at hat
    refine Kernel.potential_pc ?_
    rw [hpc, Pc.cost, Pc.cost, visit_cost hat.2.1]
    omega
  | visit source l hpc hlist =>
    rw [hpc] at hat
    refine Kernel.potential_pc ?_
    rw [hpc, Pc.cost, Pc.cost, visit_cost hat.2.1]
    omega
  | throws source i resolved hpc =>
    refine Kernel.potential_pc ?_
    rw [hpc, Pc.cost, Pc.cost]
    omega
  | ask source i resolved c s₁ ok hpc hc hres =>
    have hlt : i < s.total := by
      obtain ⟨hlt, -⟩ := List.getElem?_eq_some_iff.mp hc
      exact Nat.lt_of_lt_of_le hlt (h.core.length_list_le source)
    obtain ⟨hbase, htotal⟩ := Kernel.base_resolveContext h.core hres k
    refine ⟨?_, htotal⟩
    show s₁.base k + ((5 - source.rank) * k + (s₁.total + 1 - (i + 1)) + (2 * s₁.total + 1)) + 1 ≤
      s.base k + s.pc.cost k s.total
    rw [hpc, Pc.cost, htotal]
    omega
  | advance source i hpc hend =>
    rw [hpc] at hat
    obtain ⟨-, hsource, -⟩ := hat
    refine Kernel.advance_potential hsource ?_
    rw [hpc, Pc.cost]
    omega
  | resolved source i c rest hpc hend =>
    rw [hpc] at hat
    obtain ⟨-, -, -, hi, hsub, -⟩ := hat
    have hlength : rest.length + 1 ≤ s.total := by
      have hle := (hsub.trans (List.take_sublist ..)).length_le
      exact Nat.le_trans hle (h.core.length_list_le source)
    have hi' := Nat.le_trans hi (h.core.length_list_le source)
    refine Kernel.potential_pc ?_
    rw [hpc, Pc.cost, Pc.cost]
    omega
  | restart source hpc =>
    refine Kernel.potential_restart (.inr ?_)
    rw [hpc, Pc.cost]
  | install source c rest hpc =>
    refine Kernel.potential_pc ?_
    rw [hpc, Pc.cost, Pc.cost]
    omega

theorem Kernel.act_potential {s s' : Kernel α} (h : s.Inv) {outcome : Outcome}
    (hact : s.act outcome = some s') {k : Nat} (hk : 3 * s.total + 3 ≤ k) :
    s'.potential k + 1 ≤ s.potential k ∧ s'.total = s.total := by
  have hat := h.pc
  cases Kernel.act_cases hact with
  | moves source c rest st hpc hst =>
    rw [hpc] at hat
    obtain ⟨-, hsource, hmoving⟩ := hat
    have hleft := Kernel.left_move h.core (hmoving.2 c List.mem_cons_self).1 hsource hst
    have hbase := Kernel.base_add_le k hleft rfl
    refine ⟨?_, rfl⟩
    show (s.move source c st).base k + Pc.cost k s.total (.batch source rest) + 1 ≤
      s.base k + s.pc.cost k s.total
    rw [hpc]
    cases rest with
    | nil =>
      show _ + (6 * k + 1) + 1 ≤ _ + (2 * 0 + 1)
      omega
    | cons c' rest =>
      show _ + 2 * (rest.length + 1) + 1 ≤ _ + (2 * (rest.length + 1) + 1)
      omega
  | throws source c rest hpc =>
    refine ⟨?_, rfl⟩
    show s.base k + 0 + 1 ≤ s.base k + s.pc.cost k s.total
    rw [hpc, Pc.cost]
    omega

end Steps

section Runs

/-! ## The length of a run -/

variable [DecidableEq α]

/-- What was asked for in a run. -/
def requests (ls : List (Label α)) : List (Request α) :=
  ls.filterMap fun
    | .request r => some r
    | _ => none

/-- The contexts a list of requests may bring in. -/
def freshContexts (rs : List (Request α)) : Nat :=
  (rs.map Request.fresh).sum

/-- No run with these requests is longer. -/
def bound (rs : List (Request α)) : Nat :=
  let k := 3 * freshContexts rs + 3
  rs.length + (84 * k * freshContexts rs + 12 * k * rs.length)

/-- Every step that is not a request takes something off the potential. -/
theorem Kernel.Inv.length_run {s s' : Kernel α} (h : s.Inv) {ls : List (Label α)} {k : Nat}
    (hk : 3 * (s.total + freshContexts (requests ls)) + 3 ≤ k) (hrun : s.run ls = some s') :
    ls.length + s'.potential k ≤ s.potential k + (requests ls).length +
      (84 * k * freshContexts (requests ls) + 12 * k * (requests ls).length) := by
  induction ls generalizing s with
  | nil =>
    cases hrun
    show 0 + _ ≤ _
    omega
  | cons l ls ih =>
    obtain ⟨s₁, hstep, hrest⟩ := Option.bind_eq_some_iff.mp hrun
    have hinv := h.step hstep
    have hother : ∀ (_ : requests (l :: ls) = requests ls)
        (_ : s₁.potential k + 1 ≤ s.potential k ∧ s₁.total = s.total),
        (l :: ls).length + s'.potential k ≤ s.potential k + (requests (l :: ls)).length +
          (84 * k * freshContexts (requests (l :: ls)) +
            12 * k * (requests (l :: ls)).length) := by
      intro hreq hpot
      rw [hreq] at hk ⊢
      have hle := ih hinv (by rw [hpot.2]; exact hk) hrest
      rw [List.length_cons]
      omega
    cases l with
    | request r =>
      simp only [Kernel.step] at hstep
      split at hstep
      · next hforeign =>
        cases hstep
        have hpot := Kernel.request_potential h.core hforeign r k
        have htotal := (Kernel.request_left h.core r).2
        have hreq : requests (.request r :: ls) = r :: requests ls := rfl
        have hfresh : freshContexts (r :: requests ls) = r.fresh + freshContexts (requests ls) := by
          rw [freshContexts, List.map_cons, List.sum_cons]
          rfl
        rw [hreq, hfresh] at hk ⊢
        have hle := ih hinv (by omega) hrest
        rw [List.length_cons, List.length_cons, Nat.mul_add, Nat.mul_add]
        omega
      · cases hstep
    | tick => exact hother rfl (Kernel.tick_potential h hstep (by omega))
    | act outcome => exact hother rfl (Kernel.act_potential h hstep (by omega))

/-- What is asked of a kernel bounds what it does. -/
theorem Kernel.length_run_le {s : Kernel α} {ls : List (Label α)}
    (hrun : Kernel.init.run ls = some s) : ls.length ≤ bound (requests ls) := by
  have hzero : (Kernel.init (α := α)).potential (3 * freshContexts (requests ls) + 3) = 0 := rfl
  have htotal : (Kernel.init (α := α)).total = 0 := rfl
  have hle := Kernel.Inv.init.length_run (k := 3 * freshContexts (requests ls) + 3)
    (by rw [htotal]; omega) hrun
  rw [hzero] at hle
  show _ ≤ (requests ls).length + _
  omega

end Runs

end Nox.Components

import Nox.Classify.Ownership
import Nox.Classify.Failure

/-!
# Building until memory runs out

A call that may throw returns what the one with memory enough returns, or throws, and then
what stays is `Left`: a copy holds no other rules than before, at addresses no rule points at,
and the tree has been rebuilt as far as the call has come.
-/

namespace Nox.Classify

open Cnode

variable {V : View} {isCopy : Bool}

section Values

/-! ## The value of a node stays -/

theorem value_tryAddRule {r fresh path n : Nat} (c : Cnode) :
    (c.tryAddRule V r fresh path n).1.value = c.value := by
  cases c with
  | leaf a v rs => rfl
  | split a v rs f bs any =>
    rw [Cnode.tryAddRule]
    split
    · split <;> rfl
    · rfl

theorem value_tryFill {path : Nat} (rules : List Nat) (t : Cnode × Nat) (n : Nat) :
    (tryFill V path rules t n).1.1.value = t.1.value := by
  induction rules generalizing t n with
  | nil => rfl
  | cons r rules ih =>
    have hvalue : (t.1.tryAddRule V r t.2 path n).1.value = t.1.value := value_tryAddRule t.1
    rw [tryFill]
    generalize t.1.tryAddRule V r t.2 path n = q at hvalue ⊢
    obtain ⟨c, _ | ⟨a, k⟩⟩ := q
    · exact hvalue
    · exact (ih (c, t.2 + 1) k).trans hvalue

theorem value_trySplit {path a v : Nat} {rs : List Nat} {m : Memory} {n : Nat} :
    (trySplit V path isCopy a v rs m n).1.value = v := by
  cases n with
  | zero => rfl
  | succ n =>
    rw [trySplit]
    split
    · rfl
    · split
      · cases n with
        | zero => rfl
        | succ n => exact value_tryFill ..
      · match n with
        | 0 => rfl
        | 1 => rfl
        | n + 2 =>
          simp only
          split
          · exact value_tryFill ..
          · rfl

theorem value_tryEnsureSplit {path : Nat} {m : Memory} {n : Nat} (c : Cnode) :
    (c.tryEnsureSplit V path isCopy m n).1.value = c.value := by
  cases c with
  | leaf a v rs =>
    rw [Cnode.tryEnsureSplit]
    split
    · rfl
    · exact value_trySplit
  | split a v rs f bs any => rfl

theorem value_tryBuild {fuel path n : Nat} {c c' : Cnode} {m m' : Memory} {k : Option Nat}
    (h : c.tryBuild V fuel path isCopy m n = some (c', m', k)) : c'.value = c.value := by
  cases fuel with
  | zero => cases h
  | succ fuel =>
    have hvalue : (c.tryEnsureSplit V path isCopy m n).1.value = c.value :=
      value_tryEnsureSplit c
    rw [Cnode.tryBuild] at h
    split at h
    · next heq =>
      cases h
      rw [heq] at hvalue
      exact hvalue
    · next heq =>
      cases h
      rw [heq] at hvalue
      exact hvalue
    · next heq =>
      rw [heq] at hvalue
      simp only at h
      split at h
      · cases h
      · split at h
        · cases h
          exact hvalue
        · split at h
          · cases h
            rfl
          · cases h
            exact hvalue

end Values

section Split

/-! ## Splitting a leaf -/

/-- The rules are added as they are with memory enough, or some of them are. -/
theorem Filled.tryFill {a v f next : Nat} {done : List Nat} {t : Cnode × Nat}
    (h : Filled V a v f done next t) (ha : a < next) (path : Nat) (rules : List Nat) (n : Nat) :
    (∃ k, tryFill V path rules t n =
      (rules.foldl (fun t r => ((t.1.addRule V r t.2 path).1, t.2 + 1)) t, some k)) ∨
    ∃ c next', tryFill V path rules t n = ((c, next'), none) ∧ next ≤ next' ∧
      (∀ b ∈ c.addrs, b = a ∨ next ≤ b ∧ b < next') ∧
      ∀ r ∈ c.allRules, r ∈ rules ∨ r ∈ done := by
  induction rules generalizing done t n with
  | nil => exact .inl ⟨n, rfl⟩
  | cons r rules ih =>
    have hplaced := h.placed (fun _ => True) fun _ _ => trivial
    have hle := h.le
    have hfresh : t.2 ∉ t.1.addrs := by
      intro hmem
      rcases h.addrs _ hmem with heq | hlt
      · omega
      · omega
    have hsome : ∀ {a k}, (t.1.tryAddRule V r t.2 path n).2 = some (a, k) → _ :=
      hplaced.tryAddRule_some hfresh
    have hnone : (t.1.tryAddRule V r t.2 path n).2 = none → _ := hplaced.tryAddRule_none hfresh
    rw [Nox.Classify.tryFill]
    generalize t.1.tryAddRule V r t.2 path n = q at hsome hnone
    obtain ⟨c, _ | ⟨b, k⟩⟩ := q
    · have hsame := hnone rfl
      refine .inr ⟨c, t.2 + 1, rfl, Nat.le_succ_of_le hle, fun b hb => ?_, fun x hx => .inr ?_⟩
      · rcases hsame.addrs with hperm | hperm
        · exact (h.addrs b (hperm.mem_iff.mp hb)).imp_right fun hb => ⟨hb.1, Nat.lt_succ_of_lt hb.2⟩
        · rcases List.mem_cons.mp (hperm.mem_iff.mp hb) with rfl | hb
          · exact .inr ⟨hle, Nat.lt_succ_self _⟩
          · exact (h.addrs b hb).imp_right fun hb => ⟨hb.1, Nat.lt_succ_of_lt hb.2⟩
      · exact h.rules.mem_iff.mp ((hsame.entries.map (·.2)).mem_iff.mp hx)
    · obtain ⟨hc, -⟩ := hsome rfl
      simp only at hc
      subst hc
      rcases ih (h.addRule ha path r) k with ⟨k', heq⟩ | ⟨c, next', heq, hle', haddrs, hrules⟩
      · exact .inl ⟨k', heq⟩
      · refine .inr ⟨c, next', heq, hle', haddrs, fun x hx => ?_⟩
        rcases hrules x hx with hx | hx
        · exact .inl (List.mem_cons_of_mem _ hx)
        · rcases List.mem_cons.mp hx with rfl | hx
          · exact .inl List.mem_cons_self
          · exact .inr hx

/-- The copy of a node that could not be split, at the address `a`. -/
theorem within_of_fill {a v : Nat} {rs : List Nat} {m : Memory} {c : Cnode} {next' : Nat}
    (hle : m.next ≤ next') (haddrs : ∀ b ∈ c.addrs, b = a ∨ m.next ≤ b ∧ b < next')
    (hrules : ∀ r ∈ c.allRules, r ∈ rs) :
    Within [.leaf a v rs] m [c] { m with next := next' } where
  next := hle
  addrs := by
    intro b hb
    simp only [List.flatMap_singleton] at hb ⊢
    refine (haddrs b hb).imp_left fun heq => ?_
    rw [heq, addrs_eq]
    exact List.mem_cons_self
  rules := by
    intro r hr
    simp only [List.flatMap_singleton] at hr ⊢
    rw [allRules_eq]
    exact List.mem_append_left _ (hrules r hr)
  node := rfl

/-- A copy is deleted, at which no rule points. -/
theorem Pointed.destroy {c c' : Cnode} {m m' : Memory} (h : Pointed [c] m)
    (hnode : m'.node = m.node) (hlt : ∀ a ∈ c.addrs, a < m.next)
    (haddrs : ∀ a ∈ c'.addrs, m.next ≤ a) (hrules : ∀ r ∈ c'.allRules, r ∈ c.allRules) :
    m'.destroy c' = m' := by
  refine destroy_eq fun e he hpoints => ?_
  obtain ⟨⟨a, r⟩, hentry, hr⟩ := List.mem_map.mp (hrules e.2 (List.mem_map_of_mem he))
  simp only at hr
  subst hr
  have hold := h.node (a, e.2) (by rw [List.flatMap_singleton]; exact hentry)
  rw [hnode, hold] at hpoints
  cases hpoints
  have hlt := hlt e.1 (mem_addrs_of_mem_entries hentry)
  exact absurd hlt (Nat.not_lt.mpr (haddrs e.1 (mem_addrs_of_mem_entries he)))

theorem left_destroy {c c' : Cnode} {m m' : Memory} (hnext : m.next ≤ m'.next)
    (hnode : m'.node = m.node) (hlt : ∀ a ∈ c.addrs, a < m.next)
    (haddrs : ∀ a ∈ c'.addrs, m.next ≤ a) (hrules : ∀ r ∈ c'.allRules, r ∈ c.allRules) :
    Left V false [c] m [c] (m'.destroy c') where
  within := fun hcopy => nomatch hcopy
  rebuilds := by
    intro _ hpointed
    rw [hpointed.destroy hnode hlt haddrs hrules]
    exact .used [c] hnext hnode

/-- A node just split is filled. -/
theorem tryFill_split (path f v : Nat) (rs : List Nat) {size a next : Nat} (hsize : 0 < size)
    (ha : a < next) (n : Nat) :
    let t := tryFill V path rs (.split a v [] f (List.replicate size []) none, next) n
    (∃ k, t = (splitNode V path f size a v rs next, some k)) ∨
    ∃ c next', t = ((c, next'), none) ∧ next ≤ next' ∧
      (∀ b ∈ c.addrs, b = a ∨ next ≤ b ∧ b < next') ∧ ∀ r ∈ c.allRules, r ∈ rs := by
  have hstart : Filled V a v f [] next (splitNode V path f size a v [] next) :=
    splitNode_filled hsize ha
  rcases hstart.tryFill ha path rs n with hdone | ⟨c, next', heq, hle, haddrs, hrules⟩
  · exact .inl hdone
  · refine .inr ⟨c, next', heq, hle, haddrs, fun r hr => ?_⟩
    exact (hrules r hr).resolve_right fun hno => nomatch hno

/-- The leaf is split as it is with memory enough, or the split throws. -/
theorem trySplit_spec {path a v : Nat} {rs : List Nat} {m : Memory} (ha : a < m.next) (n : Nat) :
    (∃ k, trySplit V path isCopy a v rs m n =
      ((splitLeaf V path isCopy a v rs m.next).1,
        { m with next := (splitLeaf V path isCopy a v rs m.next).2 }, some k)) ∨
    ∃ c m', trySplit V path isCopy a v rs m n = (c, m', none) ∧
      Left V isCopy [.leaf a v rs] m [c] m' := by
  have hkept : ∃ c m', ((Cnode.leaf a v rs, m, none) : Cnode × Memory × Option Nat) =
      (c, m', none) ∧ Left V isCopy [.leaf a v rs] m [c] m' := ⟨_, _, rfl, .refl _ _⟩
  cases n with
  | zero => exact .inr hkept
  | succ n =>
    rw [trySplit, splitLeaf]
    simp only
    split
    · exact .inl ⟨n, rfl⟩
    · have hpos : 0 < Nat.nextPowerOfTwo ((bestSplit V path rs).2.2 * 3) :=
        Nat.pos_of_isPowerOfTwo (Nat.isPowerOfTwo_nextPowerOfTwo _)
      cases isCopy with
      | true =>
        simp only [if_true]
        cases n with
        | zero => exact .inr hkept
        | succ n =>
          rcases tryFill_split (V := V) path (bestSplit V path rs).1 v rs hpos ha n with
            ⟨k, heq⟩ | ⟨c, next', heq, hle, haddrs, hrules⟩
          · simp only [heq]
            exact .inl ⟨k, rfl⟩
          · simp only [heq]
            refine .inr ⟨_, _, rfl, ⟨fun _ => ?_, fun hcopy => absurd hcopy.symm Bool.false_ne_true⟩⟩
            exact within_of_fill hle haddrs hrules
      | false =>
        simp only [Bool.false_eq_true, if_false]
        rcases n with _ | _ | n
        · exact .inr hkept
        · exact .inr hkept
        · rcases tryFill_split (V := V) path (bestSplit V path rs).1 v rs hpos
              (Nat.lt_succ_self m.next) n with
            ⟨k, heq⟩ | ⟨c, next', heq, hle, haddrs, hrules⟩
          · simp only [heq]
            exact .inl ⟨k, rfl⟩
          · simp only [heq]
            refine .inr ⟨_, _, rfl, left_destroy (Nat.le_of_succ_le hle) rfl (fun b hb => ?_)
              (fun b hb => ?_) fun r hr => ?_⟩
            · rw [addrs_eq] at hb
              rw [List.mem_singleton.mp hb]
              exact ha
            · rcases haddrs b hb with rfl | hb
              · exact Nat.le_refl _
              · exact Nat.le_of_succ_le hb.1
            · rw [allRules_eq]
              exact List.mem_append_left _ (hrules r hr)

/-- The first part of `build` does what it does with memory enough, or throws. -/
theorem tryEnsureSplit_spec (isCopy : Bool) (path : Nat) {c : Cnode} {m : Memory}
    (hlt : ∀ a ∈ c.addrs, a < m.next) (n : Nat) :
    (∃ k, c.tryEnsureSplit V path isCopy m n =
      ((c.ensureSplit V path isCopy m.next).1,
        { m with next := (c.ensureSplit V path isCopy m.next).2 }, some k)) ∨
    ∃ c' m', c.tryEnsureSplit V path isCopy m n = (c', m', none) ∧
      Left V isCopy [c] m [c'] m' := by
  cases c with
  | leaf a v rs =>
    rw [Cnode.tryEnsureSplit, Cnode.ensureSplit]
    split
    · exact .inl ⟨n, rfl⟩
    · exact trySplit_spec (hlt a (by rw [addrs_eq]; exact List.mem_cons_self)) n
  | split a v rs f bs any => exact .inl ⟨n, rfl⟩

end Split

section Loops

/-! ## The loops over children -/

/-- What a call that may throw returns, beside what it returns with memory enough. -/
inductive Follows (V : View) (isCopy : Bool) (l : List Cnode) (m : Memory) {α : Type}
    (nodesOf : α → List Cnode) : Option (α × Memory) → Option (α × Memory × Option Nat) → Prop
  | done (x : α) (m' : Memory) (n : Nat) :
    Follows V isCopy l m nodesOf (some (x, m')) (some (x, m', some n))
  | thrown (t : Option (α × Memory)) (x : α) (m' : Memory)
      (hleft : Left V isCopy l m (nodesOf x) m') :
    Follows V isCopy l m nodesOf t (some (x, m', none))
  | stuck : Follows V isCopy l m nodesOf none none

/-- A loop over lists of nodes. -/
theorem tryAll_follows {α : Type} (nodesOf : α → List Cnode)
    {build : α → Memory → Option (α × Memory)}
    {tryBuild : α → Memory → Nat → Option (α × Memory × Option Nat)}
    (hbuild : ∀ x m x' m', (∀ c ∈ nodesOf x, ∀ a ∈ c.addrs, a < m.next) →
      build x m = some (x', m') → Rebuilds V isCopy (nodesOf x) m (nodesOf x') m')
    (hfollows : ∀ x m n, (∀ c ∈ nodesOf x, ∀ a ∈ c.addrs, a < m.next) →
      Follows V isCopy (nodesOf x) m nodesOf (build x m) (tryBuild x m n))
    (xs : List α) {m : Memory} (hlt : ∀ x ∈ xs, ∀ c ∈ nodesOf x, ∀ a ∈ c.addrs, a < m.next)
    (n : Nat) :
    Follows V isCopy (xs.flatMap nodesOf) m (fun xs => xs.flatMap nodesOf)
      (replaceAll build xs m) (tryAll tryBuild xs m n) := by
  induction xs generalizing m n with
  | nil => exact .done ..
  | cons x xs ih =>
    have hx := hfollows x m n (hlt x List.mem_cons_self)
    have hrebuilds := fun x' m' => hbuild x m x' m' (hlt x List.mem_cons_self)
    rw [replaceAll, tryAll]
    generalize build x m = p at hx hrebuilds
    generalize tryBuild x m n = q at hx
    cases hx with
    | done x' m' k =>
      have hfirst := hrebuilds x' m' rfl
      have hrest := ih (fun y hy c hc a ha =>
        Nat.lt_of_lt_of_le (hlt y (List.mem_cons_of_mem _ hy) c hc a ha) hfirst.next) k
      simp only
      generalize replaceAll build xs m' = p at hrest
      generalize tryAll tryBuild xs m' k = q at hrest
      cases hrest with
      | done xs' m'' k => exact .done ..
      | thrown t xs' m'' hleft => exact .thrown _ (x' :: xs') m'' (hfirst.left.append hleft)
      | stuck => exact .stuck
    | thrown t x' m' hleft => exact .thrown _ (x' :: xs) m' (hleft.append (.refl _ _))
    | stuck => exact .stuck

theorem tryAll_map {α β : Type} {build : α → Memory → Nat → Option (α × Memory × Option Nat)}
    {g : α → β} (hbuild : ∀ x m n x' m' k, build x m n = some (x', m', k) → g x' = g x)
    {xs xs' : List α} {m m' : Memory} {n : Nat} {k : Option Nat}
    (h : tryAll build xs m n = some (xs', m', k)) : xs'.map g = xs.map g := by
  induction xs generalizing m n xs' with
  | nil =>
    cases h
    rfl
  | cons x xs ih =>
    rw [tryAll] at h
    split at h
    · cases h
    · next hx =>
      cases h
      rw [List.map_cons, List.map_cons, hbuild _ _ _ _ _ _ hx]
    · next hx =>
      obtain ⟨⟨xs', m', k⟩, ht, heq⟩ := Option.map_eq_some_iff.mp h
      cases heq
      rw [List.map_cons, List.map_cons, hbuild _ _ _ _ _ _ hx, ih ht]

theorem tryReplaceChild_follows {build : Cnode → Memory → Option (Cnode × Memory)}
    {tryBuild : Cnode → Memory → Nat → Option (Cnode × Memory × Option Nat)} {c : Cnode}
    {m : Memory} {n : Nat}
    (h : Follows V isCopy [c] m (fun c => [c]) (build c m) (tryBuild c m n)) :
    Follows V isCopy [c] m (fun c => [c]) (replaceChild build c m)
      (tryReplaceChild tryBuild c m n) := by
  rw [replaceChild, tryReplaceChild]
  generalize build c m = p at h
  generalize tryBuild c m n = q at h
  cases h with
  | done c' m' k => exact .done ..
  | thrown t c' m' hleft => exact .thrown _ c' m' hleft
  | stuck => exact .stuck

theorem value_tryReplaceChild
    {tryBuild : Cnode → Memory → Nat → Option (Cnode × Memory × Option Nat)}
    (hvalue : ∀ c m n c' m' k, tryBuild c m n = some (c', m', k) → c'.value = c.value)
    (c : Cnode) (m : Memory) (n : Nat) (c' : Cnode) (m' : Memory) (k : Option Nat)
    (h : tryReplaceChild tryBuild c m n = some (c', m', k)) : c'.value = c.value := by
  obtain ⟨⟨d, m₁, _ | k₁⟩, hd, heq⟩ := Option.map_eq_some_iff.mp h
  · cases heq
    exact hvalue _ _ _ _ _ _ hd
  · cases heq
    exact hvalue _ _ _ _ _ _ hd

section Children

variable {build : Cnode → Memory → Option (Cnode × Memory)}
  {tryBuild : Cnode → Memory → Nat → Option (Cnode × Memory × Option Nat)}
  (hbuild : ∀ c m c' m', (∀ a ∈ c.addrs, a < m.next) → build c m = some (c', m') →
    Built V isCopy c m c' m')
  (hfollows : ∀ c m n, (∀ a ∈ c.addrs, a < m.next) →
    Follows V isCopy [c] m (fun c => [c]) (build c m) (tryBuild c m n))

include hbuild hfollows

theorem tryReplaceChain_follows (ch : List Cnode) (m : Memory) (n : Nat)
    (hlt : ∀ c ∈ ch, ∀ a ∈ c.addrs, a < m.next) :
    Follows V isCopy ch m (fun ch => ch) (replaceAll (replaceChild build) ch m)
      (tryAll (tryReplaceChild tryBuild) ch m n) := by
  have hloop := tryAll_follows (fun c => [c]) (replaceChild_rebuilds hbuild)
    (fun c m n hlt => tryReplaceChild_follows (hfollows c m n (hlt c List.mem_cons_self))) ch
    (fun c hc d hd => List.mem_singleton.mp hd ▸ hlt c hc) n
  simpa using hloop

/-- The children are built as they are with memory enough, or a call throws. -/
theorem tryBuildChildren_follows
    (hvalue : ∀ c m n c' m' k, tryBuild c m n = some (c', m', k) → c'.value = c.value)
    {a v : Nat} {rs : List Nat} {f : Nat} {bs : List (List Cnode)} {any : Option Cnode}
    {m : Memory} (hlt : ∀ b ∈ (Cnode.split a v rs f bs any).addrs, b < m.next) (n : Nat) :
    (∃ bs' any' m' k, buildChildren build bs any m = some (bs', any', m') ∧
      tryBuildChildren tryBuild bs any m n = some (bs', any', m', some k)) ∨
    (∃ bs' any' m', tryBuildChildren tryBuild bs any m n = some (bs', any', m', none) ∧
      Left V isCopy [.split a v rs f bs any] m [.split a v rs f bs' any'] m') ∨
    buildChildren build bs any m = none ∧ tryBuildChildren tryBuild bs any m n = none := by
  rw [addrs_eq] at hlt
  have ha : a < m.next := hlt a List.mem_cons_self
  have hbelow : ∀ c ∈ bs.flatten ++ any.toList, ∀ b ∈ c.addrs, b < m.next := fun c hc b hb =>
    hlt b (List.mem_cons_of_mem _ (List.mem_flatMap.mpr ⟨c, hc, hb⟩))
  have hbuckets : ∀ ch ∈ bs, ∀ c ∈ ch, ∀ b ∈ c.addrs, b < m.next := fun ch hch c hc =>
    hbelow c (List.mem_append_left _ (List.mem_flatten.mpr ⟨ch, hch, hc⟩))
  have hloop := tryAll_follows (fun ch => ch) (replaceChain_rebuilds hbuild)
    (tryReplaceChain_follows hbuild hfollows) bs hbuckets n
  have hrebuilds : ∀ bs' m₁, replaceAll (replaceAll (replaceChild build)) bs m = some (bs', m₁) →
      Rebuilds V isCopy bs.flatten m bs'.flatten m₁ := by
    intro bs' m₁ hbs
    have hrebuilds := (replaceAll_rebuilds (fun ch => ch) (replaceChain_rebuilds hbuild) hbuckets
      hbs).1
    rwa [List.flatMap_id', List.flatMap_id'] at hrebuilds
  have hvalues : ∀ bs' m₁ k, tryAll (tryAll (tryReplaceChild tryBuild)) bs m n =
      some (bs', m₁, k) → bs'.map (fun ch => ch.map value) = bs.map fun ch => ch.map value :=
    fun bs' m₁ k => tryAll_map fun _ _ _ _ _ _ h => tryAll_map (value_tryReplaceChild hvalue) h
  unfold buildChildren tryBuildChildren
  generalize replaceAll (replaceAll (replaceChild build)) bs m = p at hloop hrebuilds
  generalize tryAll (tryAll (tryReplaceChild tryBuild)) bs m n = q at hloop hvalues
  cases hloop with
  | done bs' m₁ k =>
    have hfirst := hrebuilds bs' m₁ rfl
    cases any with
    | none => exact .inl ⟨bs', none, m₁, k, rfl, rfl⟩
    | some c =>
      have hc : ∀ b ∈ c.addrs, b < m₁.next := fun b hb =>
        Nat.lt_of_lt_of_le (hbelow c (List.mem_append_right _ (by simp)) b hb) hfirst.next
      have hlast := tryReplaceChild_follows (hfollows c m₁ k hc)
      simp only
      generalize replaceChild build c m₁ = p at hlast
      generalize tryReplaceChild tryBuild c m₁ k = q at hlast
      cases hlast with
      | done c' m' k' => exact .inl ⟨bs', some c', m', k', rfl, rfl⟩
      | thrown t c' m' hleft =>
        exact .inr (.inl ⟨bs', some c', m', rfl,
          hfirst.left.split hleft (hvalues bs' m₁ _ rfl) ha⟩)
      | stuck => exact .inr (.inr ⟨rfl, rfl⟩)
  | thrown t bs' m' hleft =>
    rw [List.flatMap_id', List.flatMap_id'] at hleft
    exact .inr (.inl ⟨bs', any, m', rfl, hleft.split (.refl _ _) (hvalues bs' m' _ rfl) ha⟩)
  | stuck => exact .inr (.inr ⟨rfl, rfl⟩)

end Children

end Loops

section Build

/-! ## Building and unbuilding -/

/-- The children of a node that is split. -/
theorem children_follow {fuel : Nat} (isCopy : Bool) (path : Nat) {a v : Nat} {rs : List Nat} {f : Nat}
    {bs : List (List Cnode)} {any : Option Cnode} {m : Memory}
    (ih : ∀ {c : Cnode} {m : Memory}, (∀ a ∈ c.addrs, a < m.next) → ∀ n,
      Follows V isCopy [c] m (fun c => [c]) (c.build V fuel path isCopy m)
        (c.tryBuild V fuel path isCopy m n))
    (hlt : ∀ b ∈ (Cnode.split a v rs f bs any).addrs, b < m.next) (n : Nat) :
    (∃ bs' any' m' k,
      buildChildren (Cnode.build V fuel path isCopy) bs any m = some (bs', any', m') ∧
      tryBuildChildren (Cnode.tryBuild V fuel path isCopy) bs any m n =
        some (bs', any', m', some k)) ∨
    (∃ bs' any' m', tryBuildChildren (Cnode.tryBuild V fuel path isCopy) bs any m n =
        some (bs', any', m', none) ∧
      Left V isCopy [.split a v rs f bs any] m [.split a v rs f bs' any'] m') ∨
    buildChildren (Cnode.build V fuel path isCopy) bs any m = none ∧
      tryBuildChildren (Cnode.tryBuild V fuel path isCopy) bs any m n = none :=
  tryBuildChildren_follows (fun _ _ _ _ hlt h => build_rebuilds hlt h)
    (fun _ _ n hlt => ih hlt n) (fun _ _ _ _ _ _ h => value_tryBuild h) hlt n

theorem tryBuild_follows {fuel path : Nat} {c : Cnode} {m : Memory}
    (hlt : ∀ a ∈ c.addrs, a < m.next) (n : Nat) :
    Follows V isCopy [c] m (fun c => [c]) (c.build V fuel path isCopy m)
      (c.tryBuild V fuel path isCopy m n) := by
  induction fuel generalizing path isCopy c m n with
  | zero => exact .stuck
  | succ fuel ih =>
    rw [Cnode.build, Cnode.tryBuild]
    rcases tryEnsureSplit_spec (V := V) isCopy path hlt n with
      ⟨k, hensure⟩ | ⟨c', m', hensure, hleft⟩
    case inr =>
      rw [hensure]
      exact .thrown _ c' m' hleft
    rw [hensure]
    rcases ensureSplit_cases (V := V) path isCopy hlt with
      heq | ⟨a, v, rs, f, a', next, rfl, hsplitOf⟩
    · rw [heq]
      cases c with
      | leaf a v rs => exact .done ..
      | split a v rs f bs any =>
        have hcopy : (isCopy || a != (Cnode.split a v rs f bs any).addr) = isCopy := by
          simp [Cnode.addr]
        have hnot : (isCopy && !isCopy) = false := by cases isCopy <;> rfl
        simp only [hcopy, hnot]
        rcases children_follow isCopy (path ||| 2 ^ f) (fun hlt n => ih hlt n) hlt k with
          ⟨bs', any', m', k', hpure, htry⟩ | ⟨bs', any', m', htry, hleft⟩ | ⟨hpure, htry⟩
        · simp only [hpure, htry]
          exact .done ..
        · simp only [htry]
          exact .thrown _ (Cnode.split a v rs f bs' any') m' hleft
        · simp only [hpure, htry]
          exact .stuck
    · generalize (Cnode.leaf a v rs).ensureSplit V path isCopy m.next = t at hsplitOf
      obtain ⟨t, next'⟩ := t
      have hfilled := hsplitOf.filled
      have hmode := hsplitOf.mode
      obtain ⟨rs', bs, any, rfl⟩ := hfilled.shape
      have ha : a < m.next := hlt a (by rw [addrs_eq]; exact List.mem_cons_self)
      have hcopy : (isCopy || a' != a) = true := by
        rcases hmode with ⟨rfl, -⟩ | ⟨-, rfl, -⟩
        · rfl
        · have hne : m.next ≠ a := by omega
          simp [hne]
      have hsplit : Within [.leaf a v rs] m [.split a' v rs' f bs any] { m with next := next' } :=
        (hfilled.rebuilds hsplitOf.le (by
          rcases hmode with ⟨-, rfl⟩ | ⟨-, rfl, hm⟩
          · exact .inl rfl
          · exact .inr ⟨Nat.le_refl _, hm⟩)).within
      simp only [Cnode.addr, hcopy]
      rcases children_follow true (path ||| 2 ^ f) (m := { m with next := next' })
        (fun hlt n => ih hlt n) hsplitOf.addrs k with
        ⟨bs', any', m', k', hpure, htry⟩ | ⟨bs', any', m', htry, hleft⟩ | ⟨hpure, htry⟩
      · simp only [hpure, htry]
        exact .done ..
      · have hwithin := hsplit.trans (hleft.within rfl)
        simp only [htry]
        cases isCopy with
        | true =>
          exact .thrown _ (Cnode.split a' v rs' f bs' any') m'
            ⟨fun _ => hwithin, fun h => absurd h.symm Bool.false_ne_true⟩
        | false =>
          -- the head of the copy
          obtain ⟨-, rfl, -⟩ := hmode.resolve_left fun h => Bool.false_ne_true h.1
          refine .thrown _ (Cnode.leaf a v rs) _ (left_destroy hwithin.next hwithin.node hlt
            (fun b hb => ?_) fun r hr => ?_)
          · have hold := (hleft.within rfl).addrs b (by rw [List.flatMap_singleton]; exact hb)
            rw [List.flatMap_singleton] at hold
            rcases hold with hold | hnew
            · rcases hfilled.addrs b hold with rfl | hb
              · exact Nat.le_refl _
              · exact Nat.le_trans hsplitOf.le hb.1
            · exact Nat.le_trans (Nat.le_trans hsplitOf.le hfilled.le) hnew.1
          · have hold := hwithin.rules r (by rw [List.flatMap_singleton]; exact hr)
            rwa [List.flatMap_singleton] at hold
      · simp only [hpure, htry]
        exact .stuck

/-- The lists are merged as they are with memory enough, or some of them are. -/
theorem tryMerge_spec (V : View) (ns : List (Nat × List Nat)) (l : List Nat) (n : Nat) :
    (∃ k, tryMerge V ns l n =
      (ns.foldl (fun l n => l.merge n.2 fun x y => !decide (V.priority y < V.priority x)) l,
        some k)) ∨
    ∃ l', tryMerge V ns l n = (l', none) ∧ ∀ r ∈ l', r ∈ l ∨ r ∈ ns.flatMap (·.2) := by
  induction ns generalizing l n with
  | nil => exact .inl ⟨n, rfl⟩
  | cons node ns ih =>
    rw [tryMerge]
    split
    · exact .inr ⟨l, rfl, fun r hr => .inl hr⟩
    · rcases ih (l.merge node.2 fun x y => !decide (V.priority y < V.priority x))
        (n - node.2.length) with ⟨k, heq⟩ | ⟨l', heq, hrules⟩
      · exact .inl ⟨k, heq⟩
      · refine .inr ⟨l', heq, fun r hr => ?_⟩
        rw [List.flatMap_cons, List.mem_append]
        rcases hrules r hr with hr | hr
        · rcases List.mem_append.mp ((List.merge_perm_append ..).mem_iff.mp hr) with hr | hr
          · exact .inl hr
          · exact .inr (.inl hr)
        · exact .inr (.inr hr)

/-- The node is unbuilt as it is with memory enough, or nothing happens but that memory is
used. -/
theorem tryUnbuild_spec {c : Cnode} {m : Memory} (hlt : ∀ a ∈ c.addrs, a < m.next)
    (hpointed : Pointed [c] m) (n : Nat) :
    (∃ k, c.tryUnbuild V m n = ((c.unbuild V m).1, (c.unbuild V m).2, some k)) ∨
    ∃ m', c.tryUnbuild V m n = (c, m', none) ∧ m.next ≤ m'.next ∧ m'.node = m.node := by
  cases c with
  | leaf a v rs =>
    rw [Cnode.unbuild, Cnode.tryUnbuild]
    exact .inl ⟨n, rfl⟩
  | split a v rs f bs any =>
    cases n with
    | zero =>
      rw [Cnode.tryUnbuild]
      exact .inr ⟨m, rfl, Nat.le_refl _, rfl⟩
    | succ n =>
      rw [Cnode.unbuild, Cnode.tryUnbuild]
      rcases tryMerge_spec V (Cnode.split a v rs f bs any).nodes [] n with
        ⟨k, heq⟩ | ⟨l', heq, hrules⟩
      · simp only [heq]
        exact .inl ⟨k, rfl⟩
      · have hdestroy : Memory.destroy { m with next := m.next + 1 } (.leaf m.next v l') =
            { m with next := m.next + 1 } := by
          refine hpointed.destroy rfl hlt (fun b hb => ?_) fun r hr => ?_
          · rw [addrs_eq] at hb
            exact Nat.le_of_eq (List.mem_singleton.mp hb).symm
          · rw [allRules_eq] at hr
            rw [allRules_eq_nodes]
            refine (hrules r ?_).resolve_left List.not_mem_nil
            simpa [rules, children] using hr
        simp only [heq, hdestroy]
        exact .inr ⟨_, rfl, Nat.le_succ _, rfl⟩

end Build

end Nox.Classify

import Mathlib.Data.Finset.Card
import Mathlib.Logic.Relation
import Nox.Components.Install

/-!
# Reports of unmet dependencies

A context that cannot be installed reports why: it asks its dependencies one after the other, and
they ask the contexts they depend on.  A set of contexts asked so far goes with every question, by
value, and a context that finds itself there reports a cycle.  So no context is asked again below
itself, and where `resolve` has settled every answer ends in a cause.
-/

namespace Nox.Components

section Messages

/-! ## Messages -/

abbrev Text := List Char

scoped instance : LawfulBEq Text := inferInstance

/-- `indent` -/
def indent (s : Text) : Text := s.flatMap fun c => if c = '\n' then ['\n', '\t'] else [c]

/-- `Name_dependency::get_error_message`, where `ask` asks a context for its own. -/
def Kernel.dependencyMessage (s : Kernel Text) (ask : Text → Context Text → Option Text)
    (name : Text) : Option Text :=
  match s.contexts name with
  | none => some ("unmet dependency to '".toList ++ name ++ "': component not found!".toList)
  | some ctxt =>
    if ctxt.state = .installed then some []
    else (ask name ctxt).map fun msg => indent ('\n' :: msg)

/-- The loop over the dependencies of `name`. -/
def Kernel.firstMessage (s : Kernel Text) (ask : Text → Context Text → Option Text)
    (name : Text) : List Text → Option Text
  | [] => some []
  | d :: ds =>
    match s.dependencyMessage ask d with
    | none => none
    | some err =>
      if err ≠ [] then
        some ("'".toList ++ name ++ "' has an unmet dependency: ".toList ++ err)
      else s.firstMessage ask name ds

/-- `Component_context::get_error_message` of the context `name`, unless it asks deeper than
`fuel`.  `errors` are the contexts' messages of their own. -/
def Kernel.getErrorMessage (s : Kernel Text) (errors : Text → Text) :
    (fuel : Nat) → (ctxtsVisited : List Text) → Text → Context Text → Option Text
  | 0, _, _, _ => none
  | fuel + 1, ctxtsVisited, name, ctxt =>
    if ctxt.state = .error then
      some ("'".toList ++ name ++ "' ran into an error: ".toList ++
        indent ('\n' :: errors name))
    else if name ∈ ctxtsVisited then some "A circular component dependency detected.".toList
    else
      s.firstMessage (s.getErrorMessage errors fuel (name :: ctxtsVisited)) name ctxt.dependencies

end Messages

section Termination

/-! ## Termination -/

variable {s : Kernel Text} {errors : Text → Text}

/-- `contexts` is a finite map. -/
def Kernel.Finite (s : Kernel Text) : Prop := ∀ c, s.contexts c ≠ none → c ∈ s.names

/-- The contexts that have not been asked. -/
def Kernel.unvisited (s : Kernel Text) (ctxtsVisited : List Text) : Nat :=
  (s.names.toFinset \ ctxtsVisited.toFinset).card

theorem Kernel.unvisited_cons {c : Text} {visited : List Text} (hc : c ∈ s.names)
    (hnot : c ∉ visited) : s.unvisited (c :: visited) < s.unvisited visited := by
  unfold Kernel.unvisited
  rw [List.toFinset_cons, Finset.sdiff_insert]
  apply Finset.card_erase_lt_of_mem
  rw [Finset.mem_sdiff, List.mem_toFinset, List.mem_toFinset]
  exact ⟨hc, hnot⟩

theorem Kernel.unvisited_le (s : Kernel Text) (visited : List Text) :
    s.unvisited visited ≤ s.names.length :=
  (Finset.card_le_card Finset.sdiff_subset).trans s.names.toFinset_card_le

/-- What is asked with more than `n` fuel answers, the same whatever the fuel. -/
def Answers (n : Nat) (ask : Nat → Option Text) : Prop :=
  ∃ msg, ∀ fuel, n < fuel → ask fuel = some msg

theorem Kernel.answers_dependency {n : Nat} {ask : Nat → Text → Context Text → Option Text}
    (h : ∀ c ctxt, s.contexts c = some ctxt → Answers n fun fuel => ask fuel c ctxt) (d : Text) :
    Answers n fun fuel => s.dependencyMessage (ask fuel) d := by
  unfold Kernel.dependencyMessage
  cases hd : s.contexts d with
  | none => exact ⟨_, fun _ _ => rfl⟩
  | some ctxt =>
    by_cases hinstalled : ctxt.state = .installed
    · exact ⟨[], fun _ _ => if_pos hinstalled⟩
    · obtain ⟨msg, hmsg⟩ := h d ctxt hd
      refine ⟨indent ('\n' :: msg), fun fuel hfuel => ?_⟩
      have hanswer : ask fuel d ctxt = some msg := hmsg fuel hfuel
      dsimp only
      rw [if_neg hinstalled, hanswer]
      rfl

theorem Kernel.answers_first {n : Nat} {ask : Nat → Text → Context Text → Option Text}
    (h : ∀ c ctxt, s.contexts c = some ctxt → Answers n fun fuel => ask fuel c ctxt)
    (name : Text) (ds : List Text) :
    Answers n fun fuel => s.firstMessage (ask fuel) name ds := by
  induction ds with
  | nil => exact ⟨[], fun _ _ => rfl⟩
  | cons d ds ih =>
    obtain ⟨err, herr⟩ := Kernel.answers_dependency h d
    have hfirst (fuel : Nat) (hfuel : n < fuel) : s.firstMessage (ask fuel) name (d :: ds) =
        if err ≠ [] then some ("'".toList ++ name ++ "' has an unmet dependency: ".toList ++ err)
        else s.firstMessage (ask fuel) name ds := by
      have hanswer : s.dependencyMessage (ask fuel) d = some err := herr fuel hfuel
      rw [Kernel.firstMessage.eq_2, hanswer]
    obtain ⟨msg, hmsg⟩ := ih
    by_cases hempty : err ≠ []
    · exact ⟨_, fun fuel hfuel => (hfirst fuel hfuel).trans (if_pos hempty)⟩
    · refine ⟨msg, fun fuel hfuel => ?_⟩
      exact ((hfirst fuel hfuel).trans (if_neg hempty)).trans (hmsg fuel hfuel)

theorem Answers.of_succ {n : Nat} {ask : Nat → Option Text} {m : Text}
    (h : ∀ fuel, n ≤ fuel → ask (fuel + 1) = some m) : Answers n ask := by
  refine ⟨m, fun fuel hfuel => ?_⟩
  obtain ⟨fuel, rfl⟩ := Nat.exists_eq_succ_of_ne_zero (Nat.ne_zero_of_lt hfuel)
  exact h fuel (Nat.le_of_lt_succ hfuel)

/-- Fuel for the contexts that have not been asked is enough, by induction on their number. -/
theorem Kernel.Finite.answers (hfinite : s.Finite) (errors : Text → Text) {visited : List Text}
    {c : Text} {ctxt : Context Text} (hc : s.contexts c = some ctxt) :
    Answers (s.unvisited visited) fun fuel => s.getErrorMessage errors fuel visited c ctxt := by
  induction hn : s.unvisited visited using Nat.strong_induction_on
    generalizing visited c ctxt with
  | h n ih =>
    by_cases herror : ctxt.state = .error
    · exact .of_succ fun fuel _ => if_pos herror
    by_cases hvisited : c ∈ visited
    · exact .of_succ fun fuel _ => (if_neg herror).trans (if_pos hvisited)
    -- one context fewer is left to those that are asked next
    have hlt := Kernel.unvisited_cons (hfinite c (by rw [hc]; nofun)) hvisited
    have hnext (c' : Text) (ctxt' : Context Text) (hc' : s.contexts c' = some ctxt') :=
      ih _ (hn ▸ hlt) hc' rfl
    obtain ⟨msg, hmsg⟩ := Kernel.answers_first hnext c ctxt.dependencies
    apply Answers.of_succ (m := msg)
    intro fuel hfuel
    exact ((if_neg herror).trans (if_neg hvisited)).trans (hmsg fuel (by omega))

end Termination

section Causes

/-! ## Causes -/

variable {s : Kernel Text} {errors : Text → Text}

/-- A context that is not installed depends on a component that is not. -/
def Kernel.Waits (s : Kernel Text) (c d : Text) : Prop :=
  s.contexts c ≠ none ∧ s.state c ≠ some .installed ∧ d ∈ s.dependencies c ∧
    s.state d ≠ some .installed

/-- Why `c` is not installed, as it is told. -/
inductive Kernel.Cause (s : Kernel Text) (errors : Text → Text) (c : Text) : Text → Prop
  | missing {d : Text} : Relation.ReflTransGen s.Waits c d → s.contexts d = none →
    s.Cause errors c
      ("unmet dependency to '".toList ++ d ++ "': component not found!".toList)
  | error {d : Text} : Relation.ReflTransGen s.Waits c d → s.state d = some .error →
    s.Cause errors c
      ("'".toList ++ d ++ "' ran into an error: ".toList ++ indent ('\n' :: errors d))
  | cycle {d : Text} : Relation.ReflTransGen s.Waits c d → Relation.TransGen s.Waits d d →
    s.Cause errors c "A circular component dependency detected.".toList

/-- The message names a cause, with its lines indented. -/
def Kernel.Names (s : Kernel Text) (errors : Text → Text) (c msg : Text) : Prop :=
  ∃ cause depth, s.Cause errors c cause ∧ indent^[depth] cause <:+: msg

theorem Kernel.Cause.head {c d cause : Text} (hwaits : s.Waits c d)
    (h : s.Cause errors d cause) : s.Cause errors c cause := by
  cases h with
  | missing hpath hnone => exact .missing (.head hwaits hpath) hnone
  | error hpath herror => exact .error (.head hwaits hpath) herror
  | cycle hpath hcycle => exact .cycle (.head hwaits hpath) hcycle

theorem Kernel.Cause.names {c cause : Text} (h : s.Cause errors c cause) :
    s.Names errors c cause := ⟨cause, 0, h, List.infix_rfl⟩

theorem indent_append (t t' : Text) : indent (t ++ t') = indent t ++ indent t' :=
  List.flatMap_append

theorem Kernel.Names.prepend {c msg : Text} (h : s.Names errors c msg) (pre : Text) :
    s.Names errors c (pre ++ msg) := by
  obtain ⟨cause, depth, hcause, hinfix⟩ := h
  exact ⟨cause, depth, hcause, hinfix.trans (List.suffix_append pre msg).isInfix⟩

theorem Kernel.Names.indent {c msg : Text} (h : s.Names errors c msg) :
    s.Names errors c (indent msg) := by
  obtain ⟨cause, depth, hcause, pre, post, rfl⟩ := h
  refine ⟨cause, depth + 1, hcause, Components.indent pre, Components.indent post, ?_⟩
  rw [indent_append, indent_append, Function.iterate_succ_apply']

/-- What a dependency that is not installed answers. -/
theorem Kernel.dependencyMessage_names {ask : Text → Context Text → Option Text}
    {c d err : Text} (hwaits : s.Waits c d)
    (hask : ∀ ctxt msg, s.contexts d = some ctxt → ask d ctxt = some msg → s.Names errors d msg)
    (h : s.dependencyMessage ask d = some err) : err ≠ [] ∧ s.Names errors c err := by
  unfold Kernel.dependencyMessage at h
  cases hd : s.contexts d with
  | none =>
    rw [hd] at h
    cases h
    exact ⟨List.cons_ne_nil _ _, (Kernel.Cause.missing (.single hwaits) hd).names⟩
  | some ctxt =>
    have hinstalled : ctxt.state ≠ .installed := by
      intro heq
      exact hwaits.2.2.2 (by rw [Kernel.state, hd, Option.map_some, heq])
    rw [hd] at h
    dsimp only at h
    rw [if_neg hinstalled] at h
    obtain ⟨msg, hmsg, rfl⟩ := Option.map_eq_some_iff.mp h
    refine ⟨List.cons_ne_nil _ _, ?_⟩
    obtain ⟨cause, depth, hcause, hinfix⟩ := ((hask ctxt msg hd hmsg).prepend ['\n']).indent
    exact ⟨cause, depth, hcause.head hwaits, hinfix⟩

/-- The first dependency that is not installed answers for all. -/
theorem Kernel.firstMessage_names {ask : Text → Context Text → Option Text} {c msg : Text}
    {ds : List Text} (hds : ∀ d ∈ ds, s.state d ≠ some .installed → s.Waits c d)
    (hsome : ∃ d ∈ ds, s.state d ≠ some .installed)
    (hask : ∀ d ctxt msg, s.Waits c d → s.contexts d = some ctxt → ask d ctxt = some msg →
      s.Names errors d msg)
    (h : s.firstMessage ask c ds = some msg) : msg ≠ [] ∧ s.Names errors c msg := by
  induction ds with
  | nil =>
    obtain ⟨d, hd, -⟩ := hsome
    cases hd
  | cons d ds ih =>
    rw [Kernel.firstMessage.eq_2] at h
    by_cases hinstalled : s.state d = some .installed
    · -- the loop goes on behind an installed component
      obtain ⟨ctxt, hctxt, hstate⟩ := Option.map_eq_some_iff.mp hinstalled
      have hanswer : s.dependencyMessage ask d = some [] := by
        unfold Kernel.dependencyMessage
        rw [hctxt]
        exact if_pos hstate
      rw [hanswer] at h
      refine ih (fun d' hd' => hds d' (List.mem_cons_of_mem d hd')) ?_ h
      obtain ⟨d', hd', hne⟩ := hsome
      cases hd' with
      | head => exact absurd hinstalled hne
      | tail _ hd' => exact ⟨d', hd', hne⟩
    · have hwaits := hds d List.mem_cons_self hinstalled
      cases hanswer : s.dependencyMessage ask d with
      | none =>
        rw [hanswer] at h
        cases h
      | some err =>
        obtain ⟨hnonempty, hnames⟩ :=
          Kernel.dependencyMessage_names hwaits (fun ctxt msg => hask d ctxt msg hwaits) hanswer
        rw [hanswer] at h
        dsimp only at h
        rw [if_pos hnonempty] at h
        cases h
        exact ⟨nofun, hnames.prepend _⟩

/-- Where `resolve` has settled, every answer names a cause, by induction on the depth: the
contexts asked before are on the path to the one that is asked. -/
theorem Kernel.Settled.names (hsettled : s.Settled) {fuel : Nat} {visited : List Text}
    {c msg : Text} {ctxt : Context Text} (hc : s.contexts c = some ctxt)
    (hstate : ctxt.state ≠ .installed)
    (hvisited : ∀ v ∈ visited, Relation.TransGen s.Waits v c)
    (h : s.getErrorMessage errors fuel visited c ctxt = some msg) :
    msg ≠ [] ∧ s.Names errors c msg := by
  induction fuel generalizing visited c msg ctxt with
  | zero => cases h
  | succ fuel ih =>
    have hcstate : s.state c = some ctxt.state := by rw [Kernel.state, hc, Option.map_some]
    rw [Kernel.getErrorMessage] at h
    split_ifs at h with herror hmem
    · cases h
      exact ⟨List.cons_ne_nil _ _, (Kernel.Cause.error .refl (herror ▸ hcstate)).names⟩
    · cases h
      exact ⟨List.cons_ne_nil _ _, (Kernel.Cause.cycle .refl (hvisited c hmem)).names⟩
    · have hdeps : s.dependencies c = ctxt.dependencies := by rw [Kernel.dependencies, hc]; rfl
      have hrank : ctxt.state.rank < ComponentState.installed.rank := by
        cases hst : ctxt.state with
        | installed => exact absurd hst hstate
        | error => exact absurd hst herror
        | _ => decide
      have hne : s.state c ≠ some .installed := by
        rw [hcstate]
        exact fun heq => hstate (Option.some.inj heq)
      have hwaits (d : Text) (hd : d ∈ ctxt.dependencies) (hd' : s.state d ≠ some .installed) :
          s.Waits c d := ⟨by rw [hc]; exact Option.some_ne_none _, hne, hdeps ▸ hd, hd'⟩
      refine Kernel.firstMessage_names hwaits (hdeps ▸ hsettled c _ hcstate hrank) ?_ h
      intro d ctxt' msg' hd hctxt hmsg
      have hd' : ctxt'.state ≠ .installed := by
        intro heq
        exact hd.2.2.2 (by rw [Kernel.state, hctxt, Option.map_some, heq])
      refine (ih hctxt hd' ?_ hmsg).2
      intro v hv
      cases hv with
      | head => exact .single hd
      | tail _ hv => exact .tail (hvisited v hv) hd

end Causes

section Reports

/-! ## The reports -/

/-- The report of a context terminates, whatever the dependencies are and whoever was asked before.
Where `resolve` has settled, that of a context that is not installed is not empty and names a cause.
And it has settled when it returns. -/
theorem error_reports (errors : Text → Text) :
    (∀ s : Kernel Text, s.Finite → ∀ visited c ctxt, s.contexts c = some ctxt →
      ∃ msg, ∀ fuel, s.names.length < fuel →
        s.getErrorMessage errors fuel visited c ctxt = some msg) ∧
    (∀ s : Kernel Text, s.Finite → s.Settled → ∀ c ctxt, s.contexts c = some ctxt →
      ctxt.state ≠ .installed → ∃ msg, msg ≠ [] ∧ s.Names errors c msg ∧
        ∀ fuel, s.names.length < fuel → s.getErrorMessage errors fuel [] c ctxt = some msg) ∧
    ∀ ls s l s', Kernel.init.run ls = some s → s.step l = some s' → s.pc ≠ .idle →
      s'.pc = .idle → s'.installing = false → Kernel.Finite s' ∧ Kernel.Settled s' := by
  have hterminates (s : Kernel Text) (hfinite : s.Finite) (visited : List Text) (c : Text)
      (ctxt : Context Text) (hc : s.contexts c = some ctxt) :
      ∃ msg, ∀ fuel, s.names.length < fuel →
        s.getErrorMessage errors fuel visited c ctxt = some msg := by
    have hanswers : Answers (s.unvisited visited) _ := hfinite.answers errors hc
    obtain ⟨msg, hmsg⟩ := hanswers
    exact ⟨msg, fun fuel hfuel => hmsg fuel ((s.unvisited_le visited).trans_lt hfuel)⟩
  refine ⟨hterminates, ?_, ?_⟩
  · intro s hfinite hsettled c ctxt hc hstate
    obtain ⟨msg, hmsg⟩ := hterminates s hfinite [] c ctxt hc
    obtain ⟨hnonempty, hnames⟩ :=
      hsettled.names hc hstate (fun _ hv => absurd hv List.not_mem_nil)
        (hmsg (s.names.length + 1) (Nat.lt_succ_self _))
    exact ⟨msg, hnonempty, hnames, hmsg⟩
  · intro ls s l s' hrun hstep hbefore hafter hinst
    have hinv := Kernel.Inv.init.run hrun
    exact ⟨fun c hc => ((hinv.step hstep).core.names_iff c).mpr hc,
      hinv.returns hstep hbefore hafter hinst⟩

/-- A component `c` that depends on nothing, and then `a` and `b`, which depend on each other. -/
def mutuallyDependent : List (Label Text) :=
  .request (.installContext ['c'] [] .installed) :: actAfter [4, 7, 9, 11, 13, 15] ++
    List.replicate 13 .tick ++
    [.request (.attachDeployer [(['b'], [['a']])]),
      .request (.installContext ['a'] [['b']] .installed)] ++ List.replicate 27 .tick

/-- What is told of `a` at the end, where `resolve` has returned. -/
theorem error_reports_mutual :
    ∃ s msg, Kernel.init.run (mutuallyDependent ++ [.tick]) = some s ∧ msg ≠ [] ∧
      s.Names (fun _ => []) ['a'] msg ∧
      s.getErrorMessage (fun _ => []) 4 [] ['a'] ⟨.notInstalled, .installed, [['b']]⟩ =
        some msg := by
  have hends : (Kernel.init.run mutuallyDependent).bind (fun s =>
      (s.step .tick).map fun s' =>
        decide (s.pc ≠ .idle ∧ s'.pc = .idle ∧ s'.installing = false ∧ s'.names.length = 3 ∧
          s'.contexts ['a'] = some ⟨.notInstalled, .installed, [['b']]⟩)) = some true := by
    decide +kernel
  obtain ⟨s, hs, hend⟩ := Option.bind_eq_some_iff.mp hends
  obtain ⟨s', hs', hdecided⟩ := Option.map_eq_some_iff.mp hend
  obtain ⟨hbefore, hafter, hinst, hlength, hctxt⟩ := of_decide_eq_true hdecided
  have hreports := error_reports fun _ => []
  obtain ⟨hfinite, hsettled⟩ := hreports.2.2 _ s .tick s' hs hs' hbefore hafter hinst
  obtain ⟨msg, hne, hnames, hmsg⟩ := hreports.2.1 s' hfinite hsettled ['a'] _ hctxt
    (by decide)
  refine ⟨s', msg, ?_, hne, hnames, hmsg 4 (by omega)⟩
  rw [Kernel.run, List.foldlM_append, ← Kernel.run, hs]
  exact (bind_pure _).trans hs'

example : ((Kernel.init.run (mutuallyDependent ++ [.tick])).bind fun s =>
    s.getErrorMessage (fun _ => []) 4 [] ['a'] ⟨.notInstalled, .installed, [['b']]⟩) =
      some ("'a' has an unmet dependency: \n\t'b' has an unmet dependency: ".toList ++
        "\n\t\tA circular component dependency detected.".toList) := by
  decide +kernel

end Reports

end Nox.Components

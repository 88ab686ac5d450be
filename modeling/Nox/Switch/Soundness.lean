import Mathlib.Data.Nat.Basic
import Nox.Switch.Handshake

/-!
# What the handshake guarantees

A handshake registers at most one switch, and it registers one exactly when the switch
was cleared in time and one more step could begin in time (`runs_sound`).  A switch that
is cleared in time is not registered when that step comes too late (`late_step`).
-/

namespace Nox.Switch

variable {τ : Type} [LinearOrder τ]

section Histories

/-! ## Histories -/

def Act.time : Act τ → τ
  | .run now => now
  | .send now _ => now
  | .recv now _ _ => now
  | .approval now _ => now

/-- Features replies, and only with this datapath id. -/
structure Replied (h : List (Act τ)) (dpid : UInt64) : Prop where
  mem : ∃ t, .recv t 0 (some (.featuresReply dpid)) ∈ h
  only : ∀ t d, .recv t 0 (some (.featuresReply d)) ∈ h → d = dpid

/-- The authentication had this outcome, and no other. -/
structure Decided (h : List (Act τ)) (approved : Bool) : Prop where
  mem : ∃ t, .approval t approved ∈ h
  only : ∀ t b, .approval t b ∈ h → b = approved

def Undecided (h : List (Act τ)) : Prop :=
  ∀ t b, .approval t b ∉ h

theorem admitted_cons {timeout : τ} {a : Act τ} {h : List (Act τ)} {d : UInt64} :
    Admitted timeout (a :: h) d ↔
      Admitted timeout h d ∨ ∃ t, a = .run t ∧ t ≤ timeout ∧ Cleared timeout h d := by
  constructor
  · rintro ⟨h₂, h₁, t, heq, ht, hclear⟩
    cases h₂ with
    | nil =>
      cases heq
      exact .inr ⟨t, rfl, ht, hclear⟩
    | cons b h₂ =>
      cases heq
      exact .inl ⟨h₂, h₁, t, rfl, ht, hclear⟩
  · rintro (⟨h₂, h₁, t, rfl, ht, hclear⟩ | ⟨t, rfl, ht, hclear⟩)
    · exact ⟨a :: h₂, h₁, t, rfl, ht, hclear⟩
    · exact ⟨[], h, t, rfl, ht, hclear⟩

omit [LinearOrder τ] in
theorem failed_cons {a : Act τ} {h : List (Act τ)} : Failed (a :: h) ↔ a.Fails ∨ Failed h := by
  simp [Failed]

omit [LinearOrder τ] in
theorem undecided_cons {a : Act τ} {h : List (Act τ)} :
    Undecided (a :: h) ↔ (∀ t b, a ≠ .approval t b) ∧ Undecided h := by
  refine ⟨fun hu => ⟨fun t b heq => ?_, fun t b hmem => hu t b (List.mem_cons_of_mem _ hmem)⟩,
    fun hu t b hmem => ?_⟩
  · exact hu t b (heq ▸ List.mem_cons_self)
  · rcases List.mem_cons.mp hmem with heq | hmem
    · exact hu.1 t b heq.symm
    · exact hu.2 t b hmem

theorem Undecided.not_cleared {timeout : τ} {h : List (Act τ)} (hu : Undecided h) (d : UInt64) :
    ¬ Cleared timeout h d := by
  rintro ⟨-, ⟨t, -, ht⟩, -⟩
  exact hu t true ht

theorem Undecided.not_admitted {timeout : τ} {h : List (Act τ)} (hu : Undecided h) (d : UInt64) :
    ¬ Admitted timeout h d := by
  rintro ⟨h₂, h₁, t, rfl, -, hclear⟩
  refine Undecided.not_cleared (fun t b hmem => ?_) d hclear
  exact hu t b (List.mem_append_right _ (List.mem_cons_of_mem _ hmem))

/-- A switch is cleared when the time is not up yet. -/
theorem cleared_iff {timeout now : τ} {h : List (Act τ)} {dpid : UInt64} {approved : Bool}
    (hr : Replied h dpid) (hd : Decided h approved) (hclean : ¬ Failed h)
    (htime : ∀ a ∈ h, a.time ≤ now) (hnow : now ≤ timeout) (d : UInt64) :
    Cleared timeout h d ↔ d = dpid ∧ approved = true := by
  constructor
  · rintro ⟨⟨t, -, ht⟩, ⟨t', -, ht'⟩, -⟩
    exact ⟨hr.only t d ht, (hd.only t' true ht').symm⟩
  · rintro ⟨rfl, rfl⟩
    obtain ⟨t, ht⟩ := hr.mem
    obtain ⟨t', ht'⟩ := hd.mem
    exact ⟨⟨t, (htime _ ht).trans hnow, ht⟩, ⟨t', (htime _ ht').trans hnow, ht'⟩, hclean⟩

end Histories

section Invariant

/-! ## The invariant -/

/-- What holds while the machine runs. -/
structure Running (s : Handshake τ) : Prop where
  registered : s.registered = []
  clean : ¬ Failed s.history
  early : s.state = .sendFeaturesReq ∨ s.state = .sendConfig ∨ s.state = .recvFeaturesReply →
    (∀ t d, .recv t 0 (some (.featuresReply d)) ∉ s.history) ∧ Undecided s.history
  auth : s.state = .checkSwitchAuth →
    (∃ d, s.featuresReply = some d ∧ Replied s.history d) ∧ Undecided s.history
  register : s.state = .registerSwitch →
    (∃ d, s.featuresReply = some d ∧ Replied s.history d) ∧ Decided s.history s.switchApproved

/-- The invariant: before its end the machine has admitted no switch, and then it has
registered those it admitted. -/
structure Inv (s : Handshake τ) : Prop where
  times : ∀ a ∈ s.history, a.time ≤ s.clock
  joined : s.joined = s.registered
  once : s.registered.length ≤ 1
  running : s.task ≠ .gone → Running s
  completion : s.task = .completion → s.state = .checkSwitchAuth
  pending : s.task ≠ .gone → ∀ d, ¬ Admitted s.timeout s.history d
  admitted : ∀ d, s.registered = [d] ↔ d ≠ 0 ∧ Admitted s.timeout s.history d

variable {s : Handshake τ}

/-- A running machine has registered nothing. -/
theorem Inv.of_running (htimes : ∀ a ∈ s.history, a.time ≤ s.clock)
    (hjoined : s.joined = s.registered) (hrun : Running s)
    (hcompletion : s.task = .completion → s.state = .checkSwitchAuth)
    (hpending : ∀ d, ¬ Admitted s.timeout s.history d) : Inv s where
  times := htimes
  joined := hjoined
  once := by
    rw [hrun.registered]
    exact Nat.zero_le 1
  running := fun _ => hrun
  completion := hcompletion
  pending := fun _ => hpending
  admitted := by
    intro d
    rw [hrun.registered]
    exact ⟨fun h => (nomatch h), fun h => absurd h.2 (hpending d)⟩

/-- A machine that ends without registering a switch. -/
theorem Inv.doExit (htimes : ∀ a ∈ s.history, a.time ≤ s.clock)
    (hjoined : s.joined = s.registered) (hnone : s.registered = [])
    (hpending : ∀ d, d ≠ 0 → ¬ Admitted s.timeout s.history d) (error : Int) :
    Inv (s.doExit error) where
  times := htimes
  joined := hjoined
  once := by
    show s.registered.length ≤ 1
    rw [hnone]
    exact Nat.zero_le 1
  running := fun h => absurd rfl h
  completion := fun h => nomatch h
  pending := fun h => absurd rfl h
  admitted := by
    intro d
    show s.registered = [d] ↔ _
    rw [hnone]
    exact ⟨fun h => (nomatch h), fun h => absurd h.2 (hpending d h.1)⟩

theorem inv_start (now timeout : τ) (disconnected : Bool) :
    Inv (Handshake.start now timeout disconnected) := by
  have hnone : Undecided (Handshake.start now timeout disconnected).history := fun t b hmem =>
    nomatch hmem
  refine .of_running (fun a ha => nomatch ha) rfl ?_ (fun h => nomatch h) hnone.not_admitted
  refine ⟨rfl, ?_, fun _ => ⟨?_, hnone⟩, fun h => (nomatch h), fun h => (nomatch h)⟩
  · rintro ⟨a, ha, -⟩
    cases ha
  · exact fun t d hmem => nomatch hmem

omit [LinearOrder τ] in
/-- The machine has done something that decides nothing. -/
theorem Running.push (h : Running s) {a : Act τ} (now : τ) (hfails : ¬ a.Fails)
    (hreply : ∀ t d, a ≠ .recv t 0 (some (.featuresReply d)))
    (happroval : ∀ t b, a ≠ .approval t b) :
    Running { s with clock := now, history := a :: s.history } := by
  have hundecided : Undecided s.history → Undecided (a :: s.history) := fun hu =>
    undecided_cons.mpr ⟨happroval, hu⟩
  have hreplied : ∀ d, Replied s.history d → Replied (a :: s.history) d := fun d hr => by
    obtain ⟨t, ht⟩ := hr.mem
    refine ⟨⟨t, List.mem_cons_of_mem _ ht⟩, fun t d' hmem => ?_⟩
    rcases List.mem_cons.mp hmem with heq | hmem
    · exact absurd heq.symm (hreply t d')
    · exact hr.only t d' hmem
  have hmsg : (∃ d, s.featuresReply = some d ∧ Replied s.history d) →
      ∃ d, s.featuresReply = some d ∧ Replied (a :: s.history) d := fun ⟨d, hd, hr⟩ =>
    ⟨d, hd, hreplied d hr⟩
  refine ⟨h.registered, ?_, fun hstate => ⟨fun t d hmem => ?_, hundecided (h.early hstate).2⟩,
    fun hstate => ⟨hmsg (h.auth hstate).1, hundecided (h.auth hstate).2⟩,
    fun hstate => ⟨hmsg (h.register hstate).1, ?_, fun t b hmem => ?_⟩⟩
  · exact fun hf => (failed_cons.mp hf).elim hfails h.clean
  · rcases List.mem_cons.mp hmem with heq | hmem
    · exact hreply t d heq.symm
    · exact (h.early hstate).1 t d hmem
  · obtain ⟨t, ht⟩ := (h.register hstate).2.mem
    exact ⟨t, List.mem_cons_of_mem _ ht⟩
  · rcases List.mem_cons.mp hmem with heq | hmem
    · exact absurd heq.symm (happroval t b)
    · exact (h.register hstate).2.only t b hmem

omit [LinearOrder τ] in
/-- A running machine that is not about to register has admitted no switch. -/
theorem Running.undecided (h : Running s) (hstate : s.state ≠ .registerSwitch) :
    Undecided s.history := by
  cases hs : s.state with
  | sendFeaturesReq => exact (h.early (.inl hs)).2
  | sendConfig => exact (h.early (.inr (.inl hs))).2
  | recvFeaturesReply => exact (h.early (.inr (.inr hs))).2
  | checkSwitchAuth => exact (h.auth hs).2
  | registerSwitch => exact absurd hs hstate

end Invariant

section Steps

/-! ## The steps keep it -/

variable {s : Handshake τ}

/-- What holds in `run` once it has looked at the time. -/
structure Stepping (s : Handshake τ) : Prop where
  times : ∀ a ∈ s.history, a.time ≤ s.clock
  joined : s.joined = s.registered
  running : Running s
  task : s.task = .ready

theorem Stepping.push (h : Stepping s) {a : Act τ} (ha : a.time ≤ s.clock) (hfails : ¬ a.Fails)
    (hreply : ∀ t d, a ≠ .recv t 0 (some (.featuresReply d)))
    (happroval : ∀ t b, a ≠ .approval t b) :
    Stepping { s with history := a :: s.history } where
  times := List.forall_mem_cons.mpr ⟨ha, h.times⟩
  joined := h.joined
  running := h.running.push s.clock hfails hreply happroval
  task := h.task

theorem Stepping.inv (h : Stepping s) (hstate : s.state ≠ .registerSwitch) : Inv s :=
  .of_running h.times h.joined h.running (fun hc => by rw [h.task] at hc; cases hc)
    (h.running.undecided hstate).not_admitted

/-- The machine ends with its last act, which is not an approval. -/
theorem Stepping.doExit (h : Stepping s) (hstate : s.state ≠ .registerSwitch) {a : Act τ}
    (ha : a.time ≤ s.clock) (happroval : ∀ t b, a ≠ .approval t b) (error : Int) :
    Inv (Handshake.doExit { s with history := a :: s.history } error) := by
  have hundecided : Undecided (a :: s.history) :=
    undecided_cons.mpr ⟨happroval, h.running.undecided hstate⟩
  apply Inv.doExit (s := { s with history := a :: s.history })
  · exact List.forall_mem_cons.mpr ⟨ha, h.times⟩
  · exact h.joined
  · exact h.running.registered
  · exact fun d _ => hundecided.not_admitted d

/-- The machine goes on to another state. -/
theorem Stepping.next (h : Stepping s) {state : HandshakeState} (hstate : state ≠ .registerSwitch)
    (hrun : Running { s with state := state }) : Inv { s with state := state } :=
  Stepping.inv (s := { s with state := state }) ⟨h.times, h.joined, hrun, h.task⟩ hstate

theorem Stepping.sendMessage (h : Stepping s)
    (hstate : s.state = .sendFeaturesReq ∨ s.state = .sendConfig) (error : Int) :
    Inv (s.sendMessage error) := by
  obtain ⟨state, hnext, hs⟩ : ∃ state, s.state.nextState = some state ∧
      (state = .sendConfig ∨ state = .recvFeaturesReply) := by
    rcases hstate with hs | hs
    · exact ⟨_, by rw [hs]; rfl, .inl rfl⟩
    · exact ⟨_, by rw [hs]; rfl, .inr rfl⟩
  have hregister : s.state ≠ .registerSwitch := fun heq => by
    rw [heq] at hnext
    cases hnext
  have hpush : ¬ (error ≠ 0 ∧ error ≠ EAGAIN) →
      Stepping { s with history := .send s.clock error :: s.history } := fun hfails =>
    h.push (le_refl _) hfails (fun t d heq => nomatch heq) fun t b heq => nomatch heq
  simp only [Handshake.sendMessage, hnext]
  split
  · next hagain => exact (hpush fun hf => hf.2 hagain).inv hregister
  · split
    · exact h.doExit (a := .send s.clock error) hregister (le_refl _)
        (fun t b heq => nomatch heq) error
    · next hzero =>
      have hstep := hpush fun hf => hzero hf.1
      have hearly := hstep.running.early (hstate.imp_right .inl)
      refine hstep.next ?_ ⟨h.running.registered, hstep.running.clean, fun _ => hearly, ?_, ?_⟩
      · rcases hs with rfl | rfl <;> exact fun heq => nomatch heq
      · rcases hs with rfl | rfl <;> exact fun heq => nomatch heq
      · rcases hs with rfl | rfl <;> exact fun heq => nomatch heq

theorem Stepping.recvMessage (h : Stepping s) (hstate : s.state = .recvFeaturesReply)
    (error : Int) (msg : Option Message) : Inv (s.recvMessage error msg) := by
  have hregister : s.state ≠ .registerSwitch := fun heq => by
    rw [heq] at hstate
    cases hstate
  have hpush : ¬ Act.Fails (.recv s.clock error msg) →
      (∀ d, error = 0 → msg ≠ some (.featuresReply d)) →
      Stepping { s with history := .recv s.clock error msg :: s.history } := by
    intro hfails hreply
    refine h.push (le_refl _) hfails (fun t d heq => ?_) fun t b heq => nomatch heq
    cases heq
    exact hreply d rfl rfl
  have hexit := fun e => h.doExit (a := .recv s.clock error msg) hregister (le_refl _)
    (fun t b heq => nomatch heq) e
  unfold Handshake.recvMessage
  dsimp only
  split
  · next hagain =>
    refine (hpush ?_ fun d hzero => ?_).inv hregister
    · rintro (hf | hf)
      · exact hf.2 hagain
      · rw [hagain] at hf
        cases hf.1
    · rw [hagain] at hzero
      cases hzero
  · split
    · exact hexit error
    · next hne hzero =>
      have hzero := not_not.mp hzero
      subst hzero
      have hquiet : (∀ type code, msg ≠ some (.error type code)) →
          (∀ d, msg ≠ some (.featuresReply d)) →
          Stepping { s with history := .recv s.clock 0 msg :: s.history } := by
        intro herror hreply
        refine hpush ?_ fun d _ => hreply d
        rintro (hf | ⟨-, type, code, heq⟩)
        · exact hf.1 rfl
        · exact herror type code heq
      split
      · exact (hquiet (fun _ _ heq => nomatch heq) fun _ heq => nomatch heq).inv hregister
      · next dpid =>
        rw [if_neg (not_not_intro hstate)]
        obtain ⟨hnone, hundecided⟩ := h.running.early (.inr (.inr hstate))
        have htimes : ∀ a ∈ Act.recv s.clock 0 (some (.featuresReply dpid)) :: s.history,
            a.time ≤ s.clock := List.forall_mem_cons.mpr ⟨le_refl _, h.times⟩
        refine .of_running htimes h.joined ⟨h.running.registered, fun hf => ?_, fun heq => ?_,
          fun _ => ⟨⟨dpid, rfl, ⟨s.clock, List.mem_cons_self⟩, fun t d hmem => ?_⟩, ?_⟩,
          fun heq => nomatch heq⟩ (fun _ => rfl) ?_
        · rcases failed_cons.mp hf with (hf | ⟨-, type, code, heq⟩) | hf
          · exact hf.1 rfl
          · cases heq
          · exact h.running.clean hf
        · rcases heq with heq | heq | heq <;> cases heq
        · rcases List.mem_cons.mp hmem with heq | hmem
          · cases heq
            rfl
          · exact absurd hmem (hnone t d)
        · exact undecided_cons.mpr ⟨fun t b heq => (nomatch heq), hundecided⟩
        · refine Undecided.not_admitted (undecided_cons.mpr ⟨fun t b heq => ?_, hundecided⟩)
          cases heq
      · next xid =>
        have hstep := hquiet (fun _ _ heq => nomatch heq) fun _ heq => nomatch heq
        exact Stepping.inv (s := { s with
          history := .recv s.clock 0 (some (.echoRequest xid)) :: s.history
          echoed := s.echoed ++ [xid] }) ⟨hstep.times, hstep.joined, ⟨hstep.running.registered,
            hstep.running.clean, hstep.running.early, hstep.running.auth, hstep.running.register⟩,
            hstep.task⟩ hregister
      · exact hexit EINVAL
      · exact (hquiet (fun _ _ heq => nomatch heq) fun _ heq => nomatch heq).inv hregister
      · exact (hquiet (fun _ _ heq => nomatch heq) fun _ heq => nomatch heq).inv hregister

/-- The machine registers the switch it has admitted. -/
theorem Stepping.registerSwitch (h : Stepping s) (hstate : s.state = .registerSwitch)
    (hadmitted : ∀ d, Admitted s.timeout s.history d ↔
      s.featuresReply = some d ∧ s.switchApproved = true) :
    ∃ s', s.registerSwitch = some s' ∧ Inv s' := by
  obtain ⟨⟨dpid, hdpid, -⟩, -⟩ := h.running.register hstate
  have hnone := h.running.registered
  simp only [Handshake.registerSwitch, hdpid]
  split
  · next happroved =>
    refine ⟨_, rfl, .doExit h.times h.joined hnone (fun d _ hd => ?_) EPERM⟩
    rw [((hadmitted d).mp hd).2] at happroved
    cases happroved
  · split
    · next hzero =>
      refine ⟨_, rfl, .doExit h.times h.joined hnone (fun d hd hadm => hd ?_) EINVAL⟩
      rw [hdpid] at hadmitted
      exact (Option.some.inj ((hadmitted d).mp hadm).1).symm.trans hzero
    · next happroved hzero =>
      refine ⟨_, rfl, h.times, ?_, ?_, fun hg => absurd rfl hg, fun hc => (nomatch hc),
        fun hg => absurd rfl hg, fun d => ?_⟩
      · show s.joined ++ [dpid] = s.registered ++ [dpid]
        rw [h.joined]
      · show (s.registered ++ [dpid]).length ≤ 1
        rw [hnone]
        exact Nat.le_refl 1
      · show s.registered ++ [dpid] = [d] ↔ d ≠ 0 ∧ Admitted s.timeout s.history d
        rw [hadmitted, hnone, hdpid]
        constructor
        · intro heq
          cases heq
          exact ⟨hzero, rfl, by simpa using happroved⟩
        · rintro ⟨-, heq, -⟩
          cases heq
          rfl

/-- `run` looks at the time, and goes on if it is not up. -/
theorem Inv.inTime (h : Inv s) (htask : s.task = .ready) {now : τ} (hnow : s.clock ≤ now)
    {body : Handshake τ → Option (Handshake τ)}
    (hbody : ∀ s', s' = { s with clock := now, history := .run now :: s.history } →
      now ≤ s'.timeout → Stepping s' →
      (∀ d, Admitted s'.timeout s'.history d ↔ Cleared s'.timeout s.history d) →
      ∃ s'', body s' = some s'' ∧ Inv s'') :
    ∃ s', s.inTime now body = some s' ∧ Inv s' := by
  have hlive : s.task ≠ .gone := fun heq => by
    rw [htask] at heq
    cases heq
  have hrun := h.running hlive
  have hpending := h.pending hlive
  have htimes : ∀ a ∈ Act.run now :: s.history, a.time ≤ now :=
    List.forall_mem_cons.mpr ⟨le_refl _, fun a ha => (h.times a ha).trans hnow⟩
  unfold Handshake.inTime
  dsimp only
  split
  · next hlate =>
    refine ⟨_, rfl, Inv.doExit (s := { s with clock := now, history := .run now :: s.history })
      htimes h.joined hrun.registered (fun d _ hd => ?_) ETIMEDOUT⟩
    rcases admitted_cons.mp hd with hd | ⟨t, heq, ht, -⟩
    · exact hpending d hd
    · cases heq
      exact absurd hlate (not_lt_of_ge ht)
  · next hlate =>
    have hle := not_lt.mp hlate
    apply hbody _ rfl hle
    · have hpush := hrun.push (a := .run now) now (fun hf => hf) (fun t d heq => nomatch heq)
        fun t b heq => nomatch heq
      exact ⟨htimes, h.joined, hpush, htask⟩
    · intro d
      rw [admitted_cons]
      constructor
      · rintro (hd | ⟨t, -, -, hd⟩)
        · exact absurd hd (hpending d)
        · exact hd
      · exact fun hd => .inr ⟨now, rfl, hle, hd⟩

/-- In `registerSwitch`, when the time is not up. -/
theorem Inv.register (h : Inv s) (htask : s.task = .ready) (hstate : s.state = .registerSwitch)
    {now : τ} (hnow : s.clock ≤ now) {s' : Handshake τ}
    (hs' : s' = { s with clock := now, history := .run now :: s.history })
    (hle : now ≤ s'.timeout) (hstep : Stepping s')
    (hadmitted : ∀ d, Admitted s'.timeout s'.history d ↔ Cleared s'.timeout s.history d) :
    ∃ s'', s'.registerSwitch = some s'' ∧ Inv s'' := by
  have hrun : Running s := h.running fun heq => by
    rw [htask] at heq
    cases heq
  obtain ⟨⟨dpid, hdpid, hreplied⟩, hdecided⟩ := hrun.register hstate
  have hcleared := cleared_iff hreplied hdecided hrun.clean
    (fun a ha => (h.times a ha).trans hnow) hle
  apply hstep.registerSwitch
  · rw [hs']
    exact hstate
  · intro d
    rw [hadmitted, hcleared, hs']
    show _ ↔ s.featuresReply = some d ∧ _
    rw [hdpid, Option.some.injEq, eq_comm]

/-- The authentication ends. -/
theorem Inv.approve (h : Inv s) (hlive : s.task ≠ .gone) (hstate : s.state = .checkSwitchAuth)
    {now : τ} (hnow : s.clock ≤ now) (approved : Bool) :
    Inv { Handshake.approve { s with clock := now } approved .registerSwitch with
      task := .ready } := by
  have hrun := h.running hlive
  obtain ⟨⟨dpid, hdpid, hreplied⟩, hundecided⟩ := hrun.auth hstate
  have htimes : ∀ a ∈ Act.approval now approved :: s.history, a.time ≤ now :=
    List.forall_mem_cons.mpr ⟨le_refl _, fun a ha => (h.times a ha).trans hnow⟩
  refine .of_running htimes h.joined ⟨hrun.registered, fun hf => ?_, fun heq => ?_,
    fun heq => (nomatch heq), fun _ => ⟨⟨dpid, hdpid, ?_, fun t d hmem => ?_⟩,
      ⟨now, List.mem_cons_self⟩, fun t b hmem => ?_⟩⟩ (fun heq => nomatch heq) fun d hd => ?_
  · exact (failed_cons.mp hf).elim id hrun.clean
  · rcases heq with heq | heq | heq <;> cases heq
  · obtain ⟨t, ht⟩ := hreplied.mem
    exact ⟨t, List.mem_cons_of_mem _ ht⟩
  · rcases List.mem_cons.mp hmem with heq | hmem
    · cases heq
    · exact hreplied.only t d hmem
  · rcases List.mem_cons.mp hmem with heq | hmem
    · cases heq
      rfl
    · exact absurd hmem (hundecided t b)
  · rcases admitted_cons.mp hd with hd | ⟨t, heq, -⟩
    · exact hundecided.not_admitted d hd
    · cases heq

theorem Inv.run (h : Inv s) (htask : s.task = .ready) {env : Env τ} (hnow : s.clock ≤ env.now)
    (hlater : env.now ≤ env.later) : ∃ s', s.run env = some s' ∧ Inv s' := by
  apply h.inTime htask hnow
  intro s' hs' hle hstep hadmitted
  cases hstate : s'.state with
  | sendFeaturesReq => exact ⟨_, rfl, hstep.sendMessage (.inl hstate) env.send⟩
  | sendConfig => exact ⟨_, rfl, hstep.sendMessage (.inr hstate) env.send⟩
  | recvFeaturesReply => exact ⟨_, rfl, hstep.recvMessage hstate env.recv env.msg⟩
  | registerSwitch =>
    have hs : s.state = .registerSwitch := by rw [← hstate, hs']
    exact h.register htask hs hnow hs' hle hstep hadmitted
  | checkSwitchAuth =>
    have hinv : Inv s' := hstep.inv fun heq => by
      rw [heq] at hstate
      cases hstate
    have hlive : s'.task ≠ .gone := fun heq => by
      rw [hstep.task] at heq
      cases heq
    have hclock : s'.clock = env.now := by rw [hs']
    show ∃ s'', s'.checkSwitchAuth env.auth env.later = some s'' ∧ Inv s''
    unfold Handshake.checkSwitchAuth
    split
    · refine ⟨_, rfl, .of_running hinv.times hinv.joined ?_ (fun _ => hstate)
        (hinv.pending hlive)⟩
      have hrun := hinv.running hlive
      exact ⟨hrun.registered, hrun.clean, hrun.early, hrun.auth, hrun.register⟩
    · have happrove := hinv.approve hlive hstate (le_refl _) true
      have heq : { Handshake.approve { s' with clock := s'.clock } true .registerSwitch with
          task := .ready } = s'.approve true .registerSwitch := by
        rw [← hstep.task]
        rfl
      rw [heq] at happrove
      have htask' : (s'.approve true .registerSwitch).task = .ready := hstep.task
      have hlater' : (s'.approve true .registerSwitch).clock ≤ env.later := hclock ▸ hlater
      apply happrove.inTime htask' hlater'
      intro s₁ hs₁ hle₁ hstep₁ hadmitted₁
      exact happrove.register htask' rfl hlater' hs₁ hle₁ hstep₁ hadmitted₁

theorem Inv.step (h : Inv s) {l : Label τ} {s' : Handshake τ} (hs : s.step l = some s') :
    Inv s' := by
  cases l with
  | run env =>
    unfold Handshake.step at hs
    dsimp only at hs
    split at hs
    · next hcond =>
      obtain ⟨s'', hs'', hinv⟩ := h.run hcond.1 hcond.2.1 hcond.2.2
      cases hs.symm.trans hs''
      exact hinv
    · cases hs
  | switchAuthCb now approved =>
    unfold Handshake.step at hs
    dsimp only at hs
    split at hs
    · next hcond =>
      cases hs
      refine h.approve (fun heq => ?_) (h.completion hcond.1) hcond.2 approved
      rw [hcond.1] at heq
      cases heq
    · cases hs

theorem Inv.runs (h : Inv s) {ls : List (Label τ)} {s' : Handshake τ}
    (hs : s.runs ls = some s') : Inv s' := by
  induction ls generalizing s with
  | nil =>
    cases hs
    exact h
  | cons l ls ih =>
    rw [Handshake.runs, List.foldlM_cons] at hs
    obtain ⟨s₁, hs₁, hs'⟩ := Option.bind_eq_some_iff.mp hs
    exact ih (h.step hs₁) hs'

end Steps

section Guarantee

/-! ## The guarantee -/

/-- The connection is registered and the join event posted exactly when the switch, with
a datapath id that is not zero, was cleared in time and a step began in time after that.
This happens at most once, it ends the handshake, and nothing happens after the end. -/
structure Sound (s : Handshake τ) : Prop where
  registered : ∀ d, s.registered = [d] ↔ d ≠ 0 ∧ Admitted s.timeout s.history d
  once : s.registered.length ≤ 1
  joined : s.joined = s.registered
  last : s.registered ≠ [] → s.task = .gone
  ended : s.task = .gone → ∀ l, s.step l = none
  goes_on : s.task = .ready → ∀ env, s.clock ≤ env.now → env.now ≤ env.later →
    (s.step (.run env)).isSome

theorem Inv.sound {s : Handshake τ} (h : Inv s) : Sound s where
  registered := h.admitted
  once := h.once
  joined := h.joined
  last := fun hne => Classical.byContradiction fun hlive => hne (h.running hlive).registered
  ended := by
    intro hgone l
    cases l with
    | run env => exact if_neg fun hc => by rw [hgone] at hc; cases hc.1
    | switchAuthCb now approved => exact if_neg fun hc => by rw [hgone] at hc; cases hc.1
  goes_on := by
    intro htask env hnow hlater
    obtain ⟨s', hs', -⟩ := h.run htask hnow hlater
    rw [Handshake.step, if_pos ⟨htask, hnow, hlater⟩, hs']
    rfl

/-- Every handshake, with any peer, authenticator and clock. -/
theorem runs_sound {now timeout : τ} {disconnected : Bool} {ls : List (Label τ)}
    {s : Handshake τ} (hs : (Handshake.start now timeout disconnected).runs ls = some s) :
    Sound s :=
  ((inv_start now timeout disconnected).runs hs).sound

/-- Both sends succeed, the features reply comes, and the authenticator is asked. -/
def asked (now : Nat) (dpid : UInt64) : List (Label Nat) :=
  List.replicate 4 (.run ⟨now, 0, 0, some (.featuresReply dpid), true, now⟩)

theorem runs_sound_registers :
    ∃ s, (Handshake.start 0 4 false).runs
      (asked 1 7 ++ [.switchAuthCb 2 true, .run ⟨3, 0, 0, none, true, 3⟩]) = some s ∧
      s.registered = [7] ∧ Sound s := by
  obtain ⟨s, hs⟩ : ∃ s, (Handshake.start 0 4 false).runs
      (asked 1 7 ++ [.switchAuthCb 2 true, .run ⟨3, 0, 0, none, true, 3⟩]) = some s := ⟨_, rfl⟩
  have hregistered : s.registered = [7] := by
    cases hs
    rfl
  exact ⟨s, hs, hregistered, runs_sound hs⟩

/-- The switch is approved in time, and the next step begins after the timeout. -/
theorem late_step :
    ¬ ∀ ls s, (Handshake.start 0 4 false).runs ls = some s → s.task = .gone →
      ∀ d, s.registered = [d] ↔ d ≠ 0 ∧ Cleared s.timeout s.history d := by
  intro h
  obtain ⟨s, hs⟩ : ∃ s, (Handshake.start 0 4 false).runs
      (asked 1 7 ++ [.switchAuthCb 3 true, .run ⟨5, 0, 0, none, true, 5⟩]) = some s := ⟨_, rfl⟩
  have hfacts : s.task = .gone ∧ s.registered = [] ∧ s.timeout = 4 ∧ s.history =
      [.run 5, .approval 3 true, .run 1, .recv 1 0 (some (.featuresReply 7)), .run 1, .send 1 0,
        .run 1, .send 1 0, .run 1] := by
    cases hs
    exact ⟨rfl, rfl, rfl, rfl⟩
  obtain ⟨htask, hregistered, htimeout, hhistory⟩ := hfacts
  have hclean : ¬ Failed s.history := by
    rw [hhistory]
    simp [Failed, Act.Fails]
  have hcleared : Cleared s.timeout s.history 7 := by
    refine ⟨⟨1, ?_, ?_⟩, ⟨3, ?_, ?_⟩, hclean⟩
    · simp [htimeout]
    · simp [hhistory]
    · simp [htimeout]
    · simp [hhistory]
  have hone := (h _ s hs htask 7).mpr ⟨by decide, hcleared⟩
  rw [hregistered] at hone
  cases hone

end Guarantee

end Nox.Switch

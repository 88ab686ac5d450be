/-!
# How a program that throws can end

A program in `Except ε` returns, throws, or ends in one error that is bad.  A verdict
says of the inputs when it is not the bad one, and when it returns.
-/

namespace Nox

section Steps

/-! ## Steps -/

variable {ε α β : Type}

/-- A sequence of steps succeeds when each step does. -/
theorem bind_eq_ok {x : Except ε α} {f : α → Except ε β} {b : β} :
    x >>= f = .ok b ↔ ∃ a, x = .ok a ∧ f a = .ok b := by
  cases x <;> simp [bind, Except.bind]

/-- A loop succeeds when each pass does. -/
theorem forM_eq_ok {f : α → Except ε Unit} {l : List α} :
    l.forM f = .ok () ↔ ∀ a ∈ l, f a = .ok () := by
  induction l with
  | nil => simp [List.forM, pure, Except.pure]
  | cons a l ih =>
    rw [List.forall_mem_cons, ← ih]
    change (f a >>= fun _ => l.forM f) = _ ↔ _
    rw [bind_eq_ok]
    exact ⟨fun ⟨_, ha, hl⟩ => ⟨ha, hl⟩, fun ⟨ha, hl⟩ => ⟨(), ha, hl⟩⟩

end Steps

end Nox

namespace Nox.Lib

variable {ε α β γ : Type} {bad e : ε} {x : Except ε α} {safe passes safe' passes' : Prop}

/-- Without the bad error where `safe` holds, and then with a result where `passes`
does. -/
structure Verdict (bad : ε) (x : Except ε α) (safe passes : Prop) : Prop where
  avoids : x ≠ .error bad ↔ safe
  returns : safe → ((∃ a, x = .ok a) ↔ passes)

theorem ok_bind {a : α} {f : α → Except ε β} : Except.ok a >>= f = f a := rfl

theorem avoids_bind_iff {f : α → Except ε β} :
    x >>= f ≠ .error bad ↔ x ≠ .error bad ∧ ∀ a, x = .ok a → f a ≠ .error bad := by
  cases x with
  | ok a =>
    constructor
    · intro h
      exact ⟨nofun, fun b hb => by cases hb; exact h⟩
    · exact fun h => h.2 a rfl
  | error e =>
    constructor
    · exact fun h => ⟨fun heq => h (congrArg _ (Except.error.inj heq)), nofun⟩
    · exact fun h heq => h.1 (congrArg _ (Except.error.inj heq))

namespace Verdict

theorem ok (a : α) : Verdict bad (.ok a) True True where
  avoids := ⟨fun _ => trivial, fun _ => nofun⟩
  returns := fun _ => ⟨fun _ => trivial, fun _ => ⟨a, rfl⟩⟩

theorem throws (h : e ≠ bad) : Verdict bad (.error e : Except ε α) True False where
  avoids := ⟨fun _ => trivial, fun _ heq => h (Except.error.inj heq)⟩
  returns := by
    intro _
    constructor
    · rintro ⟨a, heq⟩
      cases heq
    · exact False.elim

theorem fails : Verdict bad (.error bad : Except ε α) False False where
  avoids := ⟨fun h => h rfl, False.elim⟩
  returns := False.elim

theorem congr (h : Verdict bad x safe passes) (hsafe : safe ↔ safe')
    (hpasses : safe → (passes ↔ passes')) : Verdict bad x safe' passes' where
  avoids := h.avoids.trans hsafe
  returns := fun hs => (h.returns (hsafe.mpr hs)).trans (hpasses (hsafe.mpr hs))

theorem ite {c : Prop} [Decidable c] {y : Except ε α} (hx : c → Verdict bad x safe passes)
    (hy : ¬c → Verdict bad y safe' passes') :
    Verdict bad (if c then x else y) (if c then safe else safe')
      (if c then passes else passes') := by
  by_cases h : c
  · simp only [if_pos h]
    exact hx h
  · simp only [if_neg h]
    exact hy h

/-- The second program counts where the first one returns. -/
theorem bind {f : α → Except ε β} (hx : Verdict bad x safe passes)
    (hf : ∀ a, x = .ok a → Verdict bad (f a) safe' passes') :
    Verdict bad (x >>= f) (safe ∧ (passes → safe')) (passes ∧ passes') := by
  cases x with
  | ok a =>
    have hs : safe := hx.avoids.mp nofun
    have hp : passes := (hx.returns hs).mp ⟨a, rfl⟩
    refine (hf a rfl).congr ?_ ?_
    · exact ⟨fun h => ⟨hs, fun _ => h⟩, fun h => h.2 hp⟩
    · exact fun _ => ⟨fun h => ⟨hp, h⟩, fun h => h.2⟩
  | error e =>
    have hnone : ∀ b, (.error e : Except ε β) ≠ .ok b := nofun
    constructor
    · constructor
      · intro h
        have hs : safe := hx.avoids.mp fun heq => h (congrArg _ (Except.error.inj heq))
        exact ⟨hs, fun hp => nomatch ((hx.returns hs).mpr hp).choose_spec⟩
      · rintro ⟨hs, -⟩ heq
        exact hx.avoids.mpr hs (congrArg _ (Except.error.inj heq))
    · rintro ⟨hs, -⟩
      constructor
      · exact fun ⟨b, hb⟩ => absurd hb (hnone b)
      · exact fun hp => nomatch ((hx.returns hs).mpr hp.1).choose_spec

/-- Where the first program returns, nothing more goes wrong. -/
theorem bind_ok {f : α → β} (hx : Verdict bad x safe passes) :
    Verdict bad (x >>= fun a => .ok (f a)) safe passes := by
  apply (hx.bind fun a _ => ok (f a)).congr
  · exact ⟨And.left, fun hs => ⟨hs, fun _ => trivial⟩⟩
  · exact fun _ => iff_of_eq (and_true _)

/-- Of a list, all elements are safe until one does not pass. -/
def Until (safe passes : γ → Prop) : List γ → Prop
  | [] => True
  | c :: cs => safe c ∧ (passes c → Until safe passes cs)

theorem foldlM {f : α → γ → Except ε α} {safe passes : γ → Prop} {cs : List γ}
    (h : ∀ a, ∀ c ∈ cs, Verdict bad (f a c) (safe c) (passes c)) (a : α) :
    Verdict bad (cs.foldlM f a) (Until safe passes cs) (∀ c ∈ cs, passes c) := by
  induction cs generalizing a with
  | nil => exact (ok a).congr Iff.rfl fun _ => ⟨fun _ => nofun, fun _ => trivial⟩
  | cons c cs ih =>
    rw [List.foldlM_cons]
    have hrest := fun b (_ : f a c = .ok b) =>
      ih (fun a d hd => h a d (List.mem_cons_of_mem c hd)) b
    apply ((h a c List.mem_cons_self).bind hrest).congr Iff.rfl
    exact fun _ => List.forall_mem_cons.symm

theorem until_map {δ : Type} {safe passes : γ → Prop} (g : δ → γ) (ds : List δ) :
    Until (fun d => safe (g d)) (fun d => passes (g d)) ds ↔ Until safe passes (ds.map g) := by
  induction ds with
  | nil => exact Iff.rfl
  | cons d ds ih => exact and_congr Iff.rfl (imp_congr Iff.rfl ih)

end Verdict

section Keeps

/-! ## What holds of results -/

variable {P P' : α → Prop} {Q : β → Prop}

/-- The bad error is avoided, and of what is returned this holds. -/
def Keeps (bad : ε) (P : α → Prop) (x : Except ε α) : Prop :=
  x ≠ .error bad ∧ ∀ a, x = .ok a → P a

theorem Keeps.ok {a : α} (h : P a) : Keeps bad P (.ok a) :=
  ⟨nofun, fun _ hb => Except.ok.inj hb ▸ h⟩

theorem Keeps.throws (h : e ≠ bad) : Keeps bad P (.error e) :=
  ⟨fun heq => h (Except.error.inj heq), nofun⟩

theorem Keeps.bind {f : α → Except ε β} (hx : Keeps bad P x)
    (hf : ∀ a, P a → Keeps bad Q (f a)) : Keeps bad Q (x >>= f) := by
  cases x with
  | ok a => exact hf a (hx.2 a rfl)
  | error e => exact Keeps.throws fun heq => hx.1 (congrArg _ heq)

theorem Keeps.ite {c : Prop} [Decidable c] {y : Except ε α} (hx : c → Keeps bad P x)
    (hy : ¬c → Keeps bad P y) : Keeps bad P (if c then x else y) := by
  by_cases h : c
  · rw [if_pos h]
    exact hx h
  · rw [if_neg h]
    exact hy h

/-- Of what is returned, if anything is, this holds. -/
def Yields (P : α → Prop) (x : Except ε α) : Prop := ∀ a, x = .ok a → P a

theorem Yields.ok {a : α} (h : P a) : Yields P (.ok a : Except ε α) :=
  fun _ hb => Except.ok.inj hb ▸ h

theorem Yields.error : Yields P (.error e) := nofun

theorem Yields.bind {f : α → Except ε β} (hf : ∀ a, x = .ok a → Yields Q (f a)) :
    Yields Q (x >>= f) := by
  cases x with
  | ok a => exact hf a rfl
  | error e => exact Yields.error

theorem Yields.ite {c : Prop} [Decidable c] {y : Except ε α} (hx : c → Yields P x)
    (hy : ¬c → Yields P y) : Yields P (if c then x else y) := by
  by_cases h : c
  · rw [if_pos h]
    exact hx h
  · rw [if_neg h]
    exact hy h

end Keeps

section Ensures

/-! ## What holds of every ending -/

variable {E : ε → Prop} {P : α → Prop} {Q : β → Prop}

/-- Of an error the first holds, of what is returned the second. -/
def Ensures (E : ε → Prop) (P : α → Prop) : Except ε α → Prop
  | .ok a => P a
  | .error e => E e

theorem Ensures.bind {f : α → Except ε β} (hx : Ensures E P x)
    (hf : ∀ a, P a → Ensures E Q (f a)) : Ensures E Q (x >>= f) := by
  cases x with
  | ok a => exact hf a hx
  | error e => exact hx

theorem Ensures.mono {P' : α → Prop} {E' : ε → Prop} (hx : Ensures E P x)
    (hE : ∀ e, E e → E' e) (hP : ∀ a, P a → P' a) : Ensures E' P' x := by
  cases x with
  | ok a => exact hP a hx
  | error e => exact hE e hx

end Ensures

end Nox.Lib

import Nox.Lib.JsonText

/-!
# How tokens are read

What a step of the reader of tokens does, case by case, and what holds between the
steps: where a key or a colon is due an object is open, and the braces balance.
-/

namespace Nox.Lib.Json

section Steps

/-! ## The steps -/

/-- What a step of the reader does. -/
inductive Reads (depth : Nat) : Reader → Token → Reader → List Event → Prop
  | arrayBegin (x stack) (hx : x = .start ∨ x = .value ∨ x = .valueOrEnd)
    (hdepth : stack.length < depth) :
    Reads depth ⟨x, stack⟩ .leftBracket ⟨.valueOrEnd, true :: stack⟩ [.arrayBegin]
  | objectBegin (x stack) (hx : x = .start ∨ x = .value ∨ x = .valueOrEnd)
    (hdepth : stack.length < depth) :
    Reads depth ⟨x, stack⟩ .leftBrace ⟨.keyOrEnd, false :: stack⟩ [.objectBegin]
  | scalar (x stack t e) (hx : x = .value ∨ x = .valueOrEnd) (ht : Json.scalar t = some e) :
    Reads depth ⟨x, stack⟩ t ⟨.next, stack⟩ [e]
  | arrayEnd (x stack) (hx : x = .valueOrEnd ∨ x = .next) :
    Reads depth ⟨x, true :: stack⟩ .rightBracket ⟨.next, stack⟩ [.arrayEnd]
  | objectEnd (x stack) (hx : x = .keyOrEnd ∨ x = .next) :
    Reads depth ⟨x, false :: stack⟩ .rightBrace ⟨.next, stack⟩ [.objectEnd]
  | key (x stack s) (hx : x = .keyOrEnd ∨ x = .key) :
    Reads depth ⟨x, stack⟩ (.string s) ⟨.colon, stack⟩ [.key s]
  | colon (stack) : Reads depth ⟨.colon, stack⟩ .colon ⟨.value, stack⟩ []
  | commaArray (stack) :
    Reads depth ⟨.next, true :: stack⟩ .comma ⟨.value, true :: stack⟩ []
  | commaObject (stack) :
    Reads depth ⟨.next, false :: stack⟩ .comma ⟨.key, false :: stack⟩ []

theorem reads_value {depth : Nat} {r r' : Reader} {t : Token} {e : Event}
    (hx : r.expect = .start ∨ r.expect = .value ∨ r.expect = .valueOrEnd)
    (h : readValue depth r t = some (r', e)) : Reads depth r t r' [e] := by
  obtain ⟨x, stack⟩ := r
  have hscalar : (if x = .start then none
      else (Json.scalar t).map fun e => (({ expect := .next, stack := stack } : Reader), e)) =
        some (r', e) → Reads depth ⟨x, stack⟩ t r' [e] := by
    intro h
    split at h
    · cases h
    · next hne =>
      obtain ⟨e', he', heq⟩ := Option.map_eq_some_iff.mp h
      cases heq
      exact .scalar x stack t e (hx.resolve_left hne) he'
  cases t with
  | leftBracket =>
    simp only [readValue] at h
    split at h
    · next hdepth =>
      cases h
      exact .arrayBegin x stack hx hdepth
    · cases h
  | leftBrace =>
    simp only [readValue] at h
    split at h
    · next hdepth =>
      cases h
      exact .objectBegin x stack hx hdepth
    · cases h
  | _ => exact hscalar h

theorem reads_end {depth : Nat} {r r' : Reader} {t : Token} {e : Event}
    (hx : r.expect = .next ∨ r.expect = .valueOrEnd ∧ t = .rightBracket ∨
      r.expect = .keyOrEnd ∧ t = .rightBrace)
    (h : readEnd r t = some (r', e)) : Reads depth r t r' [e] := by
  obtain ⟨x, stack⟩ := r
  cases t with
  | rightBracket =>
    rcases stack with _ | ⟨_ | _, stack⟩
    · cases h
    · cases h
    · cases h
      refine .arrayEnd x stack ?_
      rcases hx with hx | ⟨hx, -⟩ | ⟨-, ht⟩
      · exact .inr hx
      · exact .inl hx
      · cases ht
  | rightBrace =>
    rcases stack with _ | ⟨_ | _, stack⟩
    · cases h
    · cases h
      refine .objectEnd x stack ?_
      rcases hx with hx | ⟨-, ht⟩ | ⟨hx, -⟩
      · exact .inr hx
      · cases ht
      · exact .inl hx
    · cases h
  | _ => cases h

theorem readStep_cases {depth : Nat} {r r' : Reader} {t : Token} {es : List Event}
    (h : readStep depth r t = some (r', es)) : Reads depth r t r' es := by
  have hvalue : (r.expect = .start ∨ r.expect = .value ∨ r.expect = .valueOrEnd) →
      ((readValue depth r t).map fun p => (p.1, [p.2])) = some (r', es) →
        Reads depth r t r' es := by
    intro hx h
    obtain ⟨p, hp, heq⟩ := Option.map_eq_some_iff.mp h
    cases heq
    exact reads_value hx hp
  have hend : (r.expect = .next ∨ r.expect = .valueOrEnd ∧ t = .rightBracket ∨
        r.expect = .keyOrEnd ∧ t = .rightBrace) →
      ((readEnd r t).map fun p => (p.1, [p.2])) = some (r', es) → Reads depth r t r' es := by
    intro hx h
    obtain ⟨p, hp, heq⟩ := Option.map_eq_some_iff.mp h
    cases heq
    exact reads_end hx hp
  obtain ⟨x, stack⟩ := r
  cases x with
  | start => exact hvalue (.inl rfl) h
  | value => exact hvalue (.inr (.inl rfl)) h
  | valueOrEnd =>
    cases t with
    | rightBracket => exact hend (.inr (.inl ⟨rfl, rfl⟩)) h
    | _ => exact hvalue (.inr (.inr rfl)) h
  | keyOrEnd =>
    cases t with
    | rightBrace => exact hend (.inr (.inr ⟨rfl, rfl⟩)) h
    | string s =>
      cases h
      exact .key _ stack s (.inl rfl)
    | _ => cases h
  | key =>
    cases t with
    | string s =>
      cases h
      exact .key _ stack s (.inr rfl)
    | _ => cases h
  | colon =>
    cases t with
    | colon =>
      cases h
      exact .colon stack
    | _ => cases h
  | next =>
    cases t with
    | comma =>
      rcases stack with _ | ⟨_ | _, stack⟩
      · cases h
      · cases h
        exact .commaObject stack
      · cases h
        exact .commaArray stack
    | _ => exact hend (.inl rfl) h

end Steps

section Shape

/-! ## Between the steps -/

/-- What is open where something is due. -/
def Reader.Fits (r : Reader) : Prop :=
  match r.expect with
  | .start => r.stack = []
  | .value => r.stack ≠ []
  | .valueOrEnd => r.stack.head? = some true
  | .keyOrEnd => r.stack.head? = some false
  | .key => r.stack.head? = some false
  | .colon => r.stack.head? = some false
  | .next => True

theorem Reads.fits {depth : Nat} {r r' : Reader} {t : Token} {es : List Event}
    (h : Reads depth r t r' es) (hr : r.Fits) : r'.Fits := by
  cases h with
  | arrayBegin => rfl
  | objectBegin => rfl
  | scalar => trivial
  | arrayEnd => trivial
  | objectEnd => trivial
  | key x stack s hx => rcases hx with rfl | rfl <;> exact hr
  | colon stack =>
    rintro rfl
    cases hr
  | commaArray => nofun
  | commaObject => rfl

/-- Left braces less right braces. -/
def braces (ts : List Token) : Int :=
  ts.count .leftBrace - ts.count .rightBrace

theorem braces_cons (t : Token) (ts : List Token) : braces (t :: ts) = braces [t] + braces ts := by
  simp only [braces, List.count_cons, List.count_nil]
  omega

theorem braces_append (ts us : List Token) : braces (ts ++ us) = braces ts + braces us := by
  simp only [braces, List.count_append]
  omega

theorem braces_scalar {t : Token} {e : Event} (h : Json.scalar t = some e) : braces [t] = 0 := by
  cases t <;> first | rfl | cases h

/-- The open objects are the braces that have not been closed. -/
theorem Reads.braces {depth : Nat} {r r' : Reader} {t : Token} {es : List Event}
    (h : Reads depth r t r' es) :
    (r'.stack.count false : Int) = r.stack.count false + Json.braces [t] := by
  cases h with
  | scalar x stack t e hx ht =>
    rw [braces_scalar ht, Int.add_zero]
  | objectEnd x stack =>
    have hcount : (false :: stack).count false = stack.count false + 1 := List.count_cons_self
    have hbrace : Json.braces [.rightBrace] = -1 := rfl
    simp only [hcount, hbrace]
    omega
  | _ => simp [Json.braces]

end Shape

end Nox.Lib.Json

import Nox.Json.ParserInvariant

/-!
# The character parser goes wrong nowhere

Whatever the text is, no assertion of the parser fails and no index leaves the buffer or the stack
(`parse_never_faults`).  Each action keeps what holds between the bytes.  The calls are made before the
stack is looked at, so one text makes `json_object` take from an empty list: a whole text with one
more end behind it (`underflow_iff`).
-/

namespace Nox.Json.Parser

open Lib

section Actions

/-! ## The actions -/

variable {cfg : Config} {P : Prop} {jc : Jc} {c : UInt8} {n : Nat}

theorem Jc.Ready.popBack (h : jc.Ready cfg c) :
    ∃ b, jc.bufferPopBack = .ok { jc with parseBuffer := b } ∧
      ({ jc with parseBuffer := b } : Jc).Fits cfg ∧ jc.state.Holds b := by
  obtain ⟨b, hb, hholds⟩ := h.holds
  have hne : jc.parseBuffer ≠ [] := by
    rw [hb]
    exact List.concat_ne_nil c b
  have hpop := bufferPopBack_eq hne
  have hdrop : jc.parseBuffer.dropLast = b := by rw [hb, List.dropLast_concat]
  refine ⟨b, ?_, h.fits.with_buffer ?_, hholds⟩
  · rw [hpop, hdrop]
  · rw [hb, List.length_append]
    exact Nat.le_add_right _ _

/-- A container is opened. -/
theorem opened_begin (hopen : opened jc.calls = some n) {type : JsonType}
    (htype : type = .arrayBegin ∨ type = .objectBegin) :
    opened (jc.calls ++ [⟨type, []⟩]) = some (n + 1) := by
  rw [opened_concat, hopen]
  rcases htype with rfl | rfl <;> rfl

/-- A container is closed. -/
theorem opened_end {calls : List Call} (hopen : opened calls = some n) {t : JsonType}
    (htype : t = .arrayEnd ∨ t = .objectEnd) :
    opened (calls ++ [⟨t, []⟩]) = if n = 0 then none else some (n - 1) := by
  rw [opened_concat, hopen]
  rcases htype with rfl | rfl <;> rfl

/-- Between tokens there is no more to say. -/
theorem sound_rest (hfits : jc.Fits cfg) (hopen : opened jc.calls = some (jc.stack.length - 1))
    (hescaped : jc.escaped = false) (hcomment : jc.comment = false)
    (hs : jc.state.isIdle = true ∨ jc.state = .ok) (htype : jc.type = none)
    (hbuffer : jc.parseBuffer = []) (habove : ∀ mode ∈ jc.stack.head?, jc.state.above mode = true) :
    jc.Sound cfg := by
  have hstate : jc.state ≠ .es ∧ jc.state.isComment = false ∧ jc.state.Holds [] ∧
      jc.state.admits none = true := by
    generalize jc.state = s at hs
    cases s <;> first
      | exact ⟨by decide, rfl, rfl, rfl⟩
      | exact ⟨by decide, rfl, trivial, rfl⟩
      | exact absurd hs (by decide)
  obtain ⟨hes, hcomment', hholds, hadmits⟩ := hstate
  refine ⟨hfits, hopen, hescaped.trans (decide_eq_false hes).symm, hcomment.trans hcomment'.symm,
    fun hs => absurd (hcomment'.symm.trans hs) Bool.false_ne_true, ?_, ?_, ?_⟩
  · rwa [htype]
  · rwa [hbuffer]
  · rwa [Jc.Sound.place_eq hcomment']

theorem startContainer_ensures (h : jc.Ready cfg c) (hidle : jc.state.isIdle = true)
    {type : JsonType} {mode : Mode} {state : State}
    (hmode : type = .objectBegin ∧ mode = .key ∧ state = .ob ∨
      type = .arrayBegin ∧ mode = .array ∧ state = .ar) :
    Ensures (Stopped P) (Jc.Sound cfg) (jc.startContainer cfg type mode state) := by
  obtain ⟨b, hpop, hfits, hholds⟩ := h.popBack
  have hnil : b = [] := holds_idle hholds (.inl hidle)
  have hnone := admits_idle h.type (.inl hidle)
  have hopen := opened_begin h.opened (hmode.symm.imp And.left And.left)
  unfold Jc.startContainer
  rw [hpop, ok_bind]
  refine (call_ensures ?_).bind ?_
  · exact opened_ne_none hopen
  rintro _ rfl
  have hne : mode ≠ .done := by rcases hmode with ⟨-, rfl, -⟩ | ⟨-, rfl, -⟩ <;> decide
  refine (push_ensures ?_ ?_ hne).bind ?_
  · exact ⟨hfits.bottom, hfits.stack, hfits.limit, hfits.buffer, hfits.capacity⟩
  · exact opened_ne_none hopen
  rintro _ ⟨room, rfl, hfits'⟩
  rw [require_bind hnone]
  have hstate : state.isIdle = true ∧ state.above mode = true := by
    rcases hmode with ⟨-, rfl, rfl⟩ | ⟨-, rfl, rfl⟩ <;> exact ⟨rfl, rfl⟩
  apply sound_rest
  · exact ⟨hfits'.bottom, hfits'.stack, hfits'.limit, hfits'.buffer, hfits'.capacity⟩
  · change _ = some ((mode :: jc.stack).length - 1)
    rw [hopen, List.length_cons]
    have hpos := List.length_pos_iff.mpr h.fits.stack_ne_nil
    exact congrArg some (by omega)
  · exact h.escaped
  · exact h.comment
  · exact .inl hstate.1
  · exact hnone
  · exact hnil
  · intro m hm
    cases Option.some.inj hm
    exact hstate.2

/-- The last call may close what is not open: then the stack has only its bottom. -/
theorem stack_singleton (h : jc.Fits cfg) (hlength : jc.stack.length - 1 = 0) :
    jc.stack = [.done] := by
  have hbottom := h.bottom
  obtain ⟨m, hm⟩ := List.length_eq_one_iff.mp
    (Nat.le_antisymm (Nat.sub_eq_zero_iff_le.mp hlength) (List.length_pos_iff.mpr h.stack_ne_nil))
  rw [hm] at hbottom ⊢
  unfold Bottomed at hbottom
  split at hbottom
  · next hdone => rw [hdone]
  · exact hbottom.elim

theorem endContainer_ensures (h : jc.Ready cfg c)
    {type : JsonType} {mode : Mode} (hP : jc.stack = [.done] → P)
    (hmode : type = .arrayEnd ∧ mode = .array ∨ type = .objectEnd ∧ mode = .object) :
    Ensures (Stopped P) (Jc.Sound cfg) (jc.endContainer cfg type mode) := by
  obtain ⟨b, hpop, hfits, hholds⟩ := h.popBack
  have hne : mode ≠ .done := by rcases hmode with ⟨-, rfl⟩ | ⟨-, rfl⟩ <;> decide
  unfold Jc.endContainer
  rw [hpop, ok_bind]
  refine (parseParseBuffer_ensures hfits ?_ ?_).bind ?_
  · exact opened_ne_none h.opened
  · exact admits_isScalar h.type
  rintro _ ⟨rfl, hfits', hopen⟩
  have hend := opened_end (hopen.trans h.opened) (hmode.imp And.left And.left)
  have hnone : (if jc.stack.length - 1 = 0 then none else some (jc.stack.length - 1 - 1)) = none →
      P := by
    intro hnone
    by_cases hlength : jc.stack.length - 1 = 0
    · exact hP (stack_singleton h.fits hlength)
    · rw [if_neg hlength] at hnone
      exact absurd hnone (Option.some_ne_none _)
  refine (call_ensures ?_).bind ?_
  · exact fun heq => hnone (hend.symm.trans heq)
  rintro _ rfl
  have hfits'' : ({ jc with
      parseBuffer := []
      calls := jc.calls ++ Jc.pending { jc with parseBuffer := b } ++ [⟨type, []⟩] } : Jc).Fits cfg :=
    ⟨hfits'.bottom, hfits'.stack, hfits'.limit, hfits'.buffer, hfits'.capacity⟩
  refine (pop_ensures hfits'' ?_ hne).bind ?_
  · exact fun heq => hnone (hend.symm.trans heq)
  rintro _ ⟨stack, hstack, rfl, hpopped⟩
  change jc.stack = mode :: stack at hstack
  have hpos := List.length_pos_iff.mpr (hpopped.stack_ne_nil)
  change 0 < stack.length at hpos
  rw [hstack] at hend
  apply sound_rest
  · exact ⟨hpopped.bottom, hpopped.stack, hpopped.limit, hpopped.buffer, hpopped.capacity⟩
  · rw [List.length_cons, if_neg (by omega)] at hend
    exact hend
  · exact h.escaped
  · exact h.comment
  · exact .inr rfl
  · rfl
  · rfl
  · exact fun _ _ => rfl

theorem head_mem {α : Type} {a : α} {l tail : List α} (h : l = a :: tail) : a ∈ l.head? := by
  rw [h]
  exact rfl

theorem top_eq {mode : Mode} {stack : List Mode} (h : jc.stack = mode :: stack) :
    jc.top = .ok mode := by
  unfold Jc.top
  rw [h]

/-- The value in the buffer is passed on, and the stack is looked at. -/
theorem flush_ensures (h : jc.Ready cfg c) :
    Ensures (Stopped P) (fun jc' => jc'.Fits cfg ∧ opened jc'.calls = opened jc.calls ∧
        jc'.parseBuffer = [] ∧ jc'.type = jc.type ∧ jc'.state = jc.state ∧ jc'.stack = jc.stack ∧
        jc'.escaped = false ∧ jc'.comment = false)
      (jc.bufferPopBack >>= Jc.parseParseBuffer cfg) := by
  obtain ⟨b, hpop, hfits, -⟩ := h.popBack
  rw [hpop, ok_bind]
  apply (parseParseBuffer_ensures hfits ?_ ?_).mono
  · exact fun _ he => he
  · rintro _ ⟨rfl, hfits', hopen⟩
    exact ⟨hfits', hopen, rfl, rfl, rfl, rfl, h.escaped, h.comment⟩
  · exact opened_ne_none h.opened
  · exact admits_isScalar h.type

theorem comma_ensures (h : jc.Ready cfg c) (hs : jc.state.isString = false) :
    Ensures (Stopped P) (Jc.Sound cfg) (jc.act cfg .comma) := by
  unfold Jc.act
  dsimp only
  rw [← bind_assoc]
  apply (flush_ensures h).bind
  rintro jc' ⟨hfits, hopen, hbuffer, htype, hstate, hstack, hescaped, hcomment⟩
  have hopen' := hopen.trans h.opened
  have hstring : jc'.type ≠ some .string := htype ▸ admits_ne_string h.type hs
  rw [← hstack] at hopen'
  obtain ⟨mode, stack, hstack'⟩ := List.exists_cons_of_ne_nil hfits.stack_ne_nil
  rw [top_eq hstack', ok_bind]
  cases mode with
  | array =>
    dsimp only
    rw [require_bind hstring]
    apply sound_rest
    · exact ⟨hfits.bottom, hfits.stack, hfits.limit, hfits.buffer, hfits.capacity⟩
    · exact hopen'
    · exact hescaped
    · exact hcomment
    · exact .inl rfl
    · rfl
    · exact hbuffer
    · intro mode hmode
      cases Option.some.inj ((head_mem hstack').symm.trans hmode)
      rfl
  | object =>
    dsimp only
    refine (pop_ensures hfits (opened_ne_none hopen') (by decide)).bind ?_
    rintro _ ⟨stack', heq, rfl, hfits'⟩
    rw [heq] at hopen'
    refine (push_ensures hfits' (opened_ne_none hopen') (m := .key) (by decide)).bind ?_
    rintro _ ⟨room, rfl, hfits''⟩
    rw [require_bind hstring]
    apply sound_rest
    · exact ⟨hfits''.bottom, hfits''.stack, hfits''.limit, hfits''.buffer, hfits''.capacity⟩
    · exact hopen'
    · exact hescaped
    · exact hcomment
    · exact .inl rfl
    · rfl
    · exact hbuffer
    · exact fun _ _ => rfl
  | key => exact refuse_ensures (opened_ne_none hopen')
  | done => exact refuse_ensures (opened_ne_none hopen')

theorem colon_ensures (h : jc.Ready cfg c) (hs : jc.state = .co) :
    Ensures (Stopped P) (Jc.Sound cfg) (jc.act cfg .colon) := by
  obtain ⟨b, hpop, hfits, hholds⟩ := h.popBack
  have hidle : jc.state.isIdle = true := by rw [hs]; rfl
  have hnil : b = [] := holds_idle hholds (.inl hidle)
  have hnone := admits_idle h.type (.inl hidle)
  unfold Jc.act
  dsimp only
  rw [hpop, ok_bind]
  refine (pop_ensures hfits (opened_ne_none h.opened) (by decide)).bind ?_
  rintro _ ⟨stack, hstack, rfl, hfits'⟩
  refine (push_ensures hfits' (opened_ne_none h.opened) (m := .object) (by decide)).bind ?_
  rintro _ ⟨room, rfl, hfits''⟩
  rw [require_bind hnone]
  apply sound_rest
  · exact ⟨hfits''.bottom, hfits''.stack, hfits''.limit, hfits''.buffer, hfits''.capacity⟩
  · have hopen := h.opened
    rwa [show jc.stack = .key :: stack from hstack] at hopen
  · exact h.escaped
  · exact h.comment
  · exact .inl rfl
  · exact hnone
  · exact hnil
  · intro mode hmode
    cases Option.some.inj hmode
    rfl

theorem emptyEnd_ensures (h : jc.Ready cfg c) (hs : jc.state = .ob) :
    Ensures (Stopped P) (Jc.Sound cfg) (jc.act cfg .emptyEnd) := by
  have hnone := admits_idle h.type (.inl (by rw [hs]; rfl))
  have hclear := h.fits.with_buffer (b := []) (Nat.zero_le _)
  obtain ⟨mode, stack, hstack⟩ := List.exists_cons_of_ne_nil h.fits.stack_ne_nil
  have habove := h.above mode (head_mem hstack)
  rw [hs] at habove
  have hkey : mode = .key := of_decide_eq_true habove
  subst hkey
  -- a key is above the bottom
  have hpos : stack ≠ [] := by
    rintro rfl
    have hbottom := h.fits.bottom
    rw [hstack] at hbottom
    exact hbottom
  have hpos' := List.length_pos_iff.mpr hpos
  have hopen := opened_end h.opened (t := .objectEnd) (.inr rfl)
  rw [hstack, List.length_cons, if_neg (by omega)] at hopen
  unfold Jc.act
  dsimp only
  refine (call_ensures ?_).bind ?_
  · exact opened_ne_none hopen
  rintro _ rfl
  have hfits : ({ jc with
      parseBuffer := []
      calls := jc.calls ++ [⟨.objectEnd, []⟩] } : Jc).Fits cfg :=
    ⟨hclear.bottom, hclear.stack, hclear.limit, hclear.buffer, hclear.capacity⟩
  refine (pop_ensures hfits (opened_ne_none hopen) (by decide)).bind ?_
  rintro _ ⟨stack', heq, rfl, hfits'⟩
  change jc.stack = _ at heq
  rw [hstack] at heq
  cases List.tail_eq_of_cons_eq heq
  apply sound_rest
  · exact ⟨hfits'.bottom, hfits'.stack, hfits'.limit, hfits'.buffer, hfits'.capacity⟩
  · exact hopen
  · exact h.escaped
  · exact h.comment
  · exact .inr rfl
  · exact hnone
  · rfl
  · exact fun _ _ => rfl

theorem stringEnd_ensures (h : jc.Ready cfg c) (hs : jc.state = .st) :
    Ensures (Stopped P) (Jc.Sound cfg) (jc.act cfg .stringEnd) := by
  obtain ⟨b, hpop, hfits, -⟩ := h.popBack
  have hstring := admits_string h.type (by rw [hs]; rfl)
  obtain ⟨mode, stack, hstack⟩ := List.exists_cons_of_ne_nil h.fits.stack_ne_nil
  have htop : ({ jc with parseBuffer := b } : Jc).top = .ok mode := top_eq hstack
  unfold Jc.act
  dsimp only
  rw [hpop, ok_bind, htop, ok_bind]
  have hvalue : Ensures (Stopped P) (Jc.Sound cfg) (do
      let jc ← Jc.parseParseBuffer cfg { jc with parseBuffer := b }
      return { jc with type := none, state := .ok }) := by
    refine (parseParseBuffer_ensures hfits ?_ ?_).bind ?_
    · exact opened_ne_none h.opened
    · exact admits_isScalar h.type
    rintro _ ⟨rfl, hfits', hopen⟩
    apply sound_rest
    · exact ⟨hfits'.bottom, hfits'.stack, hfits'.limit, hfits'.buffer, hfits'.capacity⟩
    · exact hopen.trans h.opened
    · exact h.escaped
    · exact h.comment
    · exact .inr rfl
    · rfl
    · rfl
    · exact fun _ _ => rfl
  cases mode with
  | key =>
    dsimp only
    rw [require_bind hstring]
    have hopen : opened (jc.calls ++ [⟨.key, b⟩]) = some (jc.stack.length - 1) := by
      rw [opened_concat, h.opened]
      rfl
    refine (call_ensures ?_).bind ?_
    · exact opened_ne_none hopen
    rintro _ rfl
    have hclear := hfits.with_buffer (b := []) (Nat.zero_le _)
    apply sound_rest
    · exact ⟨hclear.bottom, hclear.stack, hclear.limit, hclear.buffer, hclear.capacity⟩
    · exact hopen
    · exact h.escaped
    · exact h.comment
    · exact .inl rfl
    · rfl
    · rfl
    · exact fun _ _ => rfl
  | array =>
    dsimp only
    rw [require_bind hstring]
    exact hvalue
  | object =>
    dsimp only
    rw [require_bind hstring]
    exact hvalue
  | done => exact refuse_ensures (opened_ne_none h.opened)

/-- Behind the comment the state is one between tokens, and fits the stack. -/
theorem stateBehindComment_fits {mode : Mode} (h : jc.state.above mode = true)
    (hs : jc.state.isIdle = true ∨ jc.state = .ok ∨ jc.state.isNumber = true ∨
      jc.state.isName = true) :
    ((jc.stateBehindComment mode).isIdle = true ∨ jc.stateBehindComment mode = .ok) ∧
      (jc.stateBehindComment mode).above mode = true := by
  unfold Jc.stateBehindComment
  generalize jc.state = s at h hs
  cases mode with
  | array | object =>
    dsimp only
    split
    · next hva => rcases hva with rfl | rfl <;> exact ⟨.inl rfl, rfl⟩
    · exact ⟨.inr rfl, rfl⟩
  | done | key =>
    refine ⟨?_, h⟩
    rcases hs with hs | hs | hs | hs
    · exact .inl hs
    · exact .inr hs
    · rcases above_value h (isValue_of_scalar (.inl hs)) with hmode | hmode <;> cases hmode
    · rcases above_value h (isValue_of_scalar (.inr hs)) with hmode | hmode <;> cases hmode

theorem commentBegin_ensures (h : jc.Ready cfg c)
    (hs : jc.state.isIdle = true ∨ jc.state = .ok ∨ jc.state.isNumber = true ∨
      jc.state.isName = true) :
    Ensures (Stopped P) (Jc.Sound cfg) (jc.act cfg .cb) := by
  have hstring' : jc.state.isString = false := by
    generalize jc.state = s at hs
    cases s <;> first | rfl | exact absurd hs (by decide)
  unfold Jc.act
  dsimp only
  split
  · rw [← bind_assoc]
    apply (flush_ensures h).bind
    rintro jc' ⟨hfits, hopen, hbuffer, htype, hstate, hstack, hescaped, hcomment⟩
    have hstring : jc'.type ≠ some .string := htype ▸ admits_ne_string h.type hstring'
    have hlength : jc'.parseBuffer.length = 0 := by
      rw [hbuffer]
      rfl
    obtain ⟨mode, stack, hstack'⟩ := List.exists_cons_of_ne_nil hfits.stack_ne_nil
    rw [require_bind hlength, require_bind hstring, top_eq hstack', ok_bind]
    have habove : jc'.state.above mode = true := by
      rw [hstate]
      exact h.above mode (hstack ▸ head_mem hstack')
    rw [← hstate] at hs
    obtain ⟨hbehind, habove'⟩ := stateBehindComment_fits habove hs
    refine ⟨⟨hfits.bottom, hfits.stack, hfits.limit, hfits.buffer, hfits.capacity⟩, ?_, hescaped,
      rfl, fun _ => hbehind, rfl, hbuffer, ?_⟩
    · change opened jc'.calls = some (jc'.stack.length - 1)
      rw [hopen, hstack]
      exact h.opened
    · intro m hm
      change m ∈ jc'.stack.head? at hm
      cases Option.some.inj ((head_mem hstack').symm.trans hm)
      exact habove'
  · exact refuse_ensures (opened_ne_none h.opened)

theorem commentEnd_ensures (h : jc.Sound cfg) (hs : jc.state = .c3) :
    Ensures (Stopped P) (Jc.Sound cfg) (jc.act cfg .ce) := by
  have hcomment : jc.state.isComment = true := by rw [hs]; rfl
  have hnone := admits_idle h.type (.inr hcomment)
  have hnil := holds_idle h.holds (.inr hcomment)
  have hlength : jc.parseBuffer.length = 0 := by
    rw [hnil]
    rfl
  have habove := h.above
  unfold Jc.place at habove
  rw [if_pos hcomment] at habove
  unfold Jc.act
  dsimp only
  rw [require_bind hlength, require_bind hnone]
  apply sound_rest
  · exact ⟨h.fits.bottom, h.fits.stack, h.fits.limit, h.fits.buffer, h.fits.capacity⟩
  · exact h.opened
  · exact h.escaped.trans (decide_eq_false (comment_facts hcomment).1)
  · rfl
  · exact h.behind hcomment
  · exact hnone
  · exact hnil
  · exact habove

/-- A step that gives the value a type. -/
theorem Jc.Ready.typed (h : jc.Ready cfg c) {s : State} {t : JsonType}
    (hs : s.isNumber = true ∨ s.isName = true ∨ s = .st) (htype : s.admits (some t) = true)
    (habove : ∀ mode, jc.state.above mode = true → s.above mode = true) :
    ({ jc with type := some t, state := s } : Jc).Sound cfg := by
  have hstate : s ≠ .es ∧ s.isComment = false ∧ ∀ buffer, s.Holds buffer := by
    cases s <;> first
      | exact ⟨by decide, rfl, fun _ => trivial⟩
      | exact absurd hs (by decide)
  obtain ⟨hes, hcomment, hholds⟩ := hstate
  refine ⟨⟨h.fits.bottom, h.fits.stack, h.fits.limit, h.fits.buffer, h.fits.capacity⟩, h.opened,
    h.escaped.trans (decide_eq_false hes).symm, h.comment.trans hcomment.symm,
    fun hs => absurd (hcomment.symm.trans hs) Bool.false_ne_true, htype, hholds _, ?_⟩
  intro mode hmode
  rw [Jc.Sound.place_eq hcomment]
  exact habove mode (h.above mode hmode)

theorem wordBegin_ensures (h : jc.Ready cfg c) (hs : jc.state.isIdle = true) {s : State}
    {t : JsonType} (hs' : s.isName = true) (htype : s.admits (some t) = true)
    (habove : ∀ mode, jc.state.above mode = true → s.above mode = true) :
    Ensures (Stopped P) (Jc.Sound cfg) (jc.startWord t s) := by
  unfold Jc.startWord
  rw [require_bind (admits_idle h.type (.inl hs))]
  exact h.typed (.inr (.inl hs')) htype habove

theorem quote_ensures (h : jc.Ready cfg c) (hs : jc.state.isIdle = true) :
    Ensures (Stopped P) (Jc.Sound cfg) (jc.act cfg .sb) := by
  have hclear := h.fits.with_buffer (b := []) (Nat.zero_le _)
  unfold Jc.act Jc.startWord Jc.bufferClear
  dsimp only
  rw [require_bind (admits_idle h.type (.inl hs))]
  refine ⟨⟨hclear.bottom, hclear.stack, hclear.limit, hclear.buffer, hclear.capacity⟩, h.opened,
    h.escaped, h.comment, fun hs => absurd hs Bool.false_ne_true, rfl, trivial, fun _ _ => rfl⟩

theorem requireNumber_bind {α : Type} {f : Except Stop α} (h : jc.type = some .integer ∨
    jc.type = some .float) : (jc.requireNumber >>= fun _ => f) = f := by
  unfold Jc.requireNumber
  refine require_bind ?_
  rcases h with h | h <;> (rw [h]; decide)

theorem exponent_ensures (h : jc.Ready cfg c) (hs : jc.state.isNumber = true) :
    Ensures (Stopped P) (Jc.Sound cfg) (jc.act cfg .de) := by
  unfold Jc.act
  dsimp only
  rw [requireNumber_bind (admits_number h.type hs)]
  apply h.typed (.inl rfl) rfl
  exact fun mode hmode => above_step hmode (fun _ => isValue_of_scalar (.inl hs)) (by decide)

theorem point_ensures (h : jc.Ready cfg 0x2e) (hs : jc.state.isNumber = true) :
    Ensures (Stopped P) (Jc.Sound cfg) (jc.act cfg .df) := by
  have habove : ∀ mode, jc.state.above mode = true → State.fx.above mode = true :=
    fun mode hmode => above_step hmode (fun _ => isValue_of_scalar (.inl hs)) (by decide)
  unfold Jc.act
  dsimp only
  rw [requireNumber_bind (admits_number h.type hs)]
  split
  · exact h.typed (.inl rfl) rfl habove
  · obtain ⟨b, hb, -⟩ := h.holds
    have hlast : jc.parseBuffer.getLast? = some 0x2e := by
      rw [hb]
      exact List.getLast?_concat
    rw [require_bind hlast]
    have hlength : (jc.parseBuffer.dropLast ++ [cfg.decimalPoint]).length ≤
        jc.parseBuffer.length := by
      rw [hb, List.dropLast_concat, List.length_append, List.length_append]
      exact Nat.le_refl _
    have hfits := h.fits.with_buffer hlength
    have hsound := h.typed (.inl rfl) (t := .float) (s := .fx) rfl habove
    exact ⟨⟨hfits.bottom, hfits.stack, hfits.limit, hfits.buffer, hfits.capacity⟩, hsound.opened,
      hsound.escaped, hsound.comment, hsound.behind, hsound.type, trivial, hsound.above⟩

theorem backslash_ensures (h : jc.Ready cfg c) (hs : jc.state = .st) :
    Ensures (Stopped P) (Jc.Sound cfg) (jc.act cfg .ex) := by
  obtain ⟨b, hb, -⟩ := h.holds
  have hstring := admits_string h.type (by rw [hs]; rfl)
  refine ⟨⟨h.fits.bottom, h.fits.stack, h.fits.limit, h.fits.buffer, h.fits.capacity⟩, h.opened,
    rfl, h.comment, fun hs => absurd hs Bool.false_ne_true, decide_eq_true hstring, ?_,
    fun _ _ => rfl⟩
  change jc.parseBuffer ≠ []
  rw [hb]
  exact List.concat_ne_nil c b

theorem unicodeBytes_length (uc trailBytes : Nat) :
    (unicodeBytes uc trailBytes).length = trailBytes + 1 := by
  unfold unicodeBytes
  rw [List.length_cons, List.length_map, List.length_reverse, List.length_range]

/-- Behind `\u` and four digits the six characters give way to at most four. -/
theorem decodeUnicodeChar_ensures (h : jc.Fits cfg) (hopen : opened jc.calls = some n)
    (hescape : Escape 4 jc.parseBuffer) :
    Ensures (Stopped P) (fun jc' => ∃ buffer high, jc'.Fits cfg ∧
      jc' = { jc with parseBuffer := buffer, utf16HighSurrogate := high })
      jc.decodeUnicodeChar := by
  obtain ⟨b, digits, hb, hdigits, hhex⟩ := hescape
  have hlength : jc.parseBuffer.length = b.length + 6 := by
    rw [hb, List.length_append, List.length_append, hdigits]
    rfl
  have hdrop : jc.parseBuffer.drop (jc.parseBuffer.length - 4) = digits := by
    have hfront : jc.parseBuffer.length - 4 = (b ++ [0x5c, 0x75]).length := by
      rw [hlength, List.length_append]
      rfl
    rw [hfront, hb, List.drop_left]
  have hnibbles : ∀ x ∈ digits.map hexNibble, x < 16 := by
    intro x hx
    obtain ⟨c, hc, rfl⟩ := List.mem_map.mp hx
    obtain ⟨d, hd, hdhex⟩ := hhex c hc
    exact hexNibble_lt hd hdhex
  have htake : (jc.parseBuffer.take (jc.parseBuffer.length - 6)).length = b.length := by
    rw [List.length_take, hlength]
    omega
  -- one to four bytes take the place of six
  have hwrite : ∀ uc trailBytes high, trailBytes ≤ 3 →
      Ensures (Stopped P) (fun jc' => ∃ buffer high, jc'.Fits cfg ∧
        jc' = { jc with parseBuffer := buffer, utf16HighSurrogate := high })
        (require ((jc.parseBuffer.take (jc.parseBuffer.length - 6)).length +
            (unicodeBytes uc trailBytes).length < jc.parseBufferCapacity) >>= fun _ =>
          pure { jc with
            parseBuffer := jc.parseBuffer.take (jc.parseBuffer.length - 6) ++
              unicodeBytes uc trailBytes
            utf16HighSurrogate := high }) := by
    intro uc trailBytes high htrail
    have hbuffer := h.buffer
    have hroom : (jc.parseBuffer.take (jc.parseBuffer.length - 6)).length +
        (unicodeBytes uc trailBytes).length < jc.parseBufferCapacity := by
      rw [htake, unicodeBytes_length]
      omega
    rw [require_bind hroom]
    refine ⟨_, high, ⟨h.bottom, h.stack, h.limit, ?_, h.capacity⟩, rfl⟩
    dsimp only
    rwa [List.length_append]
  unfold Jc.decodeUnicodeChar
  rw [require_bind (by omega), hdrop]
  dsimp only
  rw [require_bind hnibbles]
  split
  · split
    · exact hwrite _ 3 0 (by decide)
    · exact refuse_ensures (opened_ne_none hopen)
  split
  · exact hwrite _ 0 0 (by decide)
  split
  · exact hwrite _ 1 0 (by decide)
  split
  · refine ⟨_, _, ⟨h.bottom, h.stack, h.limit, ?_, h.capacity⟩, rfl⟩
    have hbuffer := h.buffer
    dsimp only
    rw [htake]
    omega
  split
  · exact refuse_ensures (opened_ne_none hopen)
  · exact hwrite _ 2 0 (by decide)

theorem unicode_ensures (h : jc.Ready cfg c) (hs : jc.state = .u4) {d : CharClass}
    (hc : charClass c = some d) (hd : d.isHex = true) :
    Ensures (Stopped P) (Jc.Sound cfg) (jc.act cfg .uc) := by
  obtain ⟨b, hb, hholds⟩ := h.holds
  rw [hs] at hholds
  have hescape : Escape 4 jc.parseBuffer := hb ▸ Escape.digit hholds hc hd
  have hstring := admits_string h.type (by rw [hs]; rfl)
  unfold Jc.act
  dsimp only
  apply (decodeUnicodeChar_ensures h.fits h.opened hescape).bind
  rintro _ ⟨buffer, high, hfits, rfl⟩
  have hsound : ∀ s, s = .d1 ∨ s = .st → Jc.Sound cfg { jc with
      parseBuffer := buffer
      utf16HighSurrogate := high
      state := s } := by
    intro s hs
    have hfits' : Jc.Fits cfg { jc with
        parseBuffer := buffer
        utf16HighSurrogate := high
        state := s } := ⟨hfits.bottom, hfits.stack, hfits.limit, hfits.buffer, hfits.capacity⟩
    rcases hs with rfl | rfl <;>
      exact ⟨hfits', h.opened, h.escaped, h.comment, fun hs => absurd hs Bool.false_ne_true,
        decide_eq_true hstring, trivial, fun _ _ => rfl⟩
  apply hsound
  dsimp only
  split
  · exact .inl rfl
  · exact .inr rfl

/-- The character closes what is not open. -/
def Closes (state : State) (stack : List Mode) (c : UInt8) : Prop :=
  (c = 0x5d ∨ c = 0x7d) ∧ state = .ok ∧ stack = [.done]

theorem closes_of (h : jc.Ready cfg c) (hc : c = 0x5d ∨ c = 0x7d)
    (hs : jc.state = .ok ∨ jc.state.isValue = true) (hstack : jc.stack = [.done]) :
    Closes jc.state jc.stack c := by
  rcases hs with hs | hs
  · exact ⟨hc, hs, hstack⟩
  · have habove := h.above .done (head_mem hstack)
    rcases above_value habove hs with hmode | hmode <;> cases hmode

theorem end_ensures (h : jc.Ready cfg c) {type : JsonType} {mode : Mode}
    (hc : c = 0x5d ∨ c = 0x7d) (hs : jc.state = .ok ∨ jc.state.isValue = true)
    (hmode : type = .arrayEnd ∧ mode = .array ∨ type = .objectEnd ∧ mode = .object) :
    Ensures (Stopped (Closes jc.state jc.stack c)) (Jc.Sound cfg) (jc.endContainer cfg type mode) :=
  endContainer_ensures h (closes_of h hc hs) hmode

theorem idle_of_value {s : State} (hs : s = .va ∨ s = .ar) :
    s.isIdle = true ∧ s.isValue = true := by
  rcases hs with rfl | rfl <;> exact ⟨rfl, rfl⟩

/-- Each action is taken where it can be. -/
theorem act_ensures (h : jc.Ready cfg c) {d : CharClass} {a : Action} (hc : charClass c = some d)
    (ha : Acts jc.state d a) (hcomment : jc.state.isComment = false) :
    Ensures (Stopped (Closes jc.state jc.stack c)) (Jc.Sound cfg) (jc.act cfg a) := by
  cases a with
  | cb =>
    apply commentBegin_ensures h
    rcases ha.2 with hs | hs | hs | hs | hs | hs | hs | hs
    · exact .inl hs
    all_goals rw [hs]; decide
  | ce =>
    have hs : jc.state = .c3 := ha.2
    rw [hs] at hcomment
    exact absurd hcomment Bool.true_eq_false_eq_False
  | fa =>
    obtain ⟨hidle, hvalue⟩ := idle_of_value ha.2
    exact wordBegin_ensures h hidle rfl rfl
      fun mode hmode => above_step hmode (fun _ => hvalue) (by decide)
  | tr =>
    obtain ⟨hidle, hvalue⟩ := idle_of_value ha.2
    exact wordBegin_ensures h hidle rfl rfl
      fun mode hmode => above_step hmode (fun _ => hvalue) (by decide)
  | nu =>
    obtain ⟨hidle, hvalue⟩ := idle_of_value ha.2
    exact wordBegin_ensures h hidle rfl rfl
      fun mode hmode => above_step hmode (fun _ => hvalue) (by decide)
  | de => exact exponent_ensures h (by rw [ha.2]; rfl)
  | df =>
    obtain ⟨rfl, hs⟩ := ha
    cases charClass_only hc 0x2e rfl
    exact point_ensures h (by rcases hs with hs | hs <;> rw [hs] <;> rfl)
  | sb =>
    apply quote_ensures h
    rcases ha.2 with hs | hs | hs | hs <;> rw [hs] <;> rfl
  | mx =>
    exact h.typed (.inl rfl) rfl
      fun mode hmode => above_step hmode (fun _ => (idle_of_value ha.2).2) (by decide)
  | zx =>
    exact h.typed (.inl rfl) rfl
      fun mode hmode => above_step hmode (fun _ => (idle_of_value ha.2).2) (by decide)
  | ix =>
    exact h.typed (.inl rfl) rfl
      fun mode hmode => above_step hmode (fun _ => (idle_of_value ha.2).2) (by decide)
  | ex => exact backslash_ensures h ha.2
  | uc => exact unicode_ensures h ha.2 hc ha.1
  | emptyEnd => exact emptyEnd_ensures h ha.2
  | objectEnd =>
    obtain ⟨rfl, hs⟩ := ha
    exact end_ensures h (.inr (charClass_only hc 0x7d rfl))
      (hs.imp_right fun hs => isValue_of_scalar (.inl hs)) (.inr ⟨rfl, rfl⟩)
  | arrayEnd =>
    obtain ⟨rfl, hs⟩ := ha
    refine end_ensures h (.inl (charClass_only hc 0x5d rfl)) (hs.imp_right ?_) (.inl ⟨rfl, rfl⟩)
    rintro (hs | hs)
    · rw [hs]
      rfl
    · exact isValue_of_scalar (.inl hs)
  | objectBegin =>
    refine startContainer_ensures h ?_ (.inl ⟨rfl, rfl, rfl⟩)
    rcases ha.2 with hs | hs | hs <;> rw [hs] <;> rfl
  | arrayBegin =>
    refine startContainer_ensures h ?_ (.inr ⟨rfl, rfl, rfl⟩)
    rcases ha.2 with hs | hs | hs <;> rw [hs] <;> rfl
  | stringEnd => exact stringEnd_ensures h ha.2
  | comma =>
    apply comma_ensures h
    rcases ha.2 with hs | hs
    · rw [hs]
      rfl
    · generalize jc.state = s at hs
      cases s <;> first | rfl | exact absurd hs Bool.false_ne_true
  | colon => exact colon_ensures h ha.2

/-- No action is taken at a blank, none but the end of one in a comment, and none behind a
backslash. -/
theorem acts_pushed {s : State} {d : CharClass} {a : Action} (h : Acts s d a) :
    d.isBlank = false ∧ s ≠ .es ∧ (a = .ce ∧ s = .c3 ∨ s.isComment = false) := by
  have hclass : d.isBlank = false := by
    cases a <;> obtain ⟨hd, -⟩ := h
    all_goals
      revert d
      apply CharClass.forall_of_all
      decide +kernel
  have hstate : s ≠ .es ∧ (a = .ce ∧ s = .c3 ∨ s.isComment = false) := by
    cases a <;> obtain ⟨-, hs⟩ := h
    all_goals
      revert s
      apply State.forall_of_all
      decide +kernel
  exact ⟨hclass, hstate⟩

/-- One byte. -/
theorem char_ensures (h : jc.Sound cfg) (c : UInt8) :
    Ensures (Stopped (Closes jc.state jc.stack c)) (Jc.Sound cfg) (jc.char cfg c) := by
  unfold Jc.char
  split
  · exact refuse_ensures (opened_ne_none h.opened)
  · next d hc =>
    apply (addChar_ensures h c d).bind
    intro jc' hadd
    rw [hadd.state_eq]
    have hfits := transition_fits jc.state d
    cases hcell : transition jc.state d with
    | error =>
      dsimp only
      have hopen := h.opened
      rw [← hadd.calls_eq] at hopen
      exact refuse_ensures (opened_ne_none hopen)
    | move s =>
      rw [hcell] at hfits
      exact moves_sound h hc hadd hfits
    | act a =>
      rw [hcell] at hfits
      obtain ⟨hblank, hes, ha⟩ := acts_pushed hfits
      dsimp only
      rcases ha with ⟨rfl, hs⟩ | hcomment
      · -- the end of a comment
        cases hadd with
        | escaped cs room hes' hcs fits eq => exact absurd hes' hes
        | skipped hclass eq =>
          subst eq
          exact commentEnd_ensures h hs
        | pushed hes' hcomment hclass ready state buffer type calls stack =>
          rw [hs] at hcomment
          exact absurd hcomment Bool.true_eq_false_eq_False
      · cases hadd with
        | escaped cs room hes' hcs fits eq => exact absurd hes' hes
        | skipped hclass eq =>
          rcases hclass with hs | ⟨-, hs⟩
          · exact absurd (hcomment.symm.trans hs) Bool.false_ne_true
          · exact absurd (hblank.symm.trans hs) Bool.false_ne_true
        | pushed hes' hcomment' hclass ready state buffer type calls stack =>
          rw [← state] at hfits hcomment' ⊢
          rw [← stack]
          exact act_ensures ready hc hfits hcomment'

end Actions

section Runs

/-! ## Whole texts -/

variable (cfg : Config)

theorem limit_ne_zero : cfg.limit ≠ 0 := by
  unfold Config.limit
  split
  · decide
  split <;> omega

/-- The bottom of the stack has room. -/
theorem start_sound : ∃ jc, start cfg = .ok jc ∧ jc.Sound cfg ∧ jc.calls = [] := by
  have hlimit := limit_ne_zero cfg
  have hroom : (0 : Nat) < if 0 < cfg.limit then cfg.limit.toNat else jsonParserStackSize := by
    split
    · omega
    · decide
  refine ⟨⟨.go, .go, none, false, false, 0, [.done],
    if 0 < cfg.limit then cfg.limit.toNat else jsonParserStackSize, [], jsonParserParseBufferSize,
    []⟩, ?_, ?_, rfl⟩
  · unfold start Jc.push
    dsimp only
    rw [List.length_nil, if_neg (by omega), if_neg (by omega)]
    exact require_bind hroom
  · have hbuffer : 2 ≤ jsonParserParseBufferSize := by decide
    refine ⟨⟨rfl, hroom, ?_, Nat.lt_of_lt_of_le Nat.two_pos hbuffer, hbuffer⟩, rfl, rfl, rfl,
      fun hs => absurd hs Bool.false_ne_true, rfl, rfl, ?_⟩
    · intro hnonneg
      dsimp only
      rw [if_pos (by omega)]
      omega
    · exact fun _ _ => rfl

variable {cfg} {jc : Jc}

/-- Of a text the parser stops in, or that it takes. -/
theorem run_ensures (h : jc.Sound cfg) (text : Bytes) :
    Ensures (Stopped (∃ p c rest jc', text = p ++ c :: rest ∧ p.foldlM (Jc.char cfg) jc = .ok jc' ∧
        Closes jc'.state jc'.stack c)) (Jc.Sound cfg) (text.foldlM (Jc.char cfg) jc) := by
  induction text generalizing jc with
  | nil => exact h
  | cons c text ih =>
    rw [List.foldlM_cons]
    have hchar := char_ensures h c
    cases hstep : jc.char cfg c with
    | error e =>
      rw [hstep] at hchar
      cases e with
      | fault => exact hchar
      | refused calls => exact fun hnone => ⟨[], c, text, jc, rfl, rfl, hchar hnone⟩
    | ok jc' =>
      rw [hstep] at hchar
      apply (ih hchar).mono
      · intro e he
        cases e with
        | fault => exact he
        | refused calls =>
          intro hnone
          obtain ⟨p, c', rest, jc'', rfl, hrun, hcloses⟩ := he hnone
          refine ⟨c :: p, c', rest, jc'', rfl, ?_, hcloses⟩
          rw [List.foldlM_cons, hstep]
          exact hrun
      · exact fun _ hsound => hsound

theorem done_ensures (h : jc.Sound cfg) :
    Ensures (Stopped False) (fun calls => opened calls ≠ none) jc.done := by
  have hopen : opened jc.calls ≠ none := by
    rw [h.opened]
    exact Option.some_ne_none _
  unfold Jc.done
  split
  · unfold Jc.pop
    split
    · exact hopen
    · split
      · exact hopen
      · exact hopen
  · exact hopen

variable (cfg)

/-- No assertion fails and no index is out of range. -/
theorem parse_never_faults (text : Bytes) : parse cfg text ≠ .error .fault := by
  obtain ⟨jc, hstart, hsound, -⟩ := start_sound cfg
  have hparse : Ensures (Stopped (∃ p c rest jc', text = p ++ c :: rest ∧
      p.foldlM (Jc.char cfg) jc = .ok jc' ∧ Closes jc'.state jc'.stack c))
      (fun calls => opened calls ≠ none) (parse cfg text) := by
    unfold parse
    rw [hstart, ok_bind]
    apply (run_ensures hsound text).bind
    intro jc' hsound'
    apply (done_ensures hsound').mono
    · intro e he
      cases e with
      | fault => exact he
      | refused calls => exact fun hnone => (he hnone).elim
    · exact fun _ hcalls => hcalls
  intro hfault
  rw [hfault] at hparse
  exact hparse

/-! ### Taking from an empty list -/

/-- The calls that are made for a text. -/
def callsMade : Except Stop (List Call) → List Call
  | .ok calls => calls
  | .error (.refused calls) => calls
  | .error .fault => []

variable {cfg} {c : UInt8}

theorem parseParseBuffer_eq (hcallback : ∀ calls, cfg.callback calls = true)
    (hscalar : ∀ t, jc.type = some t → t.isScalar = true) :
    jc.parseParseBuffer cfg =
      .ok { jc with parseBuffer := [], calls := jc.calls ++ jc.pending } := by
  obtain ⟨state, behind, type, escaped, comment, high, stack, size, buffer, room, calls⟩ := jc
  cases type with
  | none =>
    change _ = Except.ok (Jc.mk _ _ _ _ _ _ _ _ _ _ (calls ++ []))
    rw [List.append_nil]
    rfl
  | some t =>
    unfold Jc.parseParseBuffer
    dsimp only
    rw [require_bind (hscalar t rfl)]
    unfold Jc.call
    rw [if_pos (hcallback _)]
    rfl

theorem call_eq (hcallback : ∀ calls, cfg.callback calls = true) (type : JsonType)
    (value : Bytes) :
    jc.call cfg type value = .ok { jc with calls := jc.calls ++ [⟨type, value⟩] } := by
  unfold Jc.call
  rw [if_pos (hcallback _)]

/-- An end where nothing is open is told of, and then refused. -/
theorem endContainer_closes (hcallback : ∀ calls, cfg.callback calls = true)
    (h : jc.Ready cfg c) (hstack : jc.stack = [.done]) {type : JsonType} {mode : Mode}
    (hmode : type = .arrayEnd ∧ mode = .array ∨ type = .objectEnd ∧ mode = .object) :
    ∃ calls, jc.endContainer cfg type mode = .error (.refused calls) ∧ opened calls = none := by
  obtain ⟨b, hpop, hfits, -⟩ := h.popBack
  have hne : Mode.done ≠ mode := by rcases hmode with ⟨-, rfl⟩ | ⟨-, rfl⟩ <;> decide
  have hflush : ({ jc with parseBuffer := b } : Jc).parseParseBuffer cfg = .ok _ :=
    parseParseBuffer_eq hcallback (admits_isScalar h.type)
  have hopen : opened (jc.calls ++ Jc.pending { jc with parseBuffer := b }) = some 0 := by
    have hcalls := @opened_pending { jc with parseBuffer := b } (admits_isScalar h.type)
    exact hcalls.trans (h.opened.trans (congrArg some (congrArg (·.length - 1) hstack)))
  have hend := opened_end hopen (hmode.imp And.left And.left)
  refine ⟨_, ?_, hend⟩
  unfold Jc.endContainer
  rw [hpop, ok_bind, hflush, ok_bind, call_eq hcallback, ok_bind]
  unfold Jc.pop
  dsimp only
  rw [hstack]
  dsimp only
  rw [if_neg hne]
  rfl

theorem char_closes (hcallback : ∀ calls, cfg.callback calls = true) (h : jc.Sound cfg)
    (hcloses : Closes jc.state jc.stack c) :
    ∃ calls, jc.char cfg c = .error (.refused calls) ∧ opened calls = none := by
  obtain ⟨hc, hstate, hstack⟩ := hcloses
  have hes : jc.state ≠ .es := by rw [hstate]; decide
  have hcomment : jc.state.isComment = false := by rw [hstate]; rfl
  have hall : ∀ d a type mode, charClass c = some d → d.isBlank = false →
      transition .ok d = .act a → (∀ jc, Jc.act cfg jc a = jc.endContainer cfg type mode) →
      (type = .arrayEnd ∧ mode = .array ∨ type = .objectEnd ∧ mode = .object) →
      ∃ calls, jc.char cfg c = .error (.refused calls) ∧ opened calls = none := by
    intro d a type mode hclass hblank hcell hact hmode
    obtain ⟨jc', hadd, hready, hstate', -, -, -, hstack'⟩ :=
      addChar_pushes (c := c) h hes hcomment (.inr hblank)
    obtain ⟨calls, hend, hopen⟩ :=
      endContainer_closes hcallback hready (hstack'.trans hstack) hmode
    refine ⟨calls, ?_, hopen⟩
    unfold Jc.char
    rw [hclass]
    dsimp only
    rw [hadd, ok_bind, hstate', hstate, hcell]
    dsimp only
    rw [hact, hend]
  rcases hc with rfl | rfl
  · exact hall .rsqrb .arrayEnd .arrayEnd .array (by decide) rfl rfl (fun _ => rfl)
      (.inl ⟨rfl, rfl⟩)
  · exact hall .rcurb .objectEnd .objectEnd .object (by decide) rfl rfl (fun _ => rfl)
      (.inr ⟨rfl, rfl⟩)

/-- The parser takes a text that leaves nothing open. -/
theorem done_iff (h : jc.Sound cfg) :
    (∃ calls, jc.done = .ok calls) ↔ jc.state = .ok ∧ jc.stack = [.done] := by
  have hbottom := h.fits.bottom
  unfold Jc.done Jc.pop
  constructor
  · rintro ⟨calls, hdone⟩
    split at hdone
    · next hstate =>
      split at hdone
      · cases hdone
      · next mode stack hstack =>
        split at hdone
        · next hmode =>
          rw [hstack] at hbottom
          unfold Bottomed at hbottom
          rw [if_pos hmode] at hbottom
          exact ⟨hstate, by rw [hstack, hmode, hbottom]⟩
        · cases hdone
    · cases hdone
  · rintro ⟨hstate, hstack⟩
    rw [if_pos hstate, hstack]
    exact ⟨_, rfl⟩

/-- The callback is told of an end where nothing is open, and takes from an empty list, when
behind a text that is taken comes one end more. -/
theorem underflow_iff (hcallback : ∀ calls, cfg.callback calls = true) (text : Bytes) :
    opened (callsMade (parse cfg text)) = none ↔
      ∃ p c rest, text = p ++ c :: rest ∧ (c = 0x5d ∨ c = 0x7d) ∧
        ∃ calls, parse cfg p = .ok calls := by
  obtain ⟨jc, hstart, hsound, -⟩ := start_sound cfg
  have hparse : ∀ p, parse cfg p = p.foldlM (Jc.char cfg) jc >>= Jc.done := by
    intro p
    unfold parse
    rw [hstart, ok_bind]
  have hrun := run_ensures hsound text
  constructor
  · intro hnone
    rw [hparse] at hnone
    cases hstep : text.foldlM (Jc.char cfg) jc with
    | error e =>
      rw [hstep] at hrun hnone
      cases e with
      | fault => exact hrun.elim
      | refused calls =>
        obtain ⟨p, c, rest, jc', htext, hp, hc, hstate, hstack⟩ := hrun hnone
        have hp' := run_ensures hsound p
        rw [hp] at hp'
        refine ⟨p, c, rest, htext, hc, ?_⟩
        rw [hparse, hp]
        exact (done_iff hp').mpr ⟨hstate, hstack⟩
    | ok jc' =>
      rw [hstep] at hrun hnone
      have hdone := done_ensures hrun
      rw [ok_bind] at hnone
      cases hcalls : jc'.done with
      | error e =>
        rw [hcalls] at hdone hnone
        cases e with
        | fault => exact hdone.elim
        | refused calls => exact (hdone hnone).elim
      | ok calls =>
        rw [hcalls] at hdone hnone
        exact absurd hnone hdone
  · rintro ⟨p, c, rest, rfl, hc, calls, hp⟩
    rw [hparse] at hp
    cases hstep : p.foldlM (Jc.char cfg) jc with
    | error e =>
      rw [hstep] at hp
      cases hp
    | ok jc' =>
      have hp' := run_ensures hsound p
      rw [hstep] at hp hp'
      obtain ⟨hstate, hstack⟩ := (done_iff hp').mp ⟨calls, hp⟩
      obtain ⟨calls', hchar, hopen⟩ := char_closes hcallback hp' ⟨hc, hstate, hstack⟩
      rw [hparse, List.foldlM_append, hstep, ok_bind, List.foldlM_cons, hchar]
      exact hopen

theorem underflow_braces :
    opened (callsMade (parse (objectConfig 19 0x2e) [0x7b, 0x7d, 0x5d])) = none :=
  (underflow_iff (fun _ => rfl) _).mpr
    ⟨[0x7b, 0x7d], 0x5d, [], rfl, .inl rfl, [⟨.objectBegin, []⟩, ⟨.objectEnd, []⟩], rfl⟩

end Runs

end Nox.Json.Parser

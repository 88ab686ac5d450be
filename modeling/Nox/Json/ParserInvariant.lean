import Nox.Json.Parser

/-!
# What holds between two bytes

A byte leads to a state of the table or to an action, and goes into the buffer or does not.  What
holds between the bytes says for each state what is in the buffer, what its value is and what is
open; a step to a state keeps it.
-/

namespace Nox.Json.Parser

open Lib

section States

/-! ## States and steps -/

def State.all : List State :=
  [.go, .ok, .ob, .ke, .co, .va, .ar, .st, .es, .u1, .u2, .u3, .u4, .mi, .ze, .it, .fr, .e1, .e2,
    .e3, .t1, .t2, .t3, .f1, .f2, .f3, .f4, .n1, .n2, .n3, .c1, .c2, .c3, .fx, .d1, .d2]

def CharClass.all : List CharClass :=
  [.space, .white, .lcurb, .rcurb, .lsqrb, .rsqrb, .colon, .comma, .quote, .backs, .slash, .plus,
    .minus, .point, .zero, .digit, .lowA, .lowB, .lowC, .lowD, .lowE, .lowF, .lowL, .lowN, .lowR,
    .lowS, .lowT, .lowU, .abcdf, .e, .etc, .star]

theorem State.mem_all (s : State) : s ∈ State.all := by cases s <;> decide

theorem CharClass.mem_all (c : CharClass) : c ∈ CharClass.all := by cases c <;> decide

theorem State.forall_of_all {P : State → Prop} (h : ∀ s ∈ State.all, P s) (s : State) : P s :=
  h s s.mem_all

theorem CharClass.forall_of_all {P : CharClass → Prop} (h : ∀ c ∈ CharClass.all, P c)
    (c : CharClass) : P c :=
  h c c.mem_all

/-- Between tokens, with nothing in the buffer. -/
def State.isIdle : State → Bool
  | go | ob | ke | co | va | ar => true
  | _ => false

def State.isComment : State → Bool
  | c1 | c2 | c3 => true
  | _ => false

def State.isNumber : State → Bool
  | mi | ze | it | fr | e1 | e2 | e3 | fx => true
  | _ => false

def State.isName : State → Bool
  | t1 | t2 | t3 | f1 | f2 | f3 | f4 | n1 | n2 | n3 => true
  | _ => false

def State.isString : State → Bool
  | st | es | u1 | u2 | u3 | u4 | d1 | d2 => true
  | _ => false

/-- A value is due or read. -/
def State.isValue (s : State) : Bool := s = va || s = ar || s.isNumber || s.isName

/-- How many digits have been read behind `\u`. -/
def State.hexDigits : State → Option Nat
  | u1 => some 0
  | u2 => some 1
  | u3 => some 2
  | u4 => some 3
  | _ => none

/-- What a step to a state of the table can be. -/
def Moves (s : State) (c : CharClass) (s' : State) : Prop :=
  (s' = s ∧ (s.isIdle = true ∨ s = .ok) ∧ c.isBlank = true) ∨
  (s.isComment = true ∧ s'.isComment = true) ∨
  (s.isNumber = true ∧ (s'.isNumber = true ∨ s' = .ok)) ∨
  (s.isName = true ∧ (s'.isName = true ∨ s' = .ok)) ∨
  (s = .st ∧ s' = .st) ∨
  (s = .es ∧ s' = .st) ∨
  (s = .es ∧ s' = .u1 ∧ c = .lowU) ∨
  (s.hexDigits.isSome = true ∧ s'.hexDigits = s.hexDigits.map (· + 1) ∧ s' ≠ .u1 ∧
    c.isHex = true) ∨
  (s = .d1 ∧ s' = .d2 ∧ c = .backs) ∨
  (s = .d2 ∧ s' = .u1 ∧ c = .lowU)

/-- Where an action can be taken, and at which class. -/
def Acts (s : State) (c : CharClass) : Action → Prop
  | .cb => c = .slash ∧
    (s.isIdle = true ∨ s = .ok ∨ s = .ze ∨ s = .it ∨ s = .fr ∨ s = .t3 ∨ s = .f4 ∨ s = .n3)
  | .ce => c = .slash ∧ s = .c3
  | .fa => c = .lowF ∧ (s = .va ∨ s = .ar)
  | .tr => c = .lowT ∧ (s = .va ∨ s = .ar)
  | .nu => c = .lowN ∧ (s = .va ∨ s = .ar)
  | .mx => c = .minus ∧ (s = .va ∨ s = .ar)
  | .zx => c = .zero ∧ (s = .va ∨ s = .ar)
  | .ix => c = .digit ∧ (s = .va ∨ s = .ar)
  | .de => (c = .lowE ∨ c = .e) ∧ s = .it
  | .df => c = .point ∧ (s = .ze ∨ s = .it)
  | .sb => c = .quote ∧ (s = .ob ∨ s = .ke ∨ s = .va ∨ s = .ar)
  | .ex => c = .backs ∧ s = .st
  | .uc => c.isHex = true ∧ s = .u4
  | .emptyEnd => c = .rcurb ∧ s = .ob
  | .objectEnd => c = .rcurb ∧ (s = .ok ∨ s.isNumber = true)
  | .arrayEnd => c = .rsqrb ∧ (s = .ok ∨ s = .ar ∨ s.isNumber = true)
  | .objectBegin => c = .lcurb ∧ (s = .go ∨ s = .va ∨ s = .ar)
  | .arrayBegin => c = .lsqrb ∧ (s = .go ∨ s = .va ∨ s = .ar)
  | .stringEnd => c = .quote ∧ s = .st
  | .comma => c = .comma ∧ (s = .ok ∨ s.isNumber = true)
  | .colon => c = .colon ∧ s = .co

instance (s : State) (c : CharClass) (s' : State) : Decidable (Moves s c s') :=
  inferInstanceAs (Decidable (_ ∨ _))

instance (s : State) (c : CharClass) : (a : Action) → Decidable (Acts s c a)
  | .cb | .ce | .fa | .tr | .nu | .mx | .zx | .ix | .de | .df | .sb | .ex | .uc | .emptyEnd
  | .objectEnd | .arrayEnd | .objectBegin | .arrayBegin | .stringEnd | .comma | .colon =>
    inferInstanceAs (Decidable (_ ∧ _))

/-- What a cell of a row may be. -/
def Cell.Fits (s : State) (c : CharClass) : Cell → Prop
  | .error => True
  | .move s' => Moves s c s'
  | .act a => Acts s c a

instance (s : State) (c : CharClass) : (cell : Cell) → Decidable (cell.Fits s c)
  | .error => inferInstanceAs (Decidable True)
  | .move s' => inferInstanceAs (Decidable (Moves s c s'))
  | .act a => inferInstanceAs (Decidable (Acts s c a))

theorem transition_fits (s : State) (c : CharClass) : (transition s c).Fits s c := by
  have h : ∀ s ∈ State.all, ∀ c ∈ CharClass.all, (transition s c).Fits s c := by decide +kernel
  exact h s s.mem_all c c.mem_all

end States

section Calls

/-! ## What `json_object` has open -/

/-- The elements of `mystack` behind a call: there is no `pop_front` of an empty list. -/
def stackStep (n : Option Nat) (c : Call) : Option Nat :=
  n.bind fun n =>
    match c.type with
    | .arrayBegin | .objectBegin => some (n + 1)
    | .arrayEnd | .objectEnd => if n = 0 then none else some (n - 1)
    | _ => some n

/-- The elements of `mystack` behind the calls. -/
def opened (calls : List Call) : Option Nat := calls.foldl stackStep (some 0)

theorem opened_concat (calls : List Call) (c : Call) :
    opened (calls ++ [c]) = stackStep (opened calls) c := by
  rw [opened, List.foldl_append]
  rfl

theorem stackStep_scalar {n : Option Nat} {c : Call} (h : c.type.isScalar = true) :
    stackStep n c = n := by
  cases n with
  | none => rfl
  | some n =>
    obtain ⟨type, value⟩ := c
    cases type <;> first | rfl | cases h

/-- The call for the value in the buffer, if there is one. -/
def Jc.pending (jc : Jc) : List Call :=
  match jc.type with
  | none => []
  | some t => [⟨t, t.argument jc.parseBuffer⟩]

theorem opened_pending {jc : Jc} (h : ∀ t, jc.type = some t → t.isScalar = true) :
    opened (jc.calls ++ jc.pending) = opened jc.calls := by
  unfold Jc.pending
  cases htype : jc.type with
  | none => rw [List.append_nil]
  | some t => rw [opened_concat, stackStep_scalar (h t htype)]

end Calls

section Memory

/-! ## The buffer and the stack -/

variable (cfg : Config)

/-- `MODE_DONE` is at the bottom of the stack and nowhere else. -/
def Bottomed : List Mode → Prop
  | [] => False
  | mode :: stack => if mode = .done then stack = [] else Bottomed stack

/-- The stack and the buffer have room for what they hold, and the stack is never empty. -/
structure Jc.Fits (jc : Jc) : Prop where
  bottom : Bottomed jc.stack
  stack : jc.stack.length ≤ jc.stackCapacity
  limit : 0 ≤ cfg.limit → (jc.stackCapacity : Int) = cfg.limit
  buffer : jc.parseBuffer.length < jc.parseBufferCapacity
  capacity : 2 ≤ jc.parseBufferCapacity

/-- A stop that is no fault; when it takes from an empty list, this holds. -/
def Stopped (P : Prop) : Stop → Prop
  | .fault => False
  | .refused calls => opened calls = none → P

variable {cfg} {P : Prop} {jc : Jc} {n : Nat}

theorem refuse_ensures {α : Type} {Q : α → Prop} (hopen : opened jc.calls = none → P) :
    Ensures (Stopped P) Q (jc.refuse : Except Stop α) :=
  hopen

theorem opened_ne_none {calls : List Call} (hopen : opened calls = some n)
    (hnone : opened calls = none) : P :=
  absurd (hopen.symm.trans hnone) (Option.some_ne_none n)

theorem require_bind {α : Type} {p : Prop} [Decidable p] {f : Except Stop α} (h : p) :
    (require p >>= fun _ => f) = f := by
  rw [require, if_pos h]
  rfl

theorem Jc.Fits.stack_ne_nil (h : jc.Fits cfg) : jc.stack ≠ [] := by
  intro hnil
  have hbottom := h.bottom
  rw [hnil] at hbottom
  exact hbottom

theorem Jc.Fits.with_buffer (h : jc.Fits cfg) {b : Bytes}
    (hle : b.length ≤ jc.parseBuffer.length) :
    ({ jc with parseBuffer := b } : Jc).Fits cfg :=
  ⟨h.bottom, h.stack, h.limit, Nat.lt_of_le_of_lt hle h.buffer, h.capacity⟩

theorem bufferPopBack_eq (h : jc.parseBuffer ≠ []) :
    jc.bufferPopBack = .ok { jc with parseBuffer := jc.parseBuffer.dropLast } := by
  have hlength := List.length_pos_iff.mpr h
  exact require_bind hlength

/-- There is room for one more character. -/
theorem bufferPushBack_eq (h : jc.Fits cfg) (c : UInt8) :
    ∃ capacity, jc.bufferPushBack c =
        .ok { jc with parseBuffer := jc.parseBuffer ++ [c], parseBufferCapacity := capacity } ∧
      ({ jc with parseBuffer := jc.parseBuffer ++ [c], parseBufferCapacity := capacity } :
        Jc).Fits cfg := by
  have hbuffer := h.buffer
  have hcapacity := h.capacity
  have hroom : jc.parseBuffer.length + 1 <
      if jc.parseBufferCapacity ≤ jc.parseBuffer.length + 1 then jc.parseBufferCapacity * 2
      else jc.parseBufferCapacity := by
    split <;> omega
  refine ⟨_, require_bind hroom, h.bottom, h.stack, h.limit, ?_, ?_⟩
  · dsimp only
    rw [List.length_append]
    exact hroom
  · dsimp only
    omega

theorem push_ensures (h : jc.Fits cfg) (hopen : opened jc.calls = none → P) {m : Mode}
    (hmode : m ≠ .done) :
    Ensures (Stopped P) (fun jc' => ∃ capacity,
        jc' = { jc with stack := m :: jc.stack, stackCapacity := capacity } ∧ jc'.Fits cfg)
      (jc.push cfg m) := by
  unfold Jc.push
  dsimp only
  split
  · exact refuse_ensures hopen
  · next hlimit =>
    have hstack := h.stack
    have hpos := List.length_pos_iff.mpr h.stack_ne_nil
    have hroom : jc.stack.length <
        if cfg.limit < 0 ∧ jc.stackCapacity ≤ jc.stack.length then jc.stackCapacity * 2
        else jc.stackCapacity := by
      have hcapacity := h.limit
      split <;> omega
    rw [require_bind hroom]
    refine ⟨_, rfl, ?_, hroom, ?_, h.buffer, h.capacity⟩
    · dsimp only
      unfold Bottomed
      rw [if_neg hmode]
      exact h.bottom
    · intro hnonneg
      dsimp only
      rw [if_neg (by omega)]
      exact h.limit hnonneg

/-- What is taken is on top, and the bottom stays. -/
theorem pop_ensures (h : jc.Fits cfg) (hopen : opened jc.calls = none → P) {mode : Mode}
    (hmode : mode ≠ .done) :
    Ensures (Stopped P) (fun jc' => ∃ stack, jc.stack = mode :: stack ∧
        jc' = { jc with stack } ∧ jc'.Fits cfg) (jc.pop mode) := by
  unfold Jc.pop
  split
  · exact refuse_ensures hopen
  · next m stack hstack =>
    split
    · next heq =>
      subst heq
      have hbottom := h.bottom
      have hlength := h.stack
      rw [hstack] at hbottom hlength
      unfold Bottomed at hbottom
      rw [if_neg hmode] at hbottom
      exact ⟨stack, hstack, rfl, hbottom, Nat.le_of_succ_le hlength, h.limit, h.buffer, h.capacity⟩
    · exact refuse_ensures hopen

/-- The callback is told of the value in the buffer. -/
theorem parseParseBuffer_ensures (h : jc.Fits cfg) (hopen : opened jc.calls = none → P)
    (hscalar : ∀ t, jc.type = some t → t.isScalar = true) :
    Ensures (Stopped P) (fun jc' =>
        jc' = { jc with parseBuffer := [], calls := jc.calls ++ jc.pending } ∧ jc'.Fits cfg ∧
          opened jc'.calls = opened jc.calls) (jc.parseParseBuffer cfg) := by
  have hpending := opened_pending hscalar
  have hbuffer := Nat.zero_lt_of_lt h.buffer
  obtain ⟨state, behind, type, escaped, comment, high, stack, size, buffer, room, calls⟩ := jc
  cases type with
  | none =>
    refine ⟨?_, ⟨h.bottom, h.stack, h.limit, hbuffer, h.capacity⟩, rfl⟩
    change _ = Jc.mk _ _ _ _ _ _ _ _ _ _ (calls ++ [])
    rw [List.append_nil]
    rfl
  | some t =>
    unfold Jc.parseParseBuffer
    dsimp only
    rw [require_bind (hscalar t rfl)]
    unfold Jc.call
    dsimp only
    split
    · exact ⟨rfl, ⟨h.bottom, h.stack, h.limit, hbuffer, h.capacity⟩, hpending⟩
    · exact refuse_ensures fun hnone => hopen (hpending.symm.trans hnone)

/-- A call, and where it is the last one. -/
theorem call_ensures {type : JsonType} {value : Bytes}
    (hopen : opened (jc.calls ++ [⟨type, value⟩]) = none → P) :
    Ensures (Stopped P) (fun jc' => jc' = { jc with calls := jc.calls ++ [⟨type, value⟩] })
      (jc.call cfg type value) := by
  unfold Jc.call
  dsimp only
  split
  · rfl
  · exact refuse_ensures hopen

end Memory

section Invariant

/-! ## What holds between two bytes -/

/-- The types of a value in a state. -/
def State.admits (s : State) (t : Option JsonType) : Bool :=
  if s.isString then t = some .string
  else if s.isNumber then t = some .integer || t = some .float
  else if s.isName then t = some .null || t = some .false || t = some .true
  else if s = .ok then t ≠ some .string && t.all JsonType.isScalar
  else t = none

/-- What is on top of the stack in a state. -/
def State.above (s : State) (mode : Mode) : Bool :=
  if s.isValue then mode = .array || mode = .object else if s = .ob then mode = .key else true

/-- The buffer ends in `\u` and that many hexadecimal digits. -/
def Escape (k : Nat) (buffer : Bytes) : Prop :=
  ∃ b digits, buffer = b ++ [0x5c, 0x75] ++ digits ∧ digits.length = k ∧
    ∀ c ∈ digits, ∃ d, charClass c = some d ∧ d.isHex = true

/-- What the buffer is like in a state. -/
def State.Holds (s : State) (buffer : Bytes) : Prop :=
  match s with
  | .go | .ob | .ke | .co | .va | .ar | .c1 | .c2 | .c3 => buffer = []
  | .es => buffer ≠ []
  | .u1 => Escape 0 buffer
  | .u2 => Escape 1 buffer
  | .u3 => Escape 2 buffer
  | .u4 => Escape 3 buffer
  | .d2 => ∃ b, buffer = b ++ [0x5c]
  | _ => True

/-- The state, or the one that a comment leads back to. -/
def Jc.place (jc : Jc) : State := if jc.state.isComment then jc.beforeCommentState else jc.state

variable (cfg : Config)

structure Jc.Sound (jc : Jc) : Prop where
  fits : jc.Fits cfg
  opened : opened jc.calls = some (jc.stack.length - 1)
  escaped : jc.escaped = decide (jc.state = .es)
  comment : jc.comment = jc.state.isComment
  behind : jc.state.isComment = true → jc.beforeCommentState.isIdle = true ∨
    jc.beforeCommentState = .ok
  type : jc.state.admits jc.type = true
  holds : jc.state.Holds jc.parseBuffer
  above : ∀ mode ∈ jc.stack.head?, jc.place.above mode = true

/-- A character has been put into the buffer, and the state is still the one before. -/
structure Jc.Ready (jc : Jc) (c : UInt8) : Prop where
  fits : jc.Fits cfg
  opened : opened jc.calls = some (jc.stack.length - 1)
  escaped : jc.escaped = false
  comment : jc.comment = false
  type : jc.state.admits jc.type = true
  holds : ∃ b, jc.parseBuffer = b ++ [c] ∧ jc.state.Holds b
  above : ∀ mode ∈ jc.stack.head?, jc.state.above mode = true

variable {cfg} {jc : Jc} {s : State} {t : Option JsonType}

theorem admits_isScalar (h : s.admits t = true) (t' : JsonType) (ht : t = some t') :
    t'.isScalar = true := by
  subst ht
  unfold State.admits at h
  split at h
  · cases Option.some.inj (of_decide_eq_true h)
    rfl
  split at h
  · rcases (Bool.or_eq_true _ _).mp h with h | h <;>
      (cases Option.some.inj (of_decide_eq_true h); rfl)
  split at h
  · rcases (Bool.or_eq_true _ _).mp h with h | h
    · rcases (Bool.or_eq_true _ _).mp h with h | h <;>
        (cases Option.some.inj (of_decide_eq_true h); rfl)
    · cases Option.some.inj (of_decide_eq_true h)
      rfl
  split at h
  · exact ((Bool.and_eq_true _ _).mp h).2
  · exact absurd (of_decide_eq_true h) (Option.some_ne_none _)

theorem admits_ne_string (h : s.admits t = true) (hs : s.isString = false) : t ≠ some .string := by
  rintro rfl
  cases s <;> first | exact absurd h Bool.false_ne_true | exact absurd hs Bool.true_eq_false_eq_False

theorem admits_idle (h : s.admits t = true) (hs : s.isIdle = true ∨ s.isComment = true) :
    t = none := by
  cases s <;> first | exact of_decide_eq_true h | (rcases hs with hs | hs <;> cases hs)

theorem admits_string (h : s.admits t = true) (hs : s.isString = true) : t = some .string := by
  unfold State.admits at h
  rw [if_pos hs] at h
  exact of_decide_eq_true h

theorem admits_number (h : s.admits t = true) (hs : s.isNumber = true) :
    t = some .integer ∨ t = some .float := by
  cases s <;> first
    | exact absurd hs Bool.false_ne_true
    | exact (Bool.or_eq_true _ _).mp h |>.imp of_decide_eq_true of_decide_eq_true

theorem holds_idle {buffer : Bytes} (h : s.Holds buffer)
    (hs : s.isIdle = true ∨ s.isComment = true) : buffer = [] := by
  cases s <;> first | exact h | (rcases hs with hs | hs <;> cases hs)

theorem above_value {mode : Mode} (h : s.above mode = true) (hs : s.isValue = true) :
    mode = .array ∨ mode = .object := by
  unfold State.above at h
  rw [if_pos hs] at h
  exact (Bool.or_eq_true _ _).mp h |>.imp of_decide_eq_true of_decide_eq_true

end Invariant

section Characters

/-! ## A character is put into the buffer -/

theorem forall_byte {P : UInt8 → Prop} (h : ∀ n < 256, P (UInt8.ofNat n)) (c : UInt8) : P c := by
  have hc := h c.toNat (UInt8.toNat_lt c)
  rwa [UInt8.ofNat_toNat] at hc

/-- The classes of one character. -/
def CharClass.only : CharClass → Option UInt8
  | backs => some 0x5c
  | lowU => some 0x75
  | point => some 0x2e
  | rsqrb => some 0x5d
  | rcurb => some 0x7d
  | _ => none

theorem charClass_only {c : UInt8} {d : CharClass} (h : charClass c = some d) (b : UInt8)
    (hb : d.only = some b) : c = b := by
  have hall : ∀ c : UInt8, ((charClass c).bind CharClass.only).all (· == c) = true :=
    forall_byte (by decide +kernel)
  have hc := hall c
  rw [h, Option.bind_some, hb] at hc
  exact (eq_of_beq hc).symm

theorem hexNibble_lt {c : UInt8} {d : CharClass} (h : charClass c = some d)
    (hd : d.isHex = true) : hexNibble c < 16 := by
  have hall : ∀ c : UInt8, (charClass c).all (fun d => !d.isHex || hexNibble c < 16) = true :=
    forall_byte (by decide +kernel)
  have hc := hall c
  rw [h, Option.all_some, hd] at hc
  exact of_decide_eq_true hc

variable {cfg : Config} {P : Prop} {jc : Jc} {c : UInt8} {d : CharClass}

theorem Jc.Sound.place_eq (h : jc.state.isComment = false) : jc.place = jc.state := by
  unfold Jc.place
  rw [h]
  rfl

/-- Outside of comments and behind no backslash a character goes into the buffer. -/
theorem addChar_pushes (h : jc.Sound cfg) (hes : jc.state ≠ .es)
    (hcomment : jc.state.isComment = false) (hclass : jc.type ≠ none ∨ d.isBlank = false) :
    ∃ jc', jc.addChar c d = .ok jc' ∧ jc'.Ready cfg c ∧ jc'.state = jc.state ∧
      jc'.parseBuffer = jc.parseBuffer ++ [c] ∧ jc'.type = jc.type ∧ jc'.calls = jc.calls ∧
      jc'.stack = jc.stack := by
  have hescaped : jc.escaped = false := h.escaped.trans (decide_eq_false hes)
  have hcomment' : jc.comment = false := h.comment.trans hcomment
  have hclass' : jc.type ≠ none ∨ ¬d.isBlank = true := hclass.imp_right ne_true_of_eq_false
  obtain ⟨room, heq, hfits⟩ := bufferPushBack_eq h.fits c
  refine ⟨_, ?_, ⟨hfits, h.opened, hescaped, hcomment', h.type, ⟨_, rfl, h.holds⟩, ?_⟩,
    rfl, rfl, rfl, rfl, rfl⟩
  · unfold Jc.addChar
    rw [if_neg (ne_true_of_eq_false hescaped),
      if_pos ⟨ne_true_of_eq_false hcomment', hclass'⟩]
    exact heq
  · have habove := h.above
    rw [Jc.Sound.place_eq hcomment] at habove
    exact habove

/-- In a comment, and at white space between tokens, it does not. -/
theorem addChar_skips (h : jc.Sound cfg) (hes : jc.state ≠ .es)
    (hclass : jc.state.isComment = true ∨ jc.type = none ∧ d.isBlank = true) :
    jc.addChar c d = .ok jc := by
  have hescaped : jc.escaped = false := h.escaped.trans (decide_eq_false hes)
  unfold Jc.addChar
  rw [if_neg (ne_true_of_eq_false hescaped), if_neg]
  rintro ⟨hcomment, hclass'⟩
  rcases hclass with hstate | ⟨htype, hblank⟩
  · exact hcomment (h.comment.trans hstate)
  · rcases hclass' with hclass' | hclass'
    · exact hclass' htype
    · exact hclass' hblank

/-- The pushes of some characters. -/
theorem pushes_eq (hfits : jc.Fits cfg) (cs : Bytes) :
    ∃ room, cs.foldlM Jc.bufferPushBack jc =
        .ok { jc with parseBuffer := jc.parseBuffer ++ cs, parseBufferCapacity := room } ∧
      ({ jc with parseBuffer := jc.parseBuffer ++ cs, parseBufferCapacity := room } :
        Jc).Fits cfg := by
  induction cs generalizing jc with
  | nil =>
    refine ⟨jc.parseBufferCapacity, ?_, ?_⟩ <;> rw [List.append_nil]
    · rfl
    · exact hfits
  | cons c cs ih =>
    obtain ⟨room, heq, hfits'⟩ := bufferPushBack_eq hfits c
    obtain ⟨room', heq', hfits''⟩ := ih hfits'
    dsimp only at heq' hfits''
    rw [List.append_assoc] at heq' hfits''
    rw [List.foldlM_cons, heq]
    exact ⟨room', heq', hfits''⟩

theorem addEscapedChar_none {jc' : Jc}
    (hpop : ({ jc with escaped := false } : Jc).bufferPopBack = .ok jc')
    (hcs : escapedChar c = none) : jc.addEscapedChar c = jc'.refuse := by
  unfold Jc.addEscapedChar
  rw [hpop, hcs]
  rfl

theorem addEscapedChar_some {jc' : Jc} {cs : Bytes}
    (hpop : ({ jc with escaped := false } : Jc).bufferPopBack = .ok jc')
    (hcs : escapedChar c = some cs) :
    jc.addEscapedChar c = cs.foldlM Jc.bufferPushBack jc' := by
  unfold Jc.addEscapedChar
  rw [hpop, hcs]
  rfl

/-- Behind a backslash the character takes the place of it. -/
theorem addChar_escaped (h : jc.Sound cfg) (hes : jc.state = .es) :
    Ensures (Stopped P) (fun jc' => ∃ cs room, escapedChar c = some cs ∧ jc'.Fits cfg ∧
      jc' = { jc with
        escaped := false
        parseBuffer := jc.parseBuffer.dropLast ++ cs
        parseBufferCapacity := room }) (jc.addChar c d) := by
  have hescaped : jc.escaped = true := h.escaped.trans (decide_eq_true hes)
  have hholds := h.holds
  rw [hes] at hholds
  unfold Jc.addChar
  rw [if_pos hescaped]
  have hpopped : ({ jc with escaped := false } : Jc).bufferPopBack = _ := bufferPopBack_eq hholds
  have hpop : ({ jc with parseBuffer := jc.parseBuffer.dropLast } : Jc).Fits cfg :=
    h.fits.with_buffer (List.dropLast_sublist _).length_le
  cases hcs : escapedChar c with
  | none =>
    rw [addEscapedChar_none hpopped hcs]
    exact refuse_ensures (opened_ne_none h.opened)
  | some cs =>
    have hpop' : ({ jc with escaped := false, parseBuffer := jc.parseBuffer.dropLast } :
        Jc).Fits cfg := ⟨hpop.bottom, hpop.stack, hpop.limit, hpop.buffer, hpop.capacity⟩
    obtain ⟨room, heq, hfits⟩ := pushes_eq hpop' cs
    rw [addEscapedChar_some hpopped hcs, heq]
    exact ⟨cs, room, rfl, hfits, rfl⟩

/-- What `add_char_to_parse_buffer` leaves: behind a backslash, where it takes no character, and
where it takes this one. -/
inductive Added (cfg : Config) (jc : Jc) (c : UInt8) (d : CharClass) (jc' : Jc) : Prop
  | escaped (cs : Bytes) (room : Nat) (hes : jc.state = .es) (hcs : escapedChar c = some cs)
      (fits : jc'.Fits cfg)
      (eq : jc' = { jc with
        escaped := false
        parseBuffer := jc.parseBuffer.dropLast ++ cs
        parseBufferCapacity := room })
  | skipped (hclass : jc.state.isComment = true ∨ jc.type = none ∧ d.isBlank = true)
      (eq : jc' = jc)
  | pushed (hes : jc.state ≠ .es) (hcomment : jc.state.isComment = false)
      (hclass : jc.type ≠ none ∨ d.isBlank = false) (ready : jc'.Ready cfg c)
      (state : jc'.state = jc.state) (buffer : jc'.parseBuffer = jc.parseBuffer ++ [c])
      (type : jc'.type = jc.type) (calls : jc'.calls = jc.calls) (stack : jc'.stack = jc.stack)

theorem addChar_ensures (h : jc.Sound cfg) (c : UInt8) (d : CharClass) :
    Ensures (Stopped P) (Added cfg jc c d) (jc.addChar c d) := by
  by_cases hes : jc.state = .es
  · apply (addChar_escaped h hes).mono
    · exact fun _ he => he
    · rintro jc' ⟨cs, room, hcs, hfits, heq⟩
      exact .escaped cs room hes hcs hfits heq
  by_cases hclass : jc.state.isComment = true ∨ jc.type = none ∧ d.isBlank = true
  · rw [addChar_skips h hes hclass]
    exact .skipped hclass rfl
  · obtain ⟨hcomment, hblank⟩ := not_or.mp hclass
    have hclass' : jc.type ≠ none ∨ d.isBlank = false :=
      (Decidable.not_and_iff_or_not.mp hblank).imp_right Bool.eq_false_of_not_eq_true
    have hcomment' := Bool.eq_false_of_not_eq_true hcomment
    obtain ⟨jc', heq, hready, hstate, hbuffer, htype, hcalls, hstack⟩ :=
      addChar_pushes (c := c) h hes hcomment' hclass'
    rw [heq]
    exact .pushed hes hcomment' hclass' hready hstate hbuffer htype hcalls hstack

theorem Added.state_eq {jc' : Jc} (h : Added cfg jc c d jc') : jc'.state = jc.state := by
  cases h with
  | escaped cs room hes hcs fits eq => rw [eq]
  | skipped hclass eq => rw [eq]
  | pushed hes hcomment hclass ready state buffer type calls stack => exact state

theorem Added.calls_eq {jc' : Jc} (h : Added cfg jc c d jc') : jc'.calls = jc.calls := by
  cases h with
  | escaped cs room hes hcs fits eq => rw [eq]
  | skipped hclass eq => rw [eq]
  | pushed hes hcomment hclass ready state buffer type calls stack => exact calls

end Characters

section Moves

/-! ## A step to a state -/

variable {cfg : Config} {jc jc' : Jc} {c : UInt8} {d : CharClass} {s s' : State}

/-- A step behind a character that is kept, out of no comment and into none. -/
theorem Jc.Ready.move (h : jc.Ready cfg c) (hes : s ≠ .es) (hcomment : s.isComment = false)
    (htype : s.admits jc.type = true) (hholds : s.Holds jc.parseBuffer)
    (habove : ∀ mode, jc.state.above mode = true → s.above mode = true) :
    ({ jc with state := s } : Jc).Sound cfg where
  fits := ⟨h.fits.bottom, h.fits.stack, h.fits.limit, h.fits.buffer, h.fits.capacity⟩
  opened := h.opened
  escaped := h.escaped.trans (decide_eq_false hes).symm
  comment := h.comment.trans hcomment.symm
  behind := fun hs => absurd (hcomment.symm.trans hs) Bool.false_ne_true
  type := htype
  holds := hholds
  above := by
    intro mode hmode
    rw [Jc.Sound.place_eq hcomment]
    exact habove mode (h.above mode hmode)

/-- In which states a value is being read. -/
def State.isReading (s : State) : Bool := s.isNumber || s.isName || s.isString

/-- Steps while a value is being read lead on in the value. -/
theorem moves_cases (h : Moves s d s') :
    (s' = s ∧ (s.isIdle = true ∨ s = .ok) ∧ d.isBlank = true) ∨
      (s.isComment = true ∧ s'.isComment = true) ∨ s.isReading = true := by
  rcases h with h | h | ⟨hs, -⟩ | ⟨hs, -⟩ | ⟨rfl, -⟩ | ⟨rfl, -⟩ | ⟨rfl, -⟩ | ⟨hs, -⟩ | ⟨rfl, -⟩ |
    ⟨rfl, -⟩
  · exact .inl h
  · exact .inr (.inl h)
  · cases s <;> first | exact .inr (.inr rfl) | exact absurd hs Bool.false_ne_true
  · cases s <;> first | exact .inr (.inr rfl) | exact absurd hs Bool.false_ne_true
  · exact .inr (.inr rfl)
  · exact .inr (.inr rfl)
  · exact .inr (.inr rfl)
  · cases s <;> first | exact .inr (.inr rfl) | exact absurd hs Bool.false_ne_true
  · exact .inr (.inr rfl)
  · exact .inr (.inr rfl)

theorem moves_es (h : Moves .es d s) : s = .st ∨ s = .u1 ∧ d = .lowU := by
  rcases h with ⟨-, hs | hs, -⟩ | ⟨hs, -⟩ | ⟨hs, -⟩ | ⟨hs, -⟩ | ⟨hs, -⟩ | ⟨-, hs⟩ | ⟨-, hs⟩ |
    ⟨hs, -⟩ | ⟨hs, -⟩ | ⟨hs, -⟩
  all_goals first
    | exact .inl hs
    | exact .inr hs
    | exact absurd hs Bool.false_ne_true
    | cases hs

theorem moves_comment (h : Moves s d s') (hs : s.isComment = true) :
    s'.isComment = true := by
  rcases moves_cases h with ⟨rfl, -, -⟩ | ⟨-, hs'⟩ | hread
  · exact hs
  · exact hs'
  · cases s <;> first | exact absurd hs Bool.false_ne_true | exact absurd hread Bool.false_ne_true

/-- The states of a comment have nothing of their own. -/
theorem comment_facts (hs : s.isComment = true) :
    s ≠ .es ∧ s.Holds [] ∧ s.admits none = true := by
  cases s <;> first
    | exact ⟨by decide, rfl, rfl⟩
    | exact absurd hs Bool.false_ne_true

theorem moves_rest (h : Moves s d s') (hs : s.isIdle = true ∨ s = .ok) :
    s' = s ∧ d.isBlank = true := by
  rcases moves_cases h with ⟨rfl, -, hblank⟩ | ⟨hs', -⟩ | hs'
  · exact ⟨rfl, hblank⟩
  · cases s <;> first | exact absurd hs' Bool.false_ne_true | exact absurd hs (by decide)
  · cases s <;> first | exact absurd hs' Bool.false_ne_true | exact absurd hs (by decide)

/-- Without a type a value is not being read. -/
theorem admits_none (h : s.admits none = true) (hs : s.isComment = false) :
    s.isIdle = true ∨ s = .ok := by
  cases s <;> first
    | exact .inl rfl
    | exact .inr rfl
    | exact absurd h Bool.false_ne_true
    | exact absurd hs Bool.true_eq_false_eq_False

theorem admits_name {t : Option JsonType} (h : s.admits t = true) (hs : s.isName = true) :
    t = some .null ∨ t = some .false ∨ t = some .true := by
  cases s <;> first
    | exact absurd hs Bool.false_ne_true
    | exact or_assoc.mp (((Bool.or_eq_true _ _).mp h).imp
        (fun h => ((Bool.or_eq_true _ _).mp h).imp of_decide_eq_true of_decide_eq_true)
        of_decide_eq_true)

/-- The type stays while the value goes on, and where it ends. -/
theorem admits_number_step {t : Option JsonType} (h : s.admits t = true)
    (hs : s.isNumber = true) (hs' : s'.isNumber = true ∨ s' = .ok) : s'.admits t = true := by
  have hall : ∀ s' ∈ State.all, s'.isNumber = true ∨ s' = .ok →
      s'.admits (some .integer) = true ∧ s'.admits (some .float) = true := by decide +kernel
  rcases admits_number h hs with rfl | rfl
  · exact (hall s' s'.mem_all hs').1
  · exact (hall s' s'.mem_all hs').2

theorem admits_name_step {t : Option JsonType} (h : s.admits t = true)
    (hs : s.isName = true) (hs' : s'.isName = true ∨ s' = .ok) : s'.admits t = true := by
  have hall : ∀ s' ∈ State.all, s'.isName = true ∨ s' = .ok → ∀ t ∈ [.null, .false, .true],
      s'.admits (some t) = true := by decide +kernel
  rcases admits_name h hs with rfl | rfl | rfl
  · exact hall s' s'.mem_all hs' _ List.mem_cons_self
  · exact hall s' s'.mem_all hs' _ (List.mem_cons_of_mem _ List.mem_cons_self)
  · exact hall s' s'.mem_all hs' _ (List.mem_cons_of_mem _ (List.mem_cons_of_mem _
      List.mem_cons_self))

theorem admits_string_step {t : Option JsonType} (h : s.admits t = true)
    (hs : s.isString = true) (hs' : s'.isString = true) : s'.admits t = true := by
  have hall : ∀ s' ∈ State.all, s'.isString = true → s'.admits (some .string) = true := by
    decide +kernel
  rw [admits_string h hs]
  exact hall s' s'.mem_all hs'

/-- Where a value may stand, it may also go on. -/
theorem above_step {mode : Mode} (h : s.above mode = true)
    (hs : s'.isValue = true → s.isValue = true) (hob : s' ≠ .ob) : s'.above mode = true := by
  unfold State.above at h ⊢
  by_cases hvalue : s'.isValue = true
  · rw [if_pos (hs hvalue)] at h
    rw [if_pos hvalue]
    exact h
  · rw [if_neg hvalue, if_neg hob]

/-- Nothing is said of the buffer while a number or a name is read. -/
theorem holds_of_scalar (hs : s.isNumber = true ∨ s.isName = true ∨ s = .ok) :
    s ≠ .es ∧ s.isComment = false ∧ s ≠ .ob ∧ ∀ buffer, s.Holds buffer := by
  cases s <;> first
    | exact ⟨by decide, rfl, by decide, fun _ => trivial⟩
    | exact absurd hs (by decide)

theorem isValue_of_scalar (hs : s.isNumber = true ∨ s.isName = true) : s.isValue = true := by
  cases s <;> first | rfl | exact absurd hs (by decide)

theorem Escape.digit {k : Nat} {b : Bytes} (h : Escape k b) (hc : charClass c = some d)
    (hd : d.isHex = true) : Escape (k + 1) (b ++ [c]) := by
  obtain ⟨front, digits, rfl, rfl, hdigits⟩ := h
  refine ⟨front, digits ++ [c], List.append_assoc _ _ _, List.length_append, ?_⟩
  intro x hx
  rcases List.mem_append.mp hx with hx | hx
  · exact hdigits x hx
  · rw [List.mem_singleton.mp hx]
    exact ⟨d, hc, hd⟩

/-- One digit more behind `\u`. -/
theorem holds_digit {b : Bytes} (hs : s.hexDigits.isSome = true)
    (hs' : s'.hexDigits = s.hexDigits.map (· + 1)) (hu1 : s' ≠ .u1) (hholds : s.Holds b)
    (hc : charClass c = some d) (hd : d.isHex = true) :
    s'.isString = true ∧ s' ≠ .es ∧ s'.Holds (b ++ [c]) := by
  cases s <;> first | exact absurd hs Bool.false_ne_true | skip
  all_goals cases s' <;> first | (exfalso; revert hs'; decide) | skip
  all_goals exact ⟨rfl, by decide, Escape.digit hholds hc hd⟩

theorem string_facts (hs : s.isString = true) :
    s.isComment = false ∧ s ≠ .ob ∧ s.isValue = false := by
  cases s <;> first | exact ⟨rfl, by decide, rfl⟩ | exact absurd hs Bool.false_ne_true

/-- What a step behind a character in the buffer leads to. -/
theorem moves_pushed {b : Bytes} (h : Moves s d s') (hes : s ≠ .es) (hcomment : s.isComment = false)
    (hidle : s.isIdle = false) (hc : charClass c = some d) (hholds : s.Holds b) :
    s' ≠ .es ∧ s'.isComment = false ∧ s' ≠ .ob ∧ (s'.isValue = true → s.isValue = true) ∧
      s'.Holds (b ++ [c]) ∧ ∀ t, s.admits t = true → s'.admits t = true := by
  rcases h with ⟨rfl, hs, -⟩ | ⟨hs, -⟩ | ⟨hs, hs'⟩ | ⟨hs, hs'⟩ | ⟨rfl, rfl⟩ | ⟨hs, -⟩ | ⟨hs, -⟩ |
    ⟨hs, hs', hu1, hhex⟩ | ⟨rfl, rfl, rfl⟩ | ⟨rfl, rfl, rfl⟩
  · rcases hs with hs | rfl
    · exact absurd (hidle.symm.trans hs) Bool.false_ne_true
    · exact ⟨hes, rfl, by decide, id, trivial, fun t => id⟩
  · exact absurd (hcomment.symm.trans hs) Bool.false_ne_true
  · obtain ⟨hes', hcomment', hob, hbuffer⟩ := holds_of_scalar (hs'.imp_right .inr)
    exact ⟨hes', hcomment', hob, fun _ => isValue_of_scalar (.inl hs), hbuffer _,
      fun t ht => admits_number_step ht hs hs'⟩
  · obtain ⟨hes', hcomment', hob, hbuffer⟩ := holds_of_scalar (.inr hs')
    exact ⟨hes', hcomment', hob, fun _ => isValue_of_scalar (.inr hs), hbuffer _,
      fun t ht => admits_name_step ht hs hs'⟩
  · exact ⟨by decide, rfl, by decide, id, trivial, fun t => id⟩
  · exact absurd hs hes
  · exact absurd hs hes
  · obtain ⟨hstring', hes', hbuffer⟩ := holds_digit hs hs' hu1 hholds hc hhex
    obtain ⟨hcomment', hob, hvalue⟩ := string_facts hstring'
    have hstring : s.isString = true := by
      cases s <;> first | rfl | exact absurd hs Bool.false_ne_true
    exact ⟨hes', hcomment', hob, fun hv => absurd (hvalue.symm.trans hv) Bool.false_ne_true,
      hbuffer, fun t ht => admits_string_step ht hstring hstring'⟩
  · refine ⟨by decide, rfl, by decide, id, ⟨b, ?_⟩, fun t => id⟩
    rw [charClass_only hc 0x5c rfl]
  · obtain ⟨front, rfl⟩ := hholds
    refine ⟨by decide, rfl, by decide, id, ⟨front, [], ?_, rfl, List.forall_mem_nil _⟩,
      fun t => id⟩
    rw [charClass_only hc 0x75 rfl, List.append_nil, List.append_assoc]
    rfl

theorem moves_sound (h : jc.Sound cfg) (hc : charClass c = some d) (hadd : Added cfg jc c d jc')
    (hmove : Moves jc.state d s) : ({ jc' with state := s } : Jc).Sound cfg := by
  cases hadd with
  | escaped cs room hes hcs fits eq =>
    subst eq
    rw [hes] at hmove
    have htype : jc.type = some .string := admits_string h.type (by rw [hes]; rfl)
    have hcomment : jc.comment = false := h.comment.trans (by rw [hes]; rfl)
    have hfits := fits.with_buffer (Nat.le_refl _)
    rcases moves_es hmove with rfl | ⟨rfl, rfl⟩
    · exact ⟨⟨fits.bottom, fits.stack, fits.limit, fits.buffer, fits.capacity⟩, h.opened, rfl,
        hcomment, fun hs => absurd hs Bool.false_ne_true, decide_eq_true htype, trivial,
        fun _ _ => rfl⟩
    · rw [charClass_only hc 0x75 rfl] at hcs
      cases Option.some.inj hcs
      exact ⟨⟨fits.bottom, fits.stack, fits.limit, fits.buffer, fits.capacity⟩, h.opened, rfl,
        hcomment, fun hs => absurd hs Bool.false_ne_true, decide_eq_true htype,
        ⟨jc.parseBuffer.dropLast, [], (List.append_nil _).symm, rfl, List.forall_mem_nil _⟩,
        fun _ _ => rfl⟩
  | skipped hclass eq =>
    subst eq
    by_cases hcomment : jc'.state.isComment = true
    · have hcomment' := moves_comment hmove hcomment
      have hnone := admits_idle h.type (.inr hcomment)
      have hnil := holds_idle h.holds (.inr hcomment)
      obtain ⟨hes, -, -⟩ := comment_facts hcomment
      obtain ⟨hes', hholds, hadmits⟩ := comment_facts hcomment'
      have habove := h.above
      unfold Jc.place at habove
      rw [if_pos hcomment] at habove
      refine ⟨⟨h.fits.bottom, h.fits.stack, h.fits.limit, h.fits.buffer, h.fits.capacity⟩, h.opened,
        ?_, ?_, fun _ => h.behind hcomment, ?_, ?_, ?_⟩
      · exact h.escaped.trans ((decide_eq_false hes).trans (decide_eq_false hes').symm)
      · exact (h.comment.trans hcomment).trans hcomment'.symm
      · change s.admits jc'.type = true
        rwa [hnone]
      · change s.Holds jc'.parseBuffer
        rwa [hnil]
      · unfold Jc.place
        dsimp only
        rwa [if_pos hcomment']
    · have hnone := (hclass.resolve_left hcomment).1
      have hrest := h.type
      rw [hnone] at hrest
      have hstate := (moves_rest hmove (admits_none hrest (eq_false_of_ne_true hcomment))).1
      rw [hstate]
      exact h
  | pushed hes hcomment hclass ready state buffer type calls stack =>
    obtain ⟨b, hb, hholds⟩ := ready.holds
    have hidle : jc.state.isIdle = false := by
      by_contra hidle
      have hidle' := eq_true_of_ne_false hidle
      have hblank := (moves_rest hmove (.inl hidle')).2
      rcases hclass with hnone | hnblank
      · exact hnone (admits_idle h.type (.inl hidle'))
      · exact absurd (hnblank.symm.trans hblank) Bool.false_ne_true
    rw [← state] at hmove hes hcomment hidle
    obtain ⟨hes', hcomment', hob, hvalue, hholds', hadmits⟩ :=
      moves_pushed hmove hes hcomment hidle hc hholds
    refine ready.move hes' hcomment' (hadmits _ ready.type) ?_ ?_
    · rwa [hb]
    · exact fun mode hmode => above_step hmode hvalue hob

end Moves

end Nox.Json.Parser

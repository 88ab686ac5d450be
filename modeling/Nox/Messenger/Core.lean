import Mathlib.Algebra.Order.Group.Int
import Mathlib.Order.Basic
import Nox.Lib.Bytes
import Nox.Lib.Cutting

/-!
# The core of the messengers

A connection copies what it reads to a buffer until a message is complete there, and posts
it.  How much of a block belongs to the message, and whether the message is complete, its
message processor says.  Where that does what a test on the bytes seen would, the messages
posted are the parts that the test cuts off the stream (`Cuts`).
-/

namespace Nox.Messenger

open Lib (cut)

section Definitions

def messengerBufferSize : Nat := 512

def messengerMaxMsgSize : Nat := 3072

/-- A `message_processor`, with the state it keeps for a socket.  `forget` is what the
handling of a disconnect message does to that. -/
structure MessageProcessor (σ : Type) where
  processBlock : σ → Bytes → Bytes → Int × σ
  msgComplete : σ → Bytes → Bool
  forget : σ → σ

/-- A `messenger_connection`: what is in `internalrecvbuf` in front of `endpointer`, what the
processor keeps for the socket, and what was posted, the oldest message first. -/
structure Connection (σ : Type) where
  received : Bytes
  msger : σ
  posted : List Bytes
  deriving DecidableEq

/-- What the loop can come to but its end: a copy that is not inside the block and the
buffer, or more turns than there is fuel. -/
inductive Fault
  | outside
  | endless
  deriving DecidableEq

variable {σ : Type} (P : MessageProcessor σ)

/-- How much to copy of a block. -/
def MessageProcessor.cpSize (c : Connection σ) (block : Bytes) : Int :=
  (P.processBlock c.msger block c.received).1

/-- The copy of the beginning of a block, and the message that is posted if it is complete. -/
def MessageProcessor.turn (c : Connection σ) (block : Bytes) : Connection σ :=
  let (cpSize, msger) := P.processBlock c.msger block c.received
  let received := c.received ++ block.take cpSize.toNat
  if 0 < received.length ∧ P.msgComplete msger received then
    ⟨[], msger, c.posted ++ [received]⟩
  else ⟨received, msger, c.posted⟩

/-- The copy is inside the block and the buffer. -/
def MessageProcessor.Inside (c : Connection σ) (block : Bytes) : Prop :=
  P.cpSize c block ≤ block.length ∧
    c.received.length + P.cpSize c block ≤ messengerMaxMsgSize

instance (c : Connection σ) (block : Bytes) : Decidable (P.Inside c block) :=
  inferInstanceAs (Decidable (_ ∧ _))

/-- `messenger_connection::processBlock`: the loop over a block. -/
def processBlock : Nat → Connection σ → Bytes → Except Fault (Connection σ)
  | 0, _, _ => .error .endless
  | fuel + 1, c, block =>
    if block = [] then .ok c
    else if 0 ≤ P.cpSize c block ∧ P.Inside c block then
      processBlock fuel (P.turn c block) (block.drop (P.cpSize c block).toNat)
    else .error .outside

/-- The loop ends, and every copy is inside. -/
def Ends (c : Connection σ) (block : Bytes) (c' : Connection σ) : Prop :=
  ∃ fuel, processBlock P fuel c block = .ok c'

/-- The loop ends, and every copy is positive and inside. -/
inductive Proceeds : Connection σ → Bytes → Connection σ → Prop
  | done (c : Connection σ) : Proceeds c [] c
  | turn {c c' : Connection σ} {block : Bytes} (hne : block ≠ [])
      (hpos : 0 < P.cpSize c block) (hinside : P.Inside c block)
      (hrest : Proceeds (P.turn c block) (block.drop (P.cpSize c block).toNat) c') :
      Proceeds c block c'

/-- What is read from the socket at a time, and whether a disconnect message of the socket
has been handled since the read before. -/
structure Read where
  bytes : Bytes
  forgot : Bool
  ne_nil : bytes ≠ []
  length_le : bytes.length ≤ messengerBufferSize

def stream (reads : List Read) : Bytes := reads.flatMap Read.bytes

/-- What handlers have done before a read. -/
def MessageProcessor.before (c : Connection σ) (read : Read) : Connection σ :=
  { c with msger := if read.forgot then P.forget c.msger else c.msger }

/-- A connection that reads, where `Loop` says what `processBlock` does. -/
def Receives (Loop : Connection σ → Bytes → Connection σ → Prop) :
    Connection σ → List Read → Connection σ → Prop
  | c, [], c' => c' = c
  | c, read :: reads, c' =>
    ∃ c₁, Loop (P.before c read) read.bytes c₁ ∧ Receives Loop c₁ reads c'

/-- A connection that nothing has been read from. -/
def Connection.init (msger : σ) : Connection σ := ⟨[], msger, []⟩

end Definitions

variable {σ : Type} {P : MessageProcessor σ} {c c' : Connection σ} {block : Bytes}

section Rules

/-! ## Turns of the loop -/

theorem ends_nil : Ends P c [] c' ↔ c' = c := by
  constructor
  · rintro ⟨fuel, h⟩
    cases fuel with
    | zero => cases h
    | succ fuel =>
      rw [processBlock, if_pos rfl] at h
      cases h
      rfl
  · rintro rfl
    exact ⟨1, rfl⟩

theorem ends_turn (hne : block ≠ []) (hpos : 0 ≤ P.cpSize c block) :
    Ends P c block c' ↔
      P.Inside c block ∧ Ends P (P.turn c block) (block.drop (P.cpSize c block).toNat) c' := by
  constructor
  · rintro ⟨fuel, h⟩
    cases fuel with
    | zero => cases h
    | succ fuel =>
      rw [processBlock, if_neg hne] at h
      split_ifs at h with hinside
      exact ⟨hinside.2, fuel, h⟩
  · rintro ⟨hinside, fuel, h⟩
    exact ⟨fuel + 1, by rw [processBlock, if_neg hne, if_pos ⟨hpos, hinside⟩, h]⟩

/-- A copy of nothing after which all is as before is made again and again. -/
theorem not_ends (hne : block ≠ []) (hle : P.cpSize c block ≤ 0)
    (hsame : P.cpSize c block = 0 → P.turn c block = c) : ¬ Ends P c block c' := by
  rintro ⟨fuel, h⟩
  induction fuel with
  | zero => cases h
  | succ fuel ih =>
    rw [processBlock, if_neg hne] at h
    split_ifs at h with hinside
    have hzero : P.cpSize c block = 0 := le_antisymm hle hinside.1
    rw [hsame hzero, hzero] at h
    exact ih h

theorem proceeds_nil : Proceeds P c [] c' ↔ c' = c := by
  constructor
  · intro h
    cases h with
    | done => rfl
    | turn hne => exact absurd rfl hne
  · rintro rfl
    exact .done _

theorem proceeds_turn (hne : block ≠ []) : Proceeds P c block c' ↔ 0 < P.cpSize c block ∧
    P.Inside c block ∧
      Proceeds P (P.turn c block) (block.drop (P.cpSize c block).toNat) c' := by
  constructor
  · intro h
    cases h with
    | done => exact absurd rfl hne
    | turn _ hpos hinside hrest => exact ⟨hpos, hinside, hrest⟩
  · exact fun ⟨hpos, hinside, hrest⟩ => .turn hne hpos hinside hrest

/-- What holds of a loop, whether or not copies are asked to be positive. -/
structure LoopRules (P : MessageProcessor σ)
    (Loop : Connection σ → Bytes → Connection σ → Prop) : Prop where
  nil : ∀ {c c'}, Loop c [] c' ↔ c' = c
  turn : ∀ {c c' block}, block ≠ [] → 0 < P.cpSize c block → (Loop c block c' ↔
    P.Inside c block ∧ Loop (P.turn c block) (block.drop (P.cpSize c block).toNat) c')
  stuck : ∀ {c c' block}, block ≠ [] → P.cpSize c block ≤ 0 →
    (P.cpSize c block = 0 → P.turn c block = c) → ¬ Loop c block c'

theorem ends_rules : LoopRules P (Ends P) := ⟨ends_nil, fun hne hpos => ends_turn hne hpos.le,
  not_ends⟩

theorem proceeds_rules : LoopRules P (Proceeds P) where
  nil := proceeds_nil
  turn := fun hne hpos => (proceeds_turn hne).trans (and_iff_right hpos)
  stuck := fun hne hle _ h => absurd hle (not_le.mpr ((proceeds_turn hne).mp h).1)

end Rules

section Cuts

/-! ## The messages as parts of the stream -/

variable {α : Type} {f : α → UInt8} {stops : List α → Bool}
  {Inv : σ → List α → List α → Prop} {cur xs : List α}

/-- The processor copies and posts what the test would cut off.  The invariant relates its
state, what has been seen of the message, and what is left of the block. -/
def Cuts (P : MessageProcessor σ) (f : α → UInt8) (stops : List α → Bool)
    (Inv : σ → List α → List α → Prop) : Prop :=
  ∀ s cur xs, Inv s cur xs → xs ≠ [] → ∃ n s', 0 < n ∧ n ≤ xs.length ∧
    P.processBlock s (xs.map f) (cur.map f) = ((n : Int), s') ∧
    (∀ i, 0 < i → i < n → stops (cur ++ xs.take i) = false) ∧
    P.msgComplete s' ((cur ++ xs.take n).map f) = stops (cur ++ xs.take n) ∧
    Inv s' (if stops (cur ++ xs.take n) then [] else cur ++ xs.take n) (xs.drop n)

/-- A turn takes in what comes next of the block, and posts it with what has been seen if the
test accepts that. -/
theorem Cuts.turn (h : Cuts P f stops Inv) (hinv : Inv c.msger cur xs)
    (hreceived : c.received = cur.map f) (hne : xs ≠ []) : ∃ n s', 0 < n ∧ n ≤ xs.length ∧
      P.cpSize c (xs.map f) = n ∧
      P.turn c (xs.map f) = (if stops (cur ++ xs.take n) then
        ⟨[], s', c.posted ++ [(cur ++ xs.take n).map f]⟩
        else ⟨(cur ++ xs.take n).map f, s', c.posted⟩) ∧
      (∀ i, 0 < i → i < n → stops (cur ++ xs.take i) = false) ∧
      Inv s' (if stops (cur ++ xs.take n) then [] else cur ++ xs.take n) (xs.drop n) := by
  obtain ⟨n, s', hpos, hle, hprocess, hearlier, hcomplete, hinv⟩ := h _ _ _ hinv hne
  rw [← hreceived] at hprocess
  have hbytes : c.received ++ (xs.map f).take n = (cur ++ xs.take n).map f := by
    rw [hreceived, List.map_append, List.map_take]
  have hlength : 0 < ((cur ++ xs.take n).map f).length := by
    rw [List.length_map, List.length_append, List.length_take]
    omega
  refine ⟨n, s', hpos, hle, congrArg Prod.fst hprocess, ?_, hearlier, hinv⟩
  unfold MessageProcessor.turn
  rw [hprocess]
  dsimp only
  rw [Int.toNat_natCast, hbytes, hcomplete]
  exact if_congr (and_iff_right hlength) rfl rfl

/-- The messages of a block that is processed are the parts cut off it, and they fit. -/
theorem Cuts.of_ends (h : Cuts P f stops Inv) (hinv : Inv c.msger cur xs)
    (hreceived : c.received = cur.map f) (hends : Ends P c (xs.map f) c') :
    Inv c'.msger (cut stops cur xs).2 [] ∧ c'.received = (cut stops cur xs).2.map f ∧
      c'.posted = c.posted ++ (cut stops cur xs).1.map (List.map f) ∧
      ∀ part ∈ (cut stops cur xs).1, part.length ≤ messengerMaxMsgSize := by
  induction hlength : xs.length using Nat.strong_induction_on generalizing c cur xs with
  | _ length ih =>
    by_cases hne : xs = []
    · subst hne
      cases ends_nil.mp hends
      rw [cut]
      exact ⟨hinv, hreceived, (List.append_nil _).symm, fun _ hpart => absurd hpart List.not_mem_nil⟩
    · obtain ⟨n, s', hpos, hle, hcpSize, hturn, hearlier, hinv⟩ := h.turn hinv hreceived hne
      have hmap : xs.map f ≠ [] := fun hnil => hne (List.map_eq_nil_iff.mp hnil)
      have hdrop : (xs.drop n).length < length := by
        rw [List.length_drop, hlength]
        omega
      obtain ⟨⟨-, hinside⟩, hrest⟩ :=
        (ends_turn hmap (hcpSize ▸ Int.natCast_nonneg n)).mp hends
      rw [hcpSize, hreceived, List.length_map] at hinside
      rw [hcpSize, hturn, Int.toNat_natCast, ← List.map_drop] at hrest
      rw [Lib.cut_step hpos hle hearlier]
      split_ifs at hrest hinv ⊢ with hstops
      · obtain ⟨hinv', hreceived', hposted, hparts⟩ := ih _ hdrop hinv rfl hrest rfl
        refine ⟨hinv', hreceived', ?_, fun part hpart => ?_⟩
        · rw [hposted, List.map_cons, List.append_assoc, List.singleton_append]
        · rcases List.mem_cons.mp hpart with rfl | hpart
          · rw [List.length_append, List.length_take_of_le hle]
            omega
          · exact hparts part hpart
      · exact ih _ hdrop (c := ⟨(cur ++ xs.take n).map f, s', c.posted⟩) hinv rfl hrest rfl

/-- A block is processed if what is cut off it fits, and what is left. -/
theorem Cuts.ends (h : Cuts P f stops Inv) (hinv : Inv c.msger cur xs)
    (hreceived : c.received = cur.map f)
    (hparts : ∀ part ∈ (cut stops cur xs).1, part.length ≤ messengerMaxMsgSize)
    (hleft : (cut stops cur xs).2.length ≤ messengerMaxMsgSize) :
    ∃ c', Ends P c (xs.map f) c' := by
  induction hlength : xs.length using Nat.strong_induction_on generalizing c cur xs with
  | _ length ih =>
    by_cases hne : xs = []
    · subst hne
      exact ⟨c, ends_nil.mpr rfl⟩
    · obtain ⟨n, s', hpos, hle, hcpSize, hturn, hearlier, hinv⟩ := h.turn hinv hreceived hne
      have hmap : xs.map f ≠ [] := fun hnil => hne (List.map_eq_nil_iff.mp hnil)
      have hdrop : (xs.drop n).length < length := by
        rw [List.length_drop, hlength]
        omega
      have hfits : (cur ++ xs.take n).length ≤ messengerMaxMsgSize := by
        rw [Lib.cut_step hpos hle hearlier] at hparts hleft
        split_ifs at hparts hleft with hstops
        · exact hparts _ List.mem_cons_self
        · exact Lib.length_le_of_cut hparts hleft
      have hinside : P.Inside c (xs.map f) := by
        rw [List.length_append, List.length_take_of_le hle] at hfits
        rw [MessageProcessor.Inside, hcpSize, hreceived, List.length_map, List.length_map]
        omega
      rw [Lib.cut_step hpos hle hearlier] at hparts hleft
      have hrest : ∃ c', Ends P (P.turn c (xs.map f)) ((xs.drop n).map f) c' := by
        rw [hturn]
        split_ifs at hinv hparts hleft ⊢ with hstops
        · exact ih _ hdrop hinv rfl
            (fun part hpart => hparts part (List.mem_cons_of_mem _ hpart)) hleft rfl
        · exact ih _ hdrop hinv rfl hparts hleft rfl
      obtain ⟨c', hrest⟩ := hrest
      refine ⟨c', (ends_turn hmap (hcpSize ▸ Int.natCast_nonneg n)).mpr ⟨hinside, ?_⟩⟩
      rwa [hcpSize, Int.toNat_natCast, ← List.map_drop]

/-! ## Reads -/

/-- The reads carry the items of the stream, and the invariant is the same after what the
handlers have done before a read. -/
structure CutsReads (P : MessageProcessor σ) (f : α → UInt8) (stops : List α → Bool)
    (items : Read → List α) (Inv : List α → σ → List α → List α → Prop) : Prop where
  cuts : ∀ later, Cuts P f stops (Inv later)
  bytes : ∀ read, (items read).map f = read.bytes
  before : ∀ {c : Connection σ} {cur read reads},
    Inv ((read :: reads).flatMap items) c.msger cur [] →
      Inv (reads.flatMap items) (P.before c read).msger cur (items read)

variable {items : Read → List α} {InvReads : List α → σ → List α → List α → Prop}
  {reads : List Read}

/-- However the stream came in, the messages are the parts cut off it. -/
theorem CutsReads.of_receives (h : CutsReads P f stops items InvReads)
    (hinv : InvReads (reads.flatMap items) c.msger cur []) (hreceived : c.received = cur.map f)
    (hreceives : Receives P (Ends P) c reads c') :
    c'.posted = c.posted ++ (cut stops cur (reads.flatMap items)).1.map (List.map f) ∧
      c'.received = (cut stops cur (reads.flatMap items)).2.map f ∧
      ∀ part ∈ (cut stops cur (reads.flatMap items)).1, part.length ≤ messengerMaxMsgSize := by
  induction reads generalizing c cur with
  | nil =>
    cases hreceives
    exact ⟨(List.append_nil _).symm, hreceived, fun _ hpart => (nomatch hpart)⟩
  | cons read reads ih =>
    obtain ⟨c₁, hends, hreceives⟩ := hreceives
    rw [← h.bytes] at hends
    obtain ⟨hinv₁, hreceived₁, hposted₁, hparts₁⟩ :=
      (h.cuts _).of_ends (c := P.before c read) (h.before hinv) hreceived hends
    obtain ⟨hposted, hreceived', hparts⟩ := ih hinv₁ hreceived₁ hreceives
    rw [List.flatMap_cons, Lib.cut_append]
    refine ⟨?_, hreceived', fun part hpart => ?_⟩
    · rw [hposted, hposted₁, List.map_append, List.append_assoc]
      rfl
    · exact (List.mem_append.mp hpart).elim (hparts₁ part) (hparts part)

/-- The stream is received if the parts cut off it fit, and what is left. -/
theorem CutsReads.receives (h : CutsReads P f stops items InvReads)
    (hinv : InvReads (reads.flatMap items) c.msger cur []) (hreceived : c.received = cur.map f)
    (hparts : ∀ part ∈ (cut stops cur (reads.flatMap items)).1,
      part.length ≤ messengerMaxMsgSize)
    (hleft : (cut stops cur (reads.flatMap items)).2.length ≤ messengerMaxMsgSize) :
    ∃ c', Receives P (Ends P) c reads c' := by
  induction reads generalizing c cur with
  | nil => exact ⟨c, rfl⟩
  | cons read reads ih =>
    rw [List.flatMap_cons, Lib.cut_append] at hparts hleft
    have hparts' := fun part hpart => hparts part (List.mem_append_right _ hpart)
    obtain ⟨c₁, hends⟩ := (h.cuts _).ends (c := P.before c read) (h.before hinv) hreceived
      (fun part hpart => hparts part (List.mem_append_left _ hpart))
      (Lib.length_le_of_cut hparts' hleft)
    obtain ⟨hinv₁, hreceived₁, -⟩ :=
      (h.cuts _).of_ends (c := P.before c read) (h.before hinv) hreceived hends
    obtain ⟨c', hreceives⟩ := ih hinv₁ hreceived₁ hparts' hleft
    rw [h.bytes] at hends
    exact ⟨c', c₁, hends, hreceives⟩

end Cuts

end Nox.Messenger

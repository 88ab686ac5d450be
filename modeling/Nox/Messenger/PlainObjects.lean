import Nox.Messenger.JsonMessenger

/-!
# Objects that are delivered

Without braces and brackets in strings, the counters are those of the text's own structure, and
they are balanced at the end of the object only.
-/

namespace Nox.Messenger

open Lib.JsonGrammar
open Lib (Part)

section Levels

/-! ## What a text does to the counters -/

variable {S : Bytes → Prop} {kind : Kind} {s t : Bytes}

/-- Behind it the counters are as before it, no beginning of it closes a brace that it did not
open, and what follows it is counted. -/
structure Keeps (t : Bytes) : Prop where
  counters : ∀ st, st.2 ≠ backslash → (t.foldl look st).1 = st.1
  last : ∀ st, st.2 ≠ backslash → (t.foldl look st).2 ≠ backslash
  braces_le : ∀ st i, st.2 ≠ backslash → st.1.braces ≤ ((t.take i).foldl look st).1.braces

theorem Keeps.append (hs : Keeps s) (ht : Keeps t) : Keeps (s ++ t) where
  counters st hst := by
    rw [List.foldl_append, ht.counters _ (hs.last st hst), hs.counters st hst]
  last st hst := by
    rw [List.foldl_append]
    exact ht.last _ (hs.last st hst)
  braces_le st i hst := by
    rw [List.take_append, List.foldl_append]
    rcases Nat.lt_or_ge i s.length with hlt | hge
    · rw [Nat.sub_eq_zero_of_le hlt.le, List.take_zero]
      exact hs.braces_le st i hst
    · rw [List.take_of_length_le hge]
      have hbraces := ht.braces_le (s.foldl look st) (i - s.length) (hs.last st hst)
      rwa [hs.counters st hst] at hbraces

theorem see_of_not_bracket {b : UInt8} (h : isBracket b = false) (k : Counters) (prev : UInt8) :
    k.see prev b = k := by
  unfold isBracket at h
  rw [Bool.or_eq_false_iff, Bool.or_eq_false_iff, Bool.or_eq_false_iff, decide_eq_false_iff_not,
    decide_eq_false_iff_not, decide_eq_false_iff_not, decide_eq_false_iff_not] at h
  unfold Counters.see
  rw [if_neg h.1.2, if_neg h.2, if_neg h.1.1.1, if_neg h.1.1.2, ite_self]

theorem foldl_of_no_brackets (h : ∀ b ∈ t, isBracket b = false) (st : Counters × UInt8) :
    (t.foldl look st).1 = st.1 := by
  induction t generalizing st with
  | nil => rfl
  | cons b t ih =>
    rw [List.foldl_cons, ih fun b hb => h b (List.mem_cons_of_mem _ hb)]
    exact see_of_not_bracket (h b List.mem_cons_self) _ _

theorem foldl_snd (t : Bytes) (st : Counters × UInt8) :
    (t.foldl look st).2 = t.getLastD st.2 := by
  induction t generalizing st with
  | nil => rfl
  | cons b t ih => rw [List.foldl_cons, ih, List.getLastD_cons]; rfl

/-- Bytes that are not braces or brackets are not counted. -/
theorem keeps_of_no_brackets (h : ∀ b ∈ t, isBracket b = false)
    (hlast : ∀ prev, prev ≠ backslash → t.getLastD prev ≠ backslash) : Keeps t where
  counters st _ := foldl_of_no_brackets h st
  last st hst := by
    rw [foldl_snd]
    exact hlast _ hst
  braces_le st i _ := by
    rw [foldl_of_no_brackets fun b hb => h b (List.mem_of_mem_take hb)]

theorem keeps_of_forall {q : UInt8 → Bool} (ht : ∀ b ∈ t, q b = true)
    (hq : ∀ b, q b = true → isBracket b = false ∧ b ≠ backslash) : Keeps t := by
  refine keeps_of_no_brackets (fun b hb => (hq b (ht b hb)).1) fun prev hprev => ?_
  induction t using List.reverseRecOn with
  | nil => exact hprev
  | append_singleton t b _ =>
    rw [List.getLastD_concat]
    exact (hq b (ht b (List.mem_append_right t List.mem_cons_self))).2

theorem keeps_singleton {b : UInt8} (h : isBracket b = false) (hb : b ≠ backslash) :
    Keeps [b] :=
  keeps_of_no_brackets (fun _ hb => List.mem_singleton.mp hb ▸ h) fun _ _ => hb

theorem isSpace_plain {b : UInt8} (h : isSpace b = true) : isBracket b = false ∧ b ≠ backslash := by
  simp only [isSpace, Bool.or_eq_true, decide_eq_true_iff] at h
  rcases h with ((rfl | rfl) | rfl) | rfl <;> decide

theorem isWordByte_plain {b : UInt8} (h : isWordByte b = true) :
    isBracket b = false ∧ b ≠ backslash := by
  constructor
  · by_contra hbracket
    have hbracket := Bool.eq_true_of_not_eq_false hbracket
    simp only [isBracket, Bool.or_eq_true, decide_eq_true_iff] at hbracket
    rcases hbracket with ((rfl | rfl) | rfl) | rfl <;> cases h
  · rintro rfl
    cases h

theorem keeps_spaces (h : Spaces t) : Keeps t := keeps_of_forall h fun _ => isSpace_plain

/-- A string without braces and brackets is not counted, and ends with its quote. -/
theorem keeps_quoted (h : ∀ b ∈ s, isBracket b = false) : Keeps (quoted s) := by
  refine keeps_of_no_brackets (fun b hb => ?_) fun prev _ => ?_
  · rcases List.mem_cons.mp hb with rfl | hb
    · rfl
    · rcases List.mem_append.mp hb with hb | hb
      · exact h b hb
      · rw [List.mem_singleton.mp hb]
        rfl
  · rw [quoted, ← List.cons_append, List.getLastD_concat]
    decide

/-- What opens and closes is counted up and down around a text. -/
theorem keeps_enclosed {l r : UInt8} (up : Counters → Counters)
    (hopen : ∀ k prev, prev ≠ backslash → k.see prev l = up k)
    (hclose : ∀ k prev, prev ≠ backslash → (up k).see prev r = k)
    (hup : ∀ k, k.braces ≤ (up k).braces) (hl : l ≠ backslash) (hr : r ≠ backslash)
    (h : Keeps t) : Keeps (l :: (t ++ [r])) := by
  have hlook : ∀ st : Counters × UInt8, st.2 ≠ backslash → look st l = (up st.1, l) :=
    fun st hst => Prod.ext (hopen st.1 st.2 hst) rfl
  have hcounters : ∀ st : Counters × UInt8, st.2 ≠ backslash →
      ((l :: (t ++ [r])).foldl look st).1 = st.1 := by
    intro st hst
    rw [List.foldl_cons, List.foldl_append, hlook st hst]
    have hinner : (t.foldl look (up st.1, l)).1 = up st.1 := h.counters (up st.1, l) hl
    change (t.foldl look (up st.1, l)).1.see (t.foldl look (up st.1, l)).2 r = st.1
    rw [hinner]
    exact hclose st.1 _ (h.last (up st.1, l) hl)
  refine ⟨hcounters, fun st _ => ?_, fun st i hst => ?_⟩
  · rw [foldl_snd, ← List.cons_append, List.getLastD_concat]
    exact hr
  · cases i with
    | zero => exact le_rfl
    | succ i =>
      rcases Nat.lt_or_ge t.length i with hlt | hle
      · rw [List.take_of_length_le, hcounters st hst]
        rw [List.length_cons, List.length_append, List.length_singleton]
        omega
      · rw [List.take_succ_cons, List.foldl_cons, List.take_append_of_le_length hle, hlook st hst]
        exact (hup st.1).trans (h.braces_le (up st.1, l) i hl)

/-- A bracket is counted up. -/
def Counters.enterArray (k : Counters) : Counters := { k with brackets := k.brackets + 1 }

/-- A brace is counted up. -/
def Counters.enterObject (k : Counters) : Counters := { k with braces := k.braces + 1 }

theorem keeps_brackets (h : Keeps t) : Keeps (leftBracket :: (t ++ [rightBracket])) := by
  refine keeps_enclosed Counters.enterArray ?_ ?_ (fun k => le_rfl) (by decide)
    (by decide) h
  · exact fun k prev hprev => by rw [Counters.see, if_neg hprev]; rfl
  · exact fun k prev hprev => by rw [Counters.see, if_neg hprev]; rfl

theorem see_leftBrace (k : Counters) {prev : UInt8} (h : prev ≠ backslash) :
    k.see prev leftBrace = k.enterObject := by
  rw [Counters.see, if_neg h]
  rfl

theorem keeps_braces (h : Keeps t) : Keeps (leftBrace :: (t ++ [rightBrace])) := by
  refine keeps_enclosed Counters.enterObject (fun k _ => see_leftBrace k) ?_
    (fun k => Nat.le_succ k.braces) (by decide) (by decide) h
  exact fun k prev hprev => by rw [Counters.see, if_neg hprev]; rfl

theorem keeps_text (h : Text S kind t)
    (hS : ∀ s, S s → ∀ b ∈ s, isBracket b = false) : Keeps t := by
  induction h with
  | word _ hw => exact keeps_of_forall hw fun _ => isWordByte_plain
  | string hs => exact keeps_quoted (hS _ hs)
  | emptyArray hs => exact keeps_brackets (keeps_spaces hs)
  | array _ ih => exact keeps_brackets ih
  | ofObject _ ih => exact ih
  | spaced hs _ hs' ih => exact (keeps_spaces hs).append (ih.append (keeps_spaces hs'))
  | element _ ih => exact ih
  | elements _ _ ih ihs =>
    exact ih.append ((keeps_singleton (b := comma) rfl (by decide)).append ihs)
  | emptyObject hs => exact keeps_braces (keeps_spaces hs)
  | object _ ih => exact keeps_braces ih
  | entry hs hk hs' _ ih =>
    exact (keeps_spaces hs).append ((keeps_quoted (hS _ hk)).append
      ((keeps_spaces hs').append ((keeps_singleton (b := colon) rfl (by decide)).append ih)))
  | member _ ih => exact ih
  | members _ _ ih ihs =>
    exact ih.append ((keeps_singleton (b := comma) rfl (by decide)).append ihs)

/-- Inside an object a brace is open. -/
theorem balanced_take_object (h : IsPlainObject t) {i : Nat} (hi : 0 < i) (hlt : i < t.length) :
    ((t.take i).foldl look (.reset, 0)).1.balanced = false := by
  obtain ⟨inner, rfl, hinner⟩ :
      ∃ inner, t = leftBrace :: (inner ++ [rightBrace]) ∧ Keeps inner := by
    cases h with
    | emptyObject hs => exact ⟨_, rfl, keeps_spaces hs⟩
    | object ht => exact ⟨_, rfl, keeps_text ht fun s hs => hs.2⟩
  cases i with
  | zero => exact absurd hi (lt_irrefl 0)
  | succ i =>
    rw [List.length_cons, List.length_append, List.length_singleton] at hlt
    rw [List.take_succ_cons, List.foldl_cons, List.take_append_of_le_length (by omega)]
    have hbraces := hinner.braces_le (look (.reset, 0) leftBrace) i (show leftBrace ≠ backslash by
      decide)
    rw [Counters.balanced, Bool.and_eq_false_iff, decide_eq_false_iff_not,
      decide_eq_false_iff_not]
    exact .inr (Nat.pos_iff_ne_zero.mp (Nat.lt_of_lt_of_le Nat.one_pos hbraces))

theorem balanced_object (h : IsPlainObject t) :
    (t.foldl look (.reset, 0)).1.balanced = true := by
  rw [(keeps_text h fun s hs => hs.2).counters (.reset, 0) (by decide)]
  rfl

end Levels

section Delivery

/-! ## However they are read -/

variable {objs : List (ObjectText × Gap)} {reads : List Read}

theorem seen_of_remembered {part : List Item} (h : ∀ x ∈ part, x.forgot = false) :
    seen part = (part.map Item.byte).foldl look (.reset, 0) := by
  induction part using List.reverseRecOn with
  | nil => rfl
  | append_singleton part x ih =>
    rw [List.forall_mem_append] at h
    rw [seen_concat, ih h.1, List.map_append, List.foldl_append, Item.look,
      h.2 x List.mem_cons_self]
    rfl

theorem forgot_itemsOf {bs : Bytes} : ∀ x ∈ itemsOf false bs, x.forgot = false := by
  induction bs with
  | nil => exact fun _ hx => (nomatch hx)
  | cons b bs ih =>
    intro x hx
    rcases List.mem_cons.mp hx with rfl | hx
    · rfl
    · exact ih x hx

/-- The counters tell the end of a plain object of at least four bytes, wherever reads end. -/
theorem part_of_plain {part : List Item} (hremembered : ∀ x ∈ part, x.forgot = false)
    (hplain : IsPlainObject (part.map Item.byte)) (hlength : 4 ≤ part.length) :
    Part stops part where
  ne_nil := List.ne_nil_of_length_pos (by omega)
  accepted := by
    rw [stops, seen_of_remembered hremembered, balanced_object hplain, decide_eq_true hlength]
    rfl
  shortest := by
    intro i hi hlt
    have hearlier := balanced_take_object hplain hi (by rwa [List.length_map])
    rw [stops, seen_of_remembered fun x hx => hremembered x (List.mem_of_mem_take hx),
      List.map_take, hearlier, Bool.and_false]

theorem exists_parts {ts : List Bytes} {xs : List Item} (h : xs.map Item.byte = ts.flatten) :
    ∃ parts : List (List Item), xs = parts.flatten ∧ parts.map (List.map Item.byte) = ts := by
  induction ts generalizing xs with
  | nil => exact ⟨[], List.map_eq_nil_iff.mp h, rfl⟩
  | cons t ts ih =>
    obtain ⟨part, rest, rfl, hpart, hrest⟩ := List.map_eq_append_iff.mp h
    obtain ⟨parts, rfl, hparts⟩ := ih hrest
    exact ⟨part :: parts, rfl, by rw [List.map_cons, hpart, hparts]⟩

/-- Objects of at least four bytes, without braces and brackets in strings and with nothing
between them, are delivered however they are read, as long as no counters are forgotten. -/
theorem delivers_plain (hplain : ∀ o ∈ objs, IsPlainObject o.1.text)
    (hlength : ∀ o ∈ objs, 4 ≤ o.1.text.length ∧ o.1.text.length ≤ messengerMaxMsgSize)
    (hforgot : ∀ read ∈ reads, read.forgot = false)
    (h : stream reads = (texts objs).flatten) : Delivers reads objs := by
  have hremembered : ∀ x ∈ reads.flatMap items, x.forgot = false := by
    intro x hx
    obtain ⟨read, hread, hx⟩ := List.mem_flatMap.mp hx
    rw [items, hforgot read hread] at hx
    exact forgot_itemsOf x hx
  obtain ⟨parts, hitems, hparts⟩ := exists_parts ((map_items reads).trans h)
  refine delivers_of_located ⟨parts, [], by rw [hitems, List.append_nil], hparts,
    Nat.zero_le 1, fun part hpart => ?_⟩
  have htext : part.map Item.byte ∈ texts objs := hparts ▸ List.mem_map_of_mem hpart
  obtain ⟨o, ho, heq⟩ := List.mem_map.mp htext
  obtain ⟨hfour, hmax⟩ := hlength o ho
  have hplain := hplain o ho
  rw [heq] at hplain hfour hmax
  rw [List.length_map] at hfour hmax
  refine ⟨hmax, part_of_plain (fun x hx => hremembered x ?_) hplain hfour⟩
  exact hitems ▸ List.mem_flatten_of_mem hpart hx

end Delivery

end Nox.Messenger

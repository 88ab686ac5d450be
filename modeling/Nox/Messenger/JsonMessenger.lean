import Mathlib.Data.List.Induction
import Mathlib.Tactic.IntervalCases
import Nox.Lib.JsonGrammar
import Nox.Messenger.Core

/-!
# JSON messages

The `jsonmessenger` processor counts braces and brackets to find the end of an object.  It
knows of a string only that a backslash stands before a byte, and looks at the counters at the
end of a read and from the fourth byte of a message on.
-/

namespace Nox.Messenger

open Lib.JsonGrammar
open Lib (Part Uncut cut)

section Definitions

/-- The brackets and braces that are open. -/
structure Counters where
  brackets : Nat
  braces : Nat
  deriving DecidableEq, Repr

def Counters.reset : Counters := ⟨0, 0⟩

def Counters.balanced (k : Counters) : Bool := k.brackets = 0 && k.braces = 0

/-- What a byte does to the counters, which do not go below zero. -/
def Counters.see (k : Counters) (prev b : UInt8) : Counters :=
  if prev = backslash then k
  else if b = leftBracket then { k with brackets := k.brackets + 1 }
  else if b = rightBracket then { k with brackets := k.brackets - 1 }
  else if b = leftBrace then { k with braces := k.braces + 1 }
  else if b = rightBrace then { k with braces := k.braces - 1 }
  else k

/-- The loop over a block, where `size` bytes have been received before its first one. -/
def scan (k : Counters) (prev : UInt8) (size : Nat) : Bytes → Nat × Counters
  | [] => (0, k)
  | b :: bs =>
    let k := k.see prev b
    if 2 < size && k.balanced then (1, k)
    else
      let rest := scan k b (size + 1) bs
      (rest.1 + 1, rest.2)

/-- The `jsonmessenger` processor, with the entry of `sock_counters` for the socket. -/
def jsonmessenger : MessageProcessor (Option Counters) where
  processBlock s block data :=
    let scanned := scan (s.getD .reset) (data.getLastD 0) data.length block
    (scanned.1, some scanned.2)
  msgComplete s data := 1 < data.length && (s.getD .reset).balanced
  forget _ := none

/-- A byte that was read, whether it is the last one of its read, and whether the counters had
been forgotten before it. -/
structure Item where
  byte : UInt8
  last : Bool
  forgot : Bool
  deriving DecidableEq

def itemsOf : Bool → Bytes → List Item
  | _, [] => []
  | forgot, b :: bs => ⟨b, bs.isEmpty, forgot⟩ :: itemsOf false bs

def items (read : Read) : List Item := itemsOf read.forgot read.bytes

/-- The counters and the byte before, after a byte. -/
def look (st : Counters × UInt8) (b : UInt8) : Counters × UInt8 := (st.1.see st.2 b, b)

def Item.look (st : Counters × UInt8) (x : Item) : Counters × UInt8 :=
  Messenger.look (if x.forgot then (.reset, st.2) else st) x.byte

/-- The counters and the last byte after the beginning of a message. -/
def seen (cur : List Item) : Counters × UInt8 := cur.foldl Item.look (.reset, 0)

/-- The counters are balanced where they are looked at. -/
def stops (cur : List Item) : Bool :=
  (4 ≤ cur.length || 2 ≤ cur.length && cur.getLast?.any Item.last) && (seen cur).1.balanced

/-- The text of a JSON object. -/
structure ObjectText where
  text : Bytes
  isObject : IsObject text

/-- White space around objects. -/
structure Gap where
  bytes : Bytes
  spaces : Spaces bytes

/-- Objects with white space before, between and behind them. -/
def sent : Gap → List (ObjectText × Gap) → Bytes
  | first, [] => first.bytes
  | first, (o, gap) :: rest => first.bytes ++ (o.text ++ sent gap rest)

def texts (objs : List (ObjectText × Gap)) : List Bytes := objs.map fun o => o.1.text

/-- The messages that are posted are the objects. -/
def Delivers (reads : List Read) (objs : List (ObjectText × Gap)) : Prop :=
  ∃ c, Receives jsonmessenger (Ends jsonmessenger) (.init none) reads c ∧ c.posted = texts objs

/-- The objects are read one behind the other with nothing between them, and at most one byte
behind the last.  Each fits in the buffer, and its end is where the counters, reset at its
beginning, are first balanced at a place where they are looked at. -/
def Located (reads : List Read) (objs : List (ObjectText × Gap)) : Prop :=
  ∃ (parts : List (List Item)) (left : List Item), reads.flatMap items = parts.flatten ++ left ∧
    parts.map (List.map Item.byte) = texts objs ∧ left.length ≤ 1 ∧
    ∀ part ∈ parts, part.length ≤ messengerMaxMsgSize ∧ Part stops part

end Definitions

section Scan

/-! ## The loop stops where the counters are balanced -/

theorem map_itemsOf (forgot : Bool) (bs : Bytes) : (itemsOf forgot bs).map Item.byte = bs := by
  induction bs generalizing forgot with
  | nil => rfl
  | cons b bs ih => rw [itemsOf, List.map_cons, ih]

theorem itemsOf_eq_nil {forgot : Bool} {bs : Bytes} : itemsOf forgot bs = [] ↔ bs = [] := by
  cases bs with
  | nil => exact iff_of_true rfl rfl
  | cons b bs => exact iff_of_false (List.cons_ne_nil _ _) (List.cons_ne_nil _ _)

theorem itemsOf_drop {n : Nat} (hn : 0 < n) (forgot : Bool) (bs : Bytes) :
    (itemsOf forgot bs).drop n = itemsOf false (bs.drop n) := by
  induction bs generalizing forgot n with
  | nil => rw [itemsOf, List.drop_nil, List.drop_nil, itemsOf]
  | cons b bs ih =>
    cases n with
    | zero => exact absurd hn (lt_irrefl 0)
    | succ n =>
      rw [itemsOf, List.drop_succ_cons, List.drop_succ_cons]
      cases n with
      | zero => rfl
      | succ n => exact ih (Nat.succ_pos n) false

theorem seen_concat (cur : List Item) (x : Item) : seen (cur ++ [x]) = x.look (seen cur) := by
  rw [seen, List.foldl_append]
  rfl

theorem seen_snd (cur : List Item) : (seen cur).2 = (cur.map Item.byte).getLastD 0 := by
  induction cur using List.reverseRecOn with
  | nil => rfl
  | append_singleton cur x _ =>
    rw [seen_concat, List.map_append, List.map_singleton, List.getLastD_concat]
    rfl

theorem stops_concat (cur : List Item) (x : Item) : stops (cur ++ [x]) =
    ((4 ≤ cur.length + 1 || 2 ≤ cur.length + 1 && x.last) && (x.look (seen cur)).1.balanced) := by
  rw [stops, seen_concat, List.length_append, List.length_singleton, List.getLast?_concat]
  rfl

/-- What a scan has done: it ends with the block or where the counters are balanced, and has
not passed such a place. -/
structure Scanned (cur xs : List Item) (n : Nat) (k : Counters) : Prop where
  pos : 0 < n
  le : n ≤ xs.length
  counters : k = (seen (cur ++ xs.take n)).1
  earlier : ∀ i, 0 < i → i < n → stops (cur ++ xs.take i) = false
  balanced : stops (cur ++ xs.take n) = (1 < cur.length + n && k.balanced)

/-- A scan that ends with its first byte. -/
theorem scanned_one {cur xs : List Item} {x : Item} {k : Counters} {b : UInt8}
    (hlook : x.look (seen cur) = (k, b))
    (hstops : stops (cur ++ [x]) = (1 < cur.length + 1 && k.balanced)) :
    Scanned cur (x :: xs) 1 k where
  pos := Nat.one_pos
  le := Nat.le_add_left 1 xs.length
  counters := by rw [List.take_succ_cons, List.take_zero, seen_concat, hlook]
  earlier := fun i hi hlt => absurd hi (by omega)
  balanced := hstops

/-- A scan that goes on behind its first byte. -/
theorem Scanned.cons {cur xs : List Item} {x : Item} {n : Nat} {k : Counters}
    (h : Scanned (cur ++ [x]) xs n k) (hfirst : stops (cur ++ [x]) = false) :
    Scanned cur (x :: xs) (n + 1) k where
  pos := Nat.succ_pos n
  le := Nat.succ_le_succ h.le
  counters := by
    rw [List.take_succ_cons, List.append_cons]
    exact h.counters
  earlier := by
    intro i hi hlt
    cases i with
    | zero => exact absurd hi (lt_irrefl 0)
    | succ i =>
      rw [List.take_succ_cons, List.append_cons]
      rcases Nat.eq_zero_or_pos i with rfl | hi
      · rw [List.take_zero, List.append_nil, hfirst]
      · exact h.earlier i hi (Nat.lt_of_succ_lt_succ hlt)
  balanced := by
    rw [List.take_succ_cons, List.append_cons, h.balanced, List.length_append,
      List.length_singleton, Nat.add_right_comm, Nat.add_assoc]

theorem scanned_scan {forgot : Bool} {bs : Bytes} (hne : bs ≠ []) {cur : List Item}
    {k : Counters} (hk : k = if forgot then .reset else (seen cur).1) :
    Scanned cur (itemsOf forgot bs) (scan k (seen cur).2 cur.length bs).1
      (scan k (seen cur).2 cur.length bs).2 := by
  induction bs generalizing forgot cur k with
  | nil => exact absurd rfl hne
  | cons b bs ih =>
    have hlook : ∀ last, Item.look (seen cur) ⟨b, last, forgot⟩ = (k.see (seen cur).2 b, b) := by
      intro last
      rw [hk]
      cases forgot <;> rfl
    rw [itemsOf, scan]
    by_cases hbs : bs = []
    · subst hbs
      have hstops : stops (cur ++ [⟨b, true, forgot⟩]) =
          (1 < cur.length + 1 && (k.see (seen cur).2 b).balanced) := by
        rw [stops_concat, hlook, Bool.and_true, ← Bool.decide_or]
        congr 1
        exact decide_eq_decide.mpr (by omega)
      have hscan : (if (2 < cur.length && (k.see (seen cur).2 b).balanced) = true
          then (1, k.see (seen cur).2 b) else (0 + 1, k.see (seen cur).2 b)) =
            (1, k.see (seen cur).2 b) := ite_self _
      dsimp only [scan]
      rw [hscan]
      exact scanned_one (hlook true) hstops
    · have hlast : bs.isEmpty = false := by rwa [List.isEmpty_eq_false_iff]
      rw [hlast]
      have hfirst : stops (cur ++ [⟨b, false, forgot⟩]) =
          (2 < cur.length && (k.see (seen cur).2 b).balanced) := by
        rw [stops_concat, hlook, Bool.and_false, Bool.or_false]
        congr 1
        exact decide_eq_decide.mpr (by omega)
      dsimp only
      split_ifs with hstop
      · refine scanned_one (hlook false) ?_
        rw [hfirst, hstop]
        rw [Bool.and_eq_true, decide_eq_true_iff] at hstop
        rw [hstop.2, Bool.and_true]
        exact (decide_eq_true (by omega)).symm
      · have hlooked : k.see (seen cur).2 b =
            if (false : Bool) then .reset else (seen (cur ++ [⟨b, false, forgot⟩])).1 := by
          rw [seen_concat, hlook]
          rfl
        have hnext := ih hbs hlooked
        rw [seen_concat, hlook, List.length_append, List.length_singleton] at hnext
        exact hnext.cons (hfirst.trans (Bool.eq_false_iff.mpr hstop))

end Scan

section Delivery

/-! ## What is delivered -/

/-- The processor has counted what has been seen, unless that is to be forgotten. -/
def Counted (_ : List Item) (s : Option Counters) (cur xs : List Item) : Prop :=
  (∃ forgot bs, xs = itemsOf forgot bs) ∧
    s.getD .reset = if xs.head?.any Item.forgot then .reset else (seen cur).1

theorem balanced_iff {k : Counters} : k.balanced = true ↔ k = .reset := by
  rw [Counters.balanced, Bool.and_eq_true, decide_eq_true_iff, decide_eq_true_iff]
  exact Counters.mk.injEq .. ▸ Iff.rfl

theorem head?_itemsOf {forgot : Bool} {bs : Bytes} (hne : bs ≠ []) :
    (itemsOf forgot bs).head?.any Item.forgot = forgot := by
  cases bs with
  | nil => exact absurd rfl hne
  | cons b bs => rfl

theorem head?_itemsOf_false (bs : Bytes) : (itemsOf false bs).head?.any Item.forgot = false := by
  cases bs with
  | nil => rfl
  | cons b bs => rfl

theorem cuts_stops (later : List Item) : Cuts jsonmessenger Item.byte stops (Counted later) := by
  rintro s cur xs ⟨⟨forgot, bs, rfl⟩, hcounted⟩ hne
  have hbs : bs ≠ [] := fun hnil => hne (itemsOf_eq_nil.mpr hnil)
  rw [head?_itemsOf hbs] at hcounted
  have hscanned := scanned_scan hbs hcounted
  rw [seen_snd] at hscanned
  generalize hscan : scan (s.getD .reset) ((cur.map Item.byte).getLastD 0) cur.length bs =
    scanned at hscanned
  obtain ⟨hpos, hle, hcounters, hearlier, hbalanced⟩ := hscanned
  refine ⟨scanned.1, some scanned.2, hpos, hle, ?_, hearlier, ?_, ⟨false, _,
    itemsOf_drop hpos forgot bs⟩, ?_⟩
  · dsimp only [jsonmessenger]
    rw [map_itemsOf, List.length_map, hscan]
  · rw [hbalanced]
    dsimp only [jsonmessenger]
    rw [List.length_map, List.length_append, List.length_take_of_le hle, Option.getD_some]
  · rw [itemsOf_drop hpos, head?_itemsOf_false, if_neg Bool.false_ne_true, Option.getD_some,
      hcounters]
    split_ifs with hstops
    · rw [hbalanced, Bool.and_eq_true, balanced_iff, hcounters] at hstops
      exact hstops.2
    · rfl

theorem cutsReads_stops : CutsReads jsonmessenger Item.byte stops items Counted where
  cuts := cuts_stops
  bytes read := map_itemsOf _ _
  before := by
    rintro c cur read reads ⟨-, hcounted⟩
    refine ⟨⟨read.forgot, read.bytes, rfl⟩, ?_⟩
    rw [items, head?_itemsOf read.ne_nil]
    unfold MessageProcessor.before
    cases read.forgot with
    | false => exact hcounted
    | true => rfl

theorem counted_init (later : List Item) : Counted later none [] [] := ⟨⟨false, [], rfl⟩, rfl⟩

/-- The items of reads carry the stream. -/
theorem map_items (reads : List Read) :
    (reads.flatMap items).map Item.byte = stream reads := by
  rw [List.map_flatMap, stream]
  exact List.flatMap_congr fun read _ => map_itemsOf _ _

/-- The last item of the reads is the last one of its read. -/
theorem last_itemsOf {forgot : Bool} {bs : Bytes} {x : Item}
    (h : (itemsOf forgot bs).getLast? = some x) : x.last = true := by
  induction bs generalizing forgot with
  | nil => cases h
  | cons b bs ih =>
    rw [itemsOf] at h
    by_cases hbs : bs = []
    · subst hbs
      cases h
      rfl
    · have hne : itemsOf false bs ≠ [] := fun hnil => hbs (itemsOf_eq_nil.mp hnil)
      rw [List.getLast?_cons_of_ne_nil hne] at h
      exact ih h

theorem last_items {reads : List Read} {x : Item} (h : (reads.flatMap items).getLast? = some x) :
    x.last = true := by
  induction reads with
  | nil => cases h
  | cons read reads ih =>
    rw [List.flatMap_cons, List.getLast?_append] at h
    cases hrest : (reads.flatMap items).getLast? with
    | none =>
      rw [hrest, Option.none_or] at h
      exact last_itemsOf h
    | some y =>
      rw [hrest, Option.some_or] at h
      cases h
      exact ih hrest

/-- White space does not open or close anything. -/
theorem see_space {b : UInt8} (h : isSpace b = true) (k : Counters) (prev : UInt8) :
    k.see prev b = k := by
  have hbracket : b ≠ leftBracket ∧ b ≠ rightBracket ∧ b ≠ leftBrace ∧ b ≠ rightBrace := by
    refine ⟨?_, ?_, ?_, ?_⟩ <;> (rintro rfl; cases h)
  unfold Counters.see
  rw [if_neg hbracket.1, if_neg hbracket.2.1, if_neg hbracket.2.2.1, if_neg hbracket.2.2.2,
    ite_self]

theorem seen_spaces {xs : List Item} (h : Spaces (xs.map Item.byte)) :
    (seen xs).1 = .reset := by
  induction xs using List.reverseRecOn with
  | nil => rfl
  | append_singleton xs x ih =>
    rw [List.map_append, Spaces, List.forall_mem_append] at h
    have hx : isSpace x.byte = true := h.2 _ List.mem_cons_self
    rw [seen_concat, Item.look, look]
    dsimp only
    rw [see_space hx]
    split_ifs
    · rfl
    · exact ih h.1

/-- What is left when the objects have been taken from what was sent is white space. -/
theorem spaces_of_sent {first : Gap} {objs : List (ObjectText × Gap)} {rest : Bytes}
    (h : (texts objs).flatten ++ rest = sent first objs) : Spaces rest := by
  induction objs generalizing first with
  | nil =>
    cases h
    exact first.spaces
  | cons o objs ih =>
    obtain ⟨o, gap⟩ := o
    obtain ⟨inner, hbraces⟩ := o.isObject.braces
    rw [texts, List.map_cons, List.flatten_cons, List.append_assoc, sent] at h
    have hfirst : first.bytes = [] := by
      cases hbytes : first.bytes with
      | nil => rfl
      | cons b bs =>
        dsimp only at h
        rw [hbytes, hbraces, List.cons_append, List.cons_append] at h
        have hspace := first.spaces b (hbytes ▸ List.mem_cons_self)
        rw [← (List.cons.inj h).1] at hspace
        cases hspace
    rw [hfirst, List.nil_append] at h
    exact ih (List.append_cancel_left h)

/-- Of white space at the end of the stream no more than a byte is left. -/
theorem length_le_of_uncut {reads : List Read} {pre left : List Item}
    (hitems : reads.flatMap items = pre ++ left) (hspaces : Spaces (left.map Item.byte))
    (huncut : Uncut stops left) : left.length ≤ 1 := by
  by_contra hlt
  have hstops := huncut left.length (by omega) le_rfl
  rw [List.take_length, stops, seen_spaces hspaces] at hstops
  have hne : left ≠ [] := List.ne_nil_of_length_pos (by omega)
  have hlast : left.getLast?.any Item.last = true := by
    rw [List.getLast?_eq_some_getLast hne]
    have hend : (reads.flatMap items).getLast? = some (left.getLast hne) := by
      rw [hitems, List.getLast?_append_of_ne_nil _ hne, List.getLast?_eq_some_getLast hne]
    exact last_items hend
  rw [hlast, decide_eq_true (show 2 ≤ left.length by omega)] at hstops
  rw [Bool.and_true, Bool.or_true] at hstops
  cases hstops

theorem uncut_of_length_le {left : List Item} (h : left.length ≤ 1) : Uncut stops left := by
  intro i hi hle
  have hlength : (left.take i).length ≤ 1 := (List.length_take_le' i left).trans h
  rw [stops, decide_eq_false (by omega), decide_eq_false (by omega)]
  rfl

theorem located_of_delivers {first : Gap} {objs : List (ObjectText × Gap)} {reads : List Read}
    (h : stream reads = sent first objs) (hdelivers : Delivers reads objs) :
    Located reads objs := by
  obtain ⟨c, hreceives, hposted⟩ := hdelivers
  obtain ⟨hparts, -, hfits⟩ := cutsReads_stops.of_receives (counted_init _) rfl hreceives
  have hnone : Uncut stops [] := Lib.uncut_nil
  obtain ⟨hitems, hpart, huncut⟩ := Lib.cut_spec (reads.flatMap items) hnone
  rw [List.nil_append] at hitems
  generalize cut stops [] (reads.flatMap items) = cutting at *
  have htexts : cutting.1.map (List.map Item.byte) = texts objs := hparts.symm.trans hposted
  have hspaces : Spaces (cutting.2.map Item.byte) := by
    have hsent : (texts objs).flatten ++ cutting.2.map Item.byte = sent first objs := by
      rw [← h, ← map_items, hitems, List.map_append, List.map_flatten, htexts]
    exact spaces_of_sent hsent
  exact ⟨cutting.1, cutting.2, hitems, htexts, length_le_of_uncut hitems hspaces huncut,
    fun part hmem => ⟨hfits part hmem, hpart part hmem⟩⟩

theorem delivers_of_located {objs : List (ObjectText × Gap)} {reads : List Read}
    (h : Located reads objs) : Delivers reads objs := by
  obtain ⟨parts, left, hitems, htexts, hleft, hparts⟩ := h
  have hcut : cut stops [] (reads.flatMap items) = (parts, left) :=
    Lib.cut_eq_iff.mpr ⟨hitems, fun part hmem => (hparts part hmem).2, uncut_of_length_le hleft⟩
  have hfits : ∀ part ∈ (cut stops [] (reads.flatMap items)).1,
      part.length ≤ messengerMaxMsgSize := by
    rw [hcut]
    exact fun part hmem => (hparts part hmem).1
  have hrest : (cut stops [] (reads.flatMap items)).2.length ≤ messengerMaxMsgSize := by
    rw [hcut]
    exact hleft.trans (by decide)
  obtain ⟨c, hreceives⟩ := cutsReads_stops.receives (c := .init none)
    (counted_init _) rfl hfits hrest
  obtain ⟨hposted, -, -⟩ := cutsReads_stops.of_receives (counted_init _) rfl hreceives
  rw [hcut] at hposted
  exact ⟨c, hreceives, hposted.trans htexts⟩

/-- The messages are the objects just when the reads show where each of these ends. -/
theorem delivers_iff (first : Gap) (objs : List (ObjectText × Gap)) (reads : List Read)
    (h : stream reads = sent first objs) : Delivers reads objs ↔ Located reads objs :=
  ⟨located_of_delivers h, delivers_of_located⟩

/-- The object `\x7b"a":1\x7d`. -/
def plainText : ObjectText where
  text := [0x7b, 0x22, 0x61, 0x22, 0x3a, 0x31, 0x7d]
  isObject :=
    have ha : Content [0x61] := .plain (by decide) (by decide) (by decide) .nil
    have hone : ∀ b ∈ [(0x31 : UInt8)], isWordByte b = true := List.forall_mem_singleton.mpr rfl
    have hvalue : Text Content .value [0x31] := .word (List.cons_ne_nil _ _) hone
    have hnone : Spaces [] := by nofun
    have hentry := Text.entry hnone ha hnone (Text.spaced hnone hvalue hnone)
    .object (.member hentry)

def noGap : Gap := ⟨[], by nofun⟩

def splitReads : List Read :=
  [⟨[0x7b, 0x22], false, by decide, by decide⟩,
    ⟨[0x61, 0x22, 0x3a, 0x31, 0x7d], false, by decide, by decide⟩]

/-- It is delivered when it comes in two reads. -/
theorem delivers_iff_split : Delivers splitReads [(plainText, noGap)] := by
  refine (delivers_iff noGap _ _ rfl).mpr
    ⟨[splitReads.flatMap items], [], rfl, rfl, by decide, fun part hmem => ?_⟩
  cases List.mem_singleton.mp hmem
  refine ⟨by decide, by decide, rfl, fun i hi hlt => ?_⟩
  rw [show (splitReads.flatMap items).length = 7 from rfl] at hlt
  interval_cases i <;> rfl

/-- The object `\x7b"a":"\x7d"\x7d`, with a brace in a string. -/
def bracedText : ObjectText where
  text := [0x7b, 0x22, 0x61, 0x22, 0x3a, 0x22, 0x7d, 0x22, 0x7d]
  isObject :=
    have ha : Content [0x61] := .plain (by decide) (by decide) (by decide) .nil
    have hbrace : Content [0x7d] := .plain (by decide) (by decide) (by decide) .nil
    have hnone : Spaces [] := by nofun
    have hentry := Text.entry hnone ha hnone (Text.spaced hnone (Text.string hbrace) hnone)
    .object (.member hentry)

/-- The brace in the string is taken for the end of the object. -/
theorem brace_in_string_ends :
    stream [⟨bracedText.text, false, by decide, by decide⟩] = sent noGap [(bracedText, noGap)] ∧
    ¬ Delivers [⟨bracedText.text, false, by decide, by decide⟩] [(bracedText, noGap)] := by
  refine ⟨rfl, ?_⟩
  rintro ⟨c, hreceives, hposted⟩
  obtain ⟨hparts, -, -⟩ := cutsReads_stops.of_receives (counted_init _) rfl hreceives
  rw [hposted] at hparts
  exact absurd hparts (by decide)

end Delivery

end Nox.Messenger

import Mathlib.Algebra.BigOperators.Group.List.Basic
import Nox.Lib.Bytes

/-!
# Stores through a pointer

A writer stores bytes at offsets from a pointer.  It fills a piece of memory when it
stores nothing outside it and leaves no byte of it as it was, padding excepted
(`Fills`): then, and only then, what it leaves does not depend on what the memory was
before (`fills_iff_determines`).  Writers that each fill as much as they announce fill the
sum of it, one behind the other (`fills_packLoop`).
-/

namespace Nox.Stores

section Stores

/-! ## Stores -/

/-- Bytes that are stored from an offset on. -/
structure Store where
  off : Int
  bytes : Bytes
  deriving DecidableEq, Repr

/-- The offset behind the bytes. -/
def Store.stop (s : Store) : Int := s.off + s.bytes.length

def Store.Hits (s : Store) (i : Int) : Prop := s.off ≤ i ∧ i < s.stop

instance (s : Store) (i : Int) : Decidable (s.Hits i) :=
  inferInstanceAs (Decidable (_ ∧ _))

def Store.shift (d : Int) (s : Store) : Store := { s with off := s.off + d }

/-- The stores through a pointer that stands `d` bytes further on. -/
def shift (d : Int) (ss : List Store) : List Store := ss.map (·.shift d)

theorem Store.shift_stop (d : Int) (s : Store) : (s.shift d).stop = s.stop + d := by
  simp only [stop, shift]
  omega

theorem Store.shift_hits {d i : Int} {s : Store} : (s.shift d).Hits i ↔ s.Hits (i - d) := by
  unfold Hits
  rw [shift_stop]
  simp only [shift]
  omega

theorem mem_shift {d : Int} {s : Store} {ss : List Store} (h : s ∈ shift d ss) :
    ∃ s' ∈ ss, s = s'.shift d := by
  obtain ⟨s', hs', rfl⟩ := List.mem_map.mp h
  exact ⟨s', hs', rfl⟩

theorem shift_mem {d : Int} {s : Store} {ss : List Store} (h : s ∈ ss) :
    s.shift d ∈ shift d ss := List.mem_map_of_mem h

/-- A loop that packs elements and advances the pointer by what each call returns. -/
def packLoop {α : Type*} (pack : α → List Store × Int) : Int → List α → List Store
  | _, [] => []
  | ptr, a :: as => shift ptr (pack a).1 ++ packLoop pack (ptr + (pack a).2) as

end Stores

section Fills

/-! ## Filling memory -/

/-- The stores stay within `n` bytes and reach all of them but for padding. -/
structure Fills (pad : Int → Prop) (n : Int) (ss : List Store) : Prop where
  nonneg : 0 ≤ n
  within : ∀ s ∈ ss, 0 ≤ s.off ∧ s.stop ≤ n
  covers : ∀ i, 0 ≤ i → i < n → ¬pad i → ∃ s ∈ ss, s.Hits i

/-- There is no padding that is not stored. -/
def noPad : Int → Prop := fun _ => False

variable {pad pad' : Int → Prop} {n m : Int} {ss ts : List Store}

theorem fills_nil : Fills noPad 0 [] := by
  refine ⟨Int.le_refl 0, fun _ h => (nomatch h), fun i hi hlt => ?_⟩
  exact absurd hi (Int.not_le.mpr hlt)

/-- Only which stores there are matters, not their order. -/
theorem Fills.perm (h : Fills pad n ss) (hperm : ss.Perm ts) : Fills pad n ts := by
  refine ⟨h.nonneg, fun s hs => h.within s (hperm.mem_iff.mpr hs), fun i hi hlt hnot => ?_⟩
  obtain ⟨s, hs, hit⟩ := h.covers i hi hlt hnot
  exact ⟨s, hperm.mem_iff.mp hs, hit⟩

theorem Fills.mono (h : Fills pad n ss) (hpad : ∀ i, pad i → pad' i) : Fills pad' n ss :=
  ⟨h.nonneg, h.within, fun i hi hlt hnot => h.covers i hi hlt fun hp => hnot (hpad i hp)⟩

/-- The padding of two pieces of memory, one of `n` bytes and one behind it. -/
def padBoth (n : Int) (pad pad' : Int → Prop) (i : Int) : Prop :=
  i < n ∧ pad i ∨ n ≤ i ∧ pad' (i - n)

/-- What fills a piece of memory, and what fills the piece behind it. -/
theorem Fills.append (h : Fills pad n ss) (h' : Fills pad' m ts) :
    Fills (padBoth n pad pad') (n + m) (ss ++ shift n ts) := by
  have hn := h.nonneg
  have hm := h'.nonneg
  refine ⟨by omega, fun s hs => ?_, fun i hi hlt hnot => ?_⟩
  · rcases List.mem_append.mp hs with hs | hs
    · have hw := h.within s hs
      omega
    · obtain ⟨t, ht, rfl⟩ := mem_shift hs
      have hw := h'.within t ht
      rw [Store.shift_stop]
      simp only [Store.shift]
      omega
  · by_cases hin : i < n
    · obtain ⟨s, hs, hit⟩ := h.covers i hi hin fun hp => hnot (.inl ⟨hin, hp⟩)
      exact ⟨s, List.mem_append_left _ hs, hit⟩
    · obtain ⟨t, ht, hit⟩ := h'.covers (i - n) (by omega) (by omega) fun hp =>
        hnot (.inr ⟨by omega, hp⟩)
      exact ⟨t.shift n, List.mem_append_right _ (shift_mem ht), Store.shift_hits.mpr hit⟩

theorem padBoth_noPad {n i : Int} (h : padBoth n noPad noPad i) : noPad i :=
  h.elim (·.2) (·.2)

/-- Without padding in either piece there is none in both. -/
theorem Fills.append_full (h : Fills noPad n ss) (h' : Fills noPad m ts) :
    Fills noPad (n + m) (ss ++ shift n ts) :=
  (h.append h').mono fun _ => padBoth_noPad

/-! ### Stores of known extent -/

/-- Where a store begins, and how many bytes it has. -/
def Store.extent (s : Store) : Int × Nat := (s.off, s.bytes.length)

/-- The extents stay within `n` bytes and leave none out. -/
def tiles (n : Nat) (es : List (Int × Nat)) : Bool :=
  es.all (fun e => decide (0 ≤ e.1 ∧ e.1 + e.2 ≤ n)) &&
    (List.range n).all fun i => es.any fun e => decide (e.1 ≤ i ∧ (i : Int) < e.1 + e.2)

theorem fills_of_tiles {k : Nat} (h : tiles k (ss.map (·.extent)) = true) : Fills noPad k ss := by
  simp only [tiles, Bool.and_eq_true, List.all_eq_true, List.any_eq_true, List.mem_range,
    List.forall_mem_map, decide_eq_true_eq] at h
  obtain ⟨hin, hall⟩ := h
  refine ⟨Int.natCast_nonneg k, hin, fun i hi hlt _ => ?_⟩
  obtain ⟨e, he, hit⟩ := hall i.toNat (by omega)
  obtain ⟨s, hs, rfl⟩ := List.mem_map.mp he
  rw [Int.toNat_of_nonneg hi] at hit
  exact ⟨s, hs, hit⟩

end Fills

section Contents

/-! ## What is left in memory -/

/-- The bytes behind a pointer after a store. -/
def Store.write (s : Store) (mem : Int → UInt8) (i : Int) : UInt8 :=
  if s.Hits i then s.bytes.getD (i - s.off).toNat 0 else mem i

/-- The bytes after all stores, one after the other. -/
def run (ss : List Store) (mem : Int → UInt8) : Int → UInt8 :=
  ss.foldl (fun mem s => s.write mem) mem

/-- Padding excepted, what is left in `n` bytes of memory does not depend on what they were
before. -/
def Determines (pad : Int → Prop) (n : Int) (ss : List Store) : Prop :=
  ∀ mem mem' i, 0 ≤ i → i < n → ¬pad i → run ss mem i = run ss mem' i

variable {pad : Int → Prop} {n i : Int} {ss : List Store} {mem mem' : Int → UInt8}

theorem Store.write_congr (s : Store) (h : mem i = mem' i) : s.write mem i = s.write mem' i := by
  unfold write
  rw [h]

theorem Store.write_of_hit {s : Store} (h : s.Hits i) : s.write mem i = s.write mem' i := by
  unfold write
  rw [if_pos h, if_pos h]

theorem run_congr (h : mem i = mem' i) : run ss mem i = run ss mem' i := by
  induction ss generalizing mem mem' with
  | nil => exact h
  | cons s ss ih => exact ih (s.write_congr h)

/-- A byte that no store reaches is left as it was. -/
theorem run_of_not_hit (h : ∀ s ∈ ss, ¬s.Hits i) : run ss mem i = mem i := by
  induction ss generalizing mem with
  | nil => rfl
  | cons s ss ih =>
    rw [List.forall_mem_cons] at h
    exact (ih h.2).trans (if_neg h.1)

/-- A byte that a store reaches is the same whatever it was. -/
theorem run_of_hit (h : ∃ s ∈ ss, s.Hits i) : run ss mem i = run ss mem' i := by
  induction ss generalizing mem mem' with
  | nil => simp at h
  | cons s ss ih =>
    rw [List.exists_mem_cons_iff] at h
    show run ss (s.write mem) i = run ss (s.write mem') i
    rcases h with hit | h
    · exact run_congr (Store.write_of_hit hit)
    · exact ih h

/-- To fill memory is to stay within it and to determine what is left there. -/
theorem fills_iff_determines :
    Fills pad n ss ↔ 0 ≤ n ∧ (∀ s ∈ ss, 0 ≤ s.off ∧ s.stop ≤ n) ∧ Determines pad n ss := by
  constructor
  · intro h
    exact ⟨h.nonneg, h.within, fun mem mem' i hi hlt hnot => run_of_hit (h.covers i hi hlt hnot)⟩
  · rintro ⟨hn, hwithin, hdet⟩
    refine ⟨hn, hwithin, fun i hi hlt hnot => ?_⟩
    by_contra hmiss
    have hmiss : ∀ s ∈ ss, ¬s.Hits i := fun s hs hit => hmiss ⟨s, hs, hit⟩
    have heq := hdet (fun _ => 0) (fun _ => 1) i hi hlt hnot
    rw [run_of_not_hit hmiss, run_of_not_hit hmiss] at heq
    exact absurd heq (by decide)

theorem run_append (ss ts : List Store) (mem : Int → UInt8) :
    run (ss ++ ts) mem = run ts (run ss mem) := List.foldl_append

/-- Through a pointer that is further on the same is stored there. -/
theorem run_shift (d : Int) (ss : List Store) (mem : Int → UInt8) (i : Int) :
    run (shift d ss) mem i = run ss (fun j => mem (j + d)) (i - d) := by
  induction ss generalizing mem with
  | nil => exact congrArg mem (Int.sub_add_cancel i d).symm
  | cons s ss ih =>
    refine (ih _).trans (congrArg (fun mem => run ss mem (i - d)) ?_)
    funext j
    have hhits : (s.shift d).Hits (j + d) ↔ s.Hits j := by
      rw [Store.shift_hits, Int.add_sub_cancel]
    by_cases hit : s.Hits j
    · refine (if_pos (hhits.mpr hit)).trans (Eq.trans ?_ (if_pos hit).symm)
      exact congrArg (fun k : Int => s.bytes.getD k.toNat 0) (by simp only [Store.shift]; omega)
    · exact (if_neg fun hd => hit (hhits.mp hd)).trans (if_neg hit).symm

/-- What is stored last is left. -/
theorem run_of_last {s : Store} {ss ts : List Store} (hit : s.Hits i)
    (h : ∀ t ∈ ts, ¬t.Hits i) : run (ss ++ s :: ts) mem i = s.bytes.getD (i - s.off).toNat 0 := by
  rw [run_append]
  have hafter : run (s :: ts) (run ss mem) i = s.write (run ss mem) i := run_of_not_hit h
  exact hafter.trans (if_pos hit)

end Contents

section Windows

/-! ## Windows -/

/-- So many bytes from an offset on. -/
def window (mem : Int → UInt8) (p : Int) (n : Nat) : Bytes :=
  (List.range n).map fun i : Nat => mem (p + i)

variable {mem mem' : Int → UInt8} {p : Int} {n : Nat}

@[simp] theorem window_length (mem : Int → UInt8) (p : Int) (n : Nat) :
    (window mem p n).length = n := by
  rw [window, List.length_map, List.length_range]

theorem window_add (mem : Int → UInt8) (p : Int) (m n : Nat) :
    window mem p (m + n) = window mem p m ++ window mem (p + m) n := by
  rw [window, List.range_add, List.map_append, List.map_map]
  refine congrArg _ (List.map_congr_left fun i _ => ?_)
  simp only [Function.comp_apply, Nat.cast_add, Int.add_assoc]

theorem window_congr (h : ∀ i, p ≤ i → i < p + n → mem i = mem' i) :
    window mem p n = window mem' p n := by
  refine List.map_congr_left fun i hi => h _ (by omega) ?_
  have hlt := List.mem_range.mp hi
  omega

/-- Windows that are the same show the same bytes. -/
theorem window_inj {i : Int} (h : window mem p n = window mem' p n) (hp : p ≤ i) (hi : i < p + n) :
    mem i = mem' i := by
  have hat := List.map_inj_left.mp h (i - p).toNat (List.mem_range.mpr (by omega))
  rwa [Int.toNat_of_nonneg (by omega), add_sub_cancel] at hat

/-- The window that the last store through it fills. -/
theorem window_of_last {s : Store} {ss ts : List Store} (hp : p = s.off)
    (hn : n = s.bytes.length) (h : ∀ t ∈ ts, ∀ i, s.Hits i → ¬t.Hits i) :
    window (run (ss ++ s :: ts) mem) p n = s.bytes := by
  refine List.ext_getElem (by rw [window_length, hn]) fun i hi hi' => ?_
  have hit : s.Hits (p + i) := by
    unfold Store.Hits Store.stop
    omega
  simp only [window, List.getElem_map, List.getElem_range]
  rw [run_of_last hit fun t ht => h t ht _ hit, hp]
  have hindex : (s.off + i - s.off).toNat = i := by omega
  rw [hindex, List.getD_eq_getElem?_getD, List.getElem?_eq_getElem hi', Option.getD_some]

theorem window_of_only {s : Store} (hp : p = s.off) (hn : n = s.bytes.length) :
    window (run [s] mem) p n = s.bytes := by
  change window (run ([] ++ [s]) mem) p n = s.bytes
  exact window_of_last hp hn fun _ ht => (nomatch ht)

theorem window_shift (d : Int) (ss : List Store) (mem : Int → UInt8) (n : Nat) :
    window (run (shift d ss) mem) d n = window (run ss fun j => mem (j + d)) 0 n := by
  refine List.map_congr_left fun i _ => ?_
  rw [run_shift, Int.add_comm d, Int.add_sub_cancel, Int.zero_add]

/-! ### Stores in a row -/

/-- Stores of which each begins where the one before it ends. -/
def row (p : Int) : List Bytes → List Store
  | [] => []
  | b :: bs => ⟨p, b⟩ :: row (p + b.length) bs

theorem row_off {s : Store} {bss : List Bytes} (h : s ∈ row p bss) : p ≤ s.off := by
  induction bss generalizing p with
  | nil => cases h
  | cons b bss ih =>
    obtain rfl | h := List.mem_cons.mp h
    · exact Int.le_refl _
    · have hle := ih h
      omega

theorem row_hits {s : Store} {bss : List Bytes} {i : Int} (hs : s ∈ row p bss) (hit : s.Hits i) :
    p ≤ i ∧ i < p + bss.flatten.length := by
  induction bss generalizing p with
  | nil => cases hs
  | cons b bss ih =>
    rw [List.flatten_cons, List.length_append]
    obtain rfl | hs := List.mem_cons.mp hs
    · unfold Store.Hits Store.stop at hit
      dsimp only at hit
      omega
    · have hrest := ih hs
      omega

/-- What they leave is one behind the other. -/
theorem window_row (mem : Int → UInt8) (p : Int) (bss : List Bytes) :
    window (run (row p bss) mem) p bss.flatten.length = bss.flatten := by
  induction bss generalizing p mem with
  | nil => rfl
  | cons b bss ih =>
    rw [List.flatten_cons, List.length_append, window_add]
    have hfirst : window (run (row p (b :: bss)) mem) p b.length = b := by
      change window (run ([] ++ ⟨p, b⟩ :: row (p + b.length) bss) mem) p b.length = b
      refine window_of_last rfl rfl fun t ht i hit hit' => ?_
      have hle := row_off ht
      unfold Store.Hits Store.stop at hit hit'
      dsimp only at hit
      omega
    rw [hfirst]
    exact congrArg (b ++ ·) (ih _ _)

/-! ### Stores apart -/

/-- No byte is reached by both. -/
def Apart (ss ts : List Store) : Prop := ∀ s ∈ ss, ∀ t ∈ ts, ∀ i, s.Hits i → ¬t.Hits i

/-- Stores up to an offset and stores from there on. -/
theorem Apart.of_le {ss ts : List Store} (hss : ∀ s ∈ ss, ∀ i, s.Hits i → i < p)
    (hts : ∀ t ∈ ts, ∀ i, t.Hits i → p ≤ i) : Apart ss ts := by
  intro s hs t ht i hit hit'
  have hlt := hss s hs i hit
  have hle := hts t ht i hit'
  omega

/-- Among stores that are apart from each other, what some of them left stays. -/
theorem run_of_apart {ts : List Store} {pre post : List (List Store)} {i : Int}
    (h : (pre ++ ts :: post).Pairwise Apart) (hit : ∃ t ∈ ts, t.Hits i) :
    run (pre ++ ts :: post).flatten mem i = run ts (run pre.flatten mem) i := by
  obtain ⟨t, ht, hit⟩ := hit
  rw [List.flatten_append, List.flatten_cons, run_append, run_append]
  refine run_of_not_hit fun t' ht' => ?_
  obtain ⟨ts', hts', ht'⟩ := List.mem_flatten.mp ht'
  have hapart := (List.pairwise_cons.mp (List.pairwise_append.mp h).2.1).1
  exact hapart ts' hts' t ht t' ht' i hit

end Windows

section Loop

/-! ## Loops -/

variable {α : Type*} {pack : α → List Store × Int} {len : α → Int}

theorem shift_shift (d e : Int) (ss : List Store) : shift d (shift e ss) = shift (d + e) ss := by
  simp only [shift, List.map_map]
  refine List.map_congr_left fun s _ => ?_
  simp only [Function.comp_apply, Store.shift, Int.add_assoc, Int.add_comm d e]

theorem shift_append (d : Int) (ss ts : List Store) :
    shift d (ss ++ ts) = shift d ss ++ shift d ts := List.map_append

theorem shift_zero (ss : List Store) : shift 0 ss = ss := by
  simp only [shift, Store.shift, Int.add_zero, List.map_id']

/-- A loop stores the same wherever it starts. -/
theorem packLoop_eq_shift (ptr : Int) (as : List α) :
    packLoop pack ptr as = shift ptr (packLoop pack 0 as) := by
  induction as generalizing ptr with
  | nil => rfl
  | cons a as ih =>
    rw [packLoop, packLoop, ih (ptr + (pack a).2), ih (0 + (pack a).2), shift_zero, shift_append,
      shift_shift, Int.zero_add]

/-- A writer that fills, and returns, as much as it announces. -/
structure Exact (n : Int) (p : List Store × Int) : Prop where
  returned : p.2 = n
  fills : Fills noPad n p.1

/-- A loop over writers that keep to what they announce keeps to the sum. -/
theorem fills_packLoop {as : List α} (h : ∀ a ∈ as, Exact (len a) (pack a)) :
    Fills noPad (as.map len).sum (packLoop pack 0 as) := by
  induction as with
  | nil => exact fills_nil
  | cons a as ih =>
    have hhead := h a List.mem_cons_self
    have htail := ih fun b hb => h b (List.mem_cons_of_mem a hb)
    rw [packLoop, packLoop_eq_shift, shift_zero, Int.zero_add, hhead.returned, List.map_cons,
      List.sum_cons]
    exact hhead.fills.append_full htail

end Loop

end Nox.Stores

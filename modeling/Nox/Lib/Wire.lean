import Nox.Lib.Records
import Nox.Lib.Stores

/-!
# Records that are written and read again

A writer leaves bytes in memory, whatever was there (`Leaves`); a reader takes them off the memory
in front of it, whatever is behind (`Takes`).  Both go on from one record to a list of records:
writers in a row leave one record behind the other (`leaves_packLoop`), and these are counted and
read one by one (`unpackAll_wires`).
-/

namespace Nox.Stores

section Writing

/-! ## Writing -/

/-- The stores leave these bytes, and reach no others. -/
structure Leaves (ss : List Store) (bs : Bytes) : Prop where
  within : ∀ s ∈ ss, 0 ≤ s.off ∧ s.stop ≤ bs.length
  left : ∀ mem, window (run ss mem) 0 bs.length = bs

variable {ss ts : List Store} {bs cs : Bytes}

theorem leaves_nil : Leaves [] [] := ⟨List.forall_mem_nil _, fun _ => rfl⟩

/-- What fills memory leaves the same wherever it is, so one memory tells what. -/
theorem leaves_of_fills {n : Int} (h : Fills noPad n ss) (hn : n = bs.length)
    (hbs : window (run ss fun _ => 0) 0 bs.length = bs) : Leaves ss bs := by
  subst hn
  refine ⟨h.within, fun mem => Eq.trans (window_congr fun i hi hlt => ?_) hbs⟩
  exact run_of_hit (h.covers i hi (by omega) id)

theorem row_within {s : Store} {p : Int} {bss : List Bytes} (hs : s ∈ row p bss) :
    p ≤ s.off ∧ s.stop ≤ p + bss.flatten.length := by
  refine ⟨row_off hs, ?_⟩
  induction bss generalizing p with
  | nil => cases hs
  | cons b bss ih =>
    rw [List.flatten_cons, List.length_append]
    obtain rfl | hs := List.mem_cons.mp hs
    · unfold Store.stop
      dsimp only
      omega
    · have hrest := ih hs
      omega

theorem leaves_row (bss : List Bytes) : Leaves (row 0 bss) bss.flatten := by
  refine ⟨fun s hs => ?_, fun mem => window_row mem 0 bss⟩
  have hin := row_within hs
  omega

theorem shift_row (d p : Int) (bss : List Bytes) : shift d (row p bss) = row (d + p) bss := by
  induction bss generalizing p with
  | nil => rfl
  | cons b bss ih =>
    have hrest := ih (p + b.length)
    rw [← Int.add_assoc] at hrest
    rw [row, row, ← hrest, Int.add_comm d]
    rfl

theorem Leaves.below (h : Leaves ss bs) {s : Store} (hs : s ∈ ss) {i : Int} (hit : s.Hits i) :
    0 ≤ i ∧ i < bs.length := by
  have hin := h.within s hs
  unfold Store.Hits at hit
  omega

theorem shift_within (h : Leaves ss bs) (n : Nat) {s : Store} (hs : s ∈ shift n ss) :
    (n : Int) ≤ s.off ∧ s.stop ≤ n + bs.length := by
  obtain ⟨t, ht, rfl⟩ := mem_shift hs
  have hin := h.within t ht
  rw [Store.shift_stop]
  simp only [Store.shift]
  omega

/-- One writer, and one through a pointer behind what it leaves. -/
theorem Leaves.append (h : Leaves ss bs) (h' : Leaves ts cs) :
    Leaves (ss ++ shift bs.length ts) (bs ++ cs) := by
  have hbehind {s : Store} (hs : s ∈ shift bs.length ts) := shift_within h' bs.length hs
  refine ⟨fun s hs => ?_, fun mem => ?_⟩
  · rw [List.length_append]
    rcases List.mem_append.mp hs with hs | hs
    · have hin := h.within s hs
      omega
    · have hin := hbehind hs
      omega
  · rw [List.length_append, window_add, run_append]
    refine congrArg₂ _ (Eq.trans (window_congr fun i _ hlt => ?_) (h.left mem)) ?_
    · refine run_of_not_hit fun s hs hit => ?_
      have hle := (hbehind hs).1
      unfold Store.Hits at hit
      omega
    · rw [Int.zero_add, window_shift]
      exact h'.left _

/-- What is in front may be written last. -/
theorem Leaves.prepend (h : Leaves ss bs) (h' : Leaves ts cs) :
    Leaves (shift bs.length ts ++ ss) (bs ++ cs) := by
  refine ⟨fun s hs => ?_, fun mem => ?_⟩
  · exact (h.append h').within s (List.mem_append.mpr (List.mem_append.mp hs).symm)
  · have hbehind : window (run ss (run (shift bs.length ts) mem)) (0 + bs.length) cs.length =
        window (run (shift bs.length ts) mem) (0 + bs.length) cs.length := by
      refine window_congr fun i hle _ => run_of_not_hit fun s hs hit => ?_
      have hlt := (h.below hs hit).2
      omega
    rw [List.length_append, window_add, run_append, hbehind, Int.zero_add, window_shift, h.left,
      h'.left]

/-- What is stored before does not matter. -/
theorem Leaves.over (h : Leaves ss bs) (hts : ∀ s ∈ ts, 0 ≤ s.off ∧ s.stop ≤ bs.length) :
    Leaves (ts ++ ss) bs := by
  refine ⟨fun s hs => (List.mem_append.mp hs).elim (hts s) (h.within s), fun mem => ?_⟩
  rw [run_append]
  exact h.left _

/-- A writer between two that are in front of what it leaves. -/
theorem Leaves.around {us : List Store} (h : Leaves (ss ++ us) bs) (h' : Leaves ts cs) :
    Leaves (ss ++ shift bs.length ts ++ us) (bs ++ cs) := by
  have hswap (mem : Int → UInt8) : run (ss ++ shift bs.length ts ++ us) mem =
      run (ss ++ us ++ shift bs.length ts) mem := by
    funext i
    rw [run_append, run_append, run_append, run_append]
    by_cases hin : i < bs.length
    · have hmiss : ∀ s ∈ shift bs.length ts, ¬s.Hits i := fun s hs hit => by
        have hle := (shift_within h' bs.length hs).1
        unfold Store.Hits at hit
        omega
      rw [run_of_not_hit hmiss]
      exact run_congr (run_of_not_hit hmiss)
    · have hmiss : ∀ s ∈ us, ¬s.Hits i := fun s hs hit =>
        hin (h.below (List.mem_append_right _ hs) hit).2
      rw [run_of_not_hit hmiss]
      exact run_congr (run_of_not_hit hmiss).symm
  have hall := h.append h'
  refine ⟨fun s hs => hall.within s ?_, fun mem => ?_⟩
  · simp only [List.mem_append] at hs ⊢
    tauto
  · rw [hswap]
    exact hall.left mem

/-- To store what is there changes nothing. -/
theorem run_window (ss : List Store) (mem : Int → UInt8) (p : Int) (n : Nat) :
    run (⟨p, window mem p n⟩ :: ss) mem = run ss mem := by
  refine congrArg (run ss) (funext fun i => ?_)
  change (if Store.Hits ⟨p, window mem p n⟩ i then (window mem p n).getD (i - p).toNat 0
    else mem i) = mem i
  split
  · next hit =>
    have hlt : (i - p).toNat < n := by
      unfold Store.Hits Store.stop at hit
      rw [window_length] at hit
      dsimp only at hit
      omega
    have hle : p ≤ i := hit.1
    rw [List.getD_eq_getElem?_getD, List.getElem?_eq_getElem (by rwa [window_length])]
    simp only [window, List.getElem_map, List.getElem_range, Option.getD_some]
    rw [Int.toNat_of_nonneg (by omega), add_sub_cancel]
  · rfl

variable {α : Type*} {pack : α → List Store × Int} {wire : α → Bytes} {as : List α}

/-- A loop whose pointer goes on by what each call leaves. -/
theorem leaves_packLoop (h : ∀ a ∈ as, Leaves (pack a).1 (wire a) ∧ (pack a).2 = (wire a).length) :
    Leaves (packLoop pack 0 as) (as.flatMap wire) := by
  induction as with
  | nil => exact leaves_nil
  | cons a as ih =>
    obtain ⟨⟨hleaves, hret⟩, has⟩ := List.forall_mem_cons.mp h
    rw [packLoop, packLoop_eq_shift, shift_zero, Int.zero_add, hret, List.flatMap_cons]
    exact hleaves.append (ih has)

/-- What is announced for each is the sum of what is left. -/
theorem sum_announced {announced : α → Int} (h : ∀ a ∈ as, announced a = (wire a).length) :
    (as.map announced).sum = (as.flatMap wire).length := by
  induction as with
  | nil => rfl
  | cons a as ih =>
    obtain ⟨ha, has⟩ := List.forall_mem_cons.mp h
    rw [List.map_cons, List.sum_cons, ih has, ha, List.flatMap_cons, List.length_append,
      Nat.cast_add]

end Writing

end Nox.Stores

namespace Nox.Records

section Wires

/-! ## Reading -/

variable {α β γ ε : Type}

/-- The cells begin with a record that is all of them. -/
structure Layout.Tells (L : Layout β ε) (bs : List β) : Prop where
  step : L.step ≤ bs.length
  least : L.least ≤ bs.length
  size : ∀ rest, L.size (bs ++ rest) = .ok bs.length

/-- A reader takes these cells off the memory in front of it and gives this. -/
def Takes (limit : Nat) (unpack : List β → Nat → Except ε (α × Nat)) (bs : List β) (a : α) : Prop :=
  ∀ rest len, bs.length ≤ len → len ≤ (bs ++ rest).length → len < limit →
    unpack (bs ++ rest) len = .ok (a, len - bs.length)

variable {L : Layout β ε} {bad : ε} {limit : Nat} {unpack : List β → Nat → Except ε (α × Nat)}
  {wire : γ → List β} {back : γ → α} {as : List γ} {len : Nat}

/-- As many are counted as there are. -/
theorem Layout.count_wires (hstep : 0 < L.step) (h : ∀ a ∈ as, L.Tells (wire a))
    (rest : List β) :
    L.count bad (as.flatMap wire ++ rest) (as.flatMap wire).length = .ok as.length := by
  induction as with
  | nil => exact count_of_lt hstep
  | cons a as ih =>
    obtain ⟨ha, has⟩ := List.forall_mem_cons.mp h
    rw [List.flatMap_cons, List.length_append, List.append_assoc,
      count_cons (Nat.le_add_right_of_le ha.step) (ha.size _) (Nat.le_add_right _ _) ha.least,
      List.drop_left, Nat.add_sub_cancel_left, ih has]
    rfl

/-- Each is read. -/
theorem unpackAll_wires (hsize : ∀ a ∈ as, L.Tells (wire a))
    (h : ∀ a ∈ as, Takes limit unpack (wire a) (back a)) (rest : List β)
    (hle : (as.flatMap wire).length ≤ len) (hin : len ≤ (as.flatMap wire ++ rest).length)
    (hlt : len < limit) :
    unpackAll L.size (fun _ => unpack) as.length (as.flatMap wire ++ rest) len =
      .ok (as.map back, len - (as.flatMap wire).length) := by
  induction as generalizing len with
  | nil => rfl
  | cons a as ih =>
    obtain ⟨ha, has⟩ := List.forall_mem_cons.mp h
    obtain ⟨hs, hss⟩ := List.forall_mem_cons.mp hsize
    rw [List.flatMap_cons, List.length_append] at hle
    rw [List.flatMap_cons, List.append_assoc, List.length_append] at hin
    rw [List.length_cons, List.flatMap_cons, List.append_assoc, unpackAll,
      ha _ len (by omega) (by rwa [List.length_append]) hlt]
    change (L.size _ >>= _) = _
    rw [hs.size]
    change (unpackAll L.size _ as.length ((wire a ++ _).drop _) _ >>= _) = _
    rw [List.drop_left, ih hss has (by omega) (by omega) (by omega), List.length_append,
      Nat.sub_sub]
    rfl

/-- All that is announced is read. -/
theorem unpackAll_wires_all (hsize : ∀ a ∈ as, L.Tells (wire a))
    (h : ∀ a ∈ as, Takes limit unpack (wire a) (back a)) (rest : List β)
    (hlt : (as.flatMap wire).length < limit) :
    unpackAll L.size (fun _ => unpack) as.length (as.flatMap wire ++ rest)
      (as.flatMap wire).length = .ok (as.map back, 0) := by
  have hin : (as.flatMap wire).length ≤ (as.flatMap wire ++ rest).length := by
    rw [List.length_append]
    exact Nat.le_add_right _ _
  rw [unpackAll_wires hsize h rest (Nat.le_refl _) hin hlt, Nat.sub_self]

end Wires

end Nox.Records

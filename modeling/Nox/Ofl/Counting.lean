import Nox.Ofl.Counters
import Nox.Ofl.ReplyBytes

/-!
# What the counters count

On success a counter gives the number of elements the bytes divide into, and goes over them
inside the buffer, unless a property is cut in its padding: its length fits and is rounded up
past the end (`Element.Cut`).
-/

namespace Nox.Ofl.Counting

open Lib Oxm Records Unpacked

section Elements

/-! ## Elements in a buffer -/

/-- The bytes are elements with their padding, and what is left is too short for another. -/
inductive Element.Divided (E : Element) : List Bytes → Bytes → Bytes → Prop
  | rest {rest : Bytes} : rest.length < E.need → E.Divided [] rest rest
  | element {r data rest : Bytes} {rs : List Bytes} {n : Nat} :
      E.need ≤ (r ++ data).length → readNtoh (r ++ data) E.off 2 = .ok n → E.least ≤ n →
        r.length = E.pad n → E.Divided rs rest data → E.Divided (r :: rs) rest (r ++ data)

/-- Behind whole elements there is one that ends inside the bytes, but not its padding. -/
inductive Element.Cut (E : Element) : Bytes → Prop
  | here {data : Bytes} {n : Nat} :
      E.need ≤ data.length → readNtoh data E.off 2 = .ok n → E.least ≤ n → n ≤ data.length →
        data.length < E.pad n → E.Cut data
  | later {r data : Bytes} {n : Nat} :
      E.need ≤ (r ++ data).length → readNtoh (r ++ data) E.off 2 = .ok n → E.least ≤ n →
        r.length = E.pad n → E.Cut data → E.Cut (r ++ data)

variable {E : Element} {data rest : Bytes} {rs : List Bytes} {c n : Nat} {s s' : CountState}

/-- The remaining length is that of the bytes that remain. -/
structure CountState.Steady (s : CountState) : Prop where
  dataLen : s.dataLen = s.d.length
  bounded : s.d.length < 2 ^ 64

theorem steady_begin (h : data.length < 2 ^ 64) (c : Nat) :
    CountState.Steady ⟨data, data.length, c⟩ := ⟨rfl, h⟩

theorem readNtoh_of_le {src : Bytes} {off k : Nat} (h : off + k ≤ src.length) :
    readNtoh src off k = .ok (numAt src off k) := by
  unfold readNtoh memcpy
  rw [if_pos h]
  rfl

/-- From a steady state a pass goes behind a whole element, to a steady state, or finds one that
is cut. -/
theorem Element.pass_next (hs : s.Steady) (h : E.pass s = .ok (.inl s')) :
    (s'.Steady ∧ s'.count = s.count + 1 ∧ ∃ r n, s.d = r ++ s'.d ∧ E.need ≤ s.d.length ∧
        readNtoh s.d E.off 2 = .ok n ∧ E.least ≤ n ∧ r.length = E.pad n) ∨
      E.Cut s.d := by
  obtain ⟨hneed, n, hn, hle, hleast, rfl⟩ := Element.pass_eq_next.mp h
  have hbounded := hs.bounded
  rw [hs.dataLen] at hneed hle
  by_cases hpad : E.pad n ≤ s.d.length
  · refine .inl ⟨⟨?_, ?_⟩, rfl, s.d.take (E.pad n), n, ?_, hneed, hn, hleast, ?_⟩
    · change sizeSub s.dataLen (E.pad n) = (s.d.drop (E.pad n)).length
      rw [List.length_drop, hs.dataLen]
      unfold sizeSub
      omega
    · change (s.d.drop (E.pad n)).length < 2 ^ 64
      rw [List.length_drop]
      omega
    · exact (List.take_append_drop _ _).symm
    · exact List.length_take_of_le hpad
  · exact .inr (.here hneed hn hleast hle (Nat.lt_of_not_le hpad))

/-- Behind a whole element the loop goes on. -/
theorem Element.pass_append {r : Bytes} (hbounded : (r ++ data).length < 2 ^ 64)
    (hneed : E.need ≤ (r ++ data).length) (hn : readNtoh (r ++ data) E.off 2 = .ok n)
    (hleast : E.least ≤ n) (hr : r.length = E.pad n) :
    E.pass ⟨r ++ data, (r ++ data).length, c⟩ = .ok (.inl ⟨data, data.length, c + 1⟩) := by
  have hle := E.le_pad n
  rw [List.length_append] at hbounded
  refine Element.pass_eq_next.mpr ⟨hneed, n, hn, ?_, hleast, ?_⟩
  · change n ≤ (r ++ data).length
    rw [List.length_append]
    omega
  · have hlen : sizeSub (r ++ data).length (E.pad n) = data.length := by
      rw [List.length_append]
      unfold sizeSub
      omega
    change _ = CountState.mk ((r ++ data).drop (E.pad n)) _ _
    rw [← hr, List.drop_left, hr, hlen]

/-- Behind a cut element the loop goes on outside the buffer. -/
theorem Element.pass_cut (hbounded : data.length < 2 ^ 64) (hneed : E.need ≤ data.length)
    (hn : readNtoh data E.off 2 = .ok n) (hleast : E.least ≤ n) (hle : n ≤ data.length)
    (hcut : data.length < E.pad n) : ∃ len, 0 < len ∧
      E.pass ⟨data, data.length, c⟩ = .ok (.inl ⟨[], len, c + 1⟩) ∧
        E.pass ⟨[], len, c + 1⟩ = .error .overrun := by
  have hlt := E.pad_lt n
  have hneed' := E.need_le
  have hlen : E.need ≤ sizeSub data.length (E.pad n) ∧ 0 < sizeSub data.length (E.pad n) := by
    unfold sizeSub
    omega
  refine ⟨sizeSub data.length (E.pad n), hlen.2, ?_, ?_⟩
  · refine Element.pass_eq_next.mpr ⟨hneed, n, hn, hle, hleast, ?_⟩
    rw [List.drop_eq_nil_of_le (Nat.le_of_lt hcut)]
  · unfold Element.pass
    rw [if_pos hlen.1]
    have hread : readNtoh [] E.off 2 = .error .overrun := by
      unfold readNtoh memcpy
      rw [if_neg (by simp)]
      rfl
    rw [hread]
    rfl

theorem Element.run_cut (h : E.Cut data) (hbounded : data.length < 2 ^ 64) :
    E.counter.run ⟨data, data.length, c⟩ = .error .overrun ∧
      ∃ s ∈ E.counter.states ⟨data, data.length, c⟩, s.dataLen ≠ s.d.length := by
  induction h generalizing c with
  | here hneed hn hleast hle hcut =>
    obtain ⟨len, hpos, hfirst, hsecond⟩ := Element.pass_cut hbounded hneed hn hleast hle hcut
      (c := c)
    constructor
    · rw [Loop.run_next (L := E.counter) hfirst]
      exact Loop.run_error (L := E.counter) hsecond
    · refine ⟨⟨[], len, c + 1⟩, ?_, Nat.ne_of_gt hpos⟩
      rw [Loop.states_next (L := E.counter) hfirst, Loop.states_stop fun s' h => ?_]
      · exact List.mem_cons_of_mem _ (List.mem_singleton_self _)
      · exact absurd (hsecond.symm.trans h) nofun
  | later hneed hn hleast hr _ ih =>
    have hnext := Element.pass_append (c := c) hbounded hneed hn hleast hr
    rw [List.length_append] at hbounded
    obtain ⟨hrun, s, hs, hne⟩ := @ih (c + 1) (by omega)
    constructor
    · rw [Loop.run_next (L := E.counter) hnext]
      exact hrun
    · refine ⟨s, ?_, hne⟩
      rw [Loop.states_next (L := E.counter) hnext]
      exact List.mem_cons_of_mem _ hs

/-- Without a cut element, the loop is in steady states. -/
theorem Element.states_steady (h : ¬E.Cut data) (hbounded : data.length < 2 ^ 64) :
    ∀ s ∈ E.counter.states ⟨data, data.length, c⟩, s.Steady ∧ ¬E.Cut s.d := by
  refine Loop.states_invariant ⟨steady_begin hbounded c, h⟩ fun s s' hs hpass => ?_
  rcases Element.pass_next hs.1 hpass with ⟨hsteady, -, r, n, hd, hneed, hn, hleast, hr⟩ | hcut
  · refine ⟨hsteady, fun hcut => hs.2 ?_⟩
    rw [hd] at hneed hn ⊢
    exact .later hneed hn hleast hr hcut
  · exact absurd hcut hs.2

/-- A steady pass that does not go on ends the loop or refuses an element. -/
theorem Element.pass_stop (hs : s.Steady) (h : ∀ s', E.pass s ≠ .ok (.inl s')) :
    (s.d.length < E.need ∧ E.pass s = .ok (.inr s.count)) ∨ E.pass s = .error E.bad := by
  have hdataLen := hs.dataLen
  have hheader := E.header
  by_cases hneed : E.need ≤ s.dataLen
  · right
    have hn : readNtoh s.d E.off 2 = .ok (numAt s.d E.off 2) := readNtoh_of_le (by omega)
    by_cases hfits : s.dataLen < numAt s.d E.off 2 ∨ numAt s.d E.off 2 < E.least
    · unfold Element.pass
      rw [if_pos hneed, hn]
      exact if_pos hfits
    · refine absurd (Element.pass_eq_next.mpr ⟨hneed, _, hn, ?_, ?_, rfl⟩) (h _) <;> omega
  · left
    refine ⟨by omega, ?_⟩
    unfold Element.pass
    rw [if_neg hneed]
    rfl

/-- Without a cut element, nothing is read outside the buffer. -/
theorem Element.run_inside (h : ¬E.Cut data) (hbounded : data.length < 2 ^ 64) :
    E.counter.run ⟨data, data.length, c⟩ ≠ .error .overrun := by
  have hstep (s : CountState) : s.Steady ∧ ¬E.Cut s.d → E.counter.run s ≠ .error .overrun := by
    induction s using Loop.pass_induction (L := E.counter) with
    | next s s' hpass ih =>
      intro hs
      rw [Loop.run_next hpass]
      rcases Element.pass_next hs.1 hpass with ⟨hsteady, -, r, n, hd, hneed, hn, hleast, hr⟩ | hcut
      · refine ih ⟨hsteady, fun hcut => hs.2 ?_⟩
        rw [hd] at hneed hn ⊢
        exact .later hneed hn hleast hr hcut
      · exact absurd hcut hs.2
    | stop s hstop =>
      intro hs
      rcases Element.pass_stop hs.1 hstop with ⟨-, hdone⟩ | hbad
      · rw [Loop.run_done (L := E.counter) hdone]
        nofun
      · rw [Loop.run_error (L := E.counter) hbad]
        exact fun heq => E.bad_ne (Except.error.inj heq)
  exact hstep _ ⟨steady_begin hbounded c, h⟩

/-- The count is the number of elements that the bytes divide into. -/
theorem Element.run_eq_ok_iff (hbounded : data.length < 2 ^ 64) :
    E.counter.run ⟨data, data.length, c⟩ = .ok n ↔
      ∃ rs rest, E.Divided rs rest data ∧ n = c + rs.length := by
  constructor
  · have hstep (s : CountState) : s.Steady → ∀ n, E.counter.run s = .ok n →
        ∃ rs rest, E.Divided rs rest s.d ∧ n = s.count + rs.length := by
      induction s using Loop.pass_induction (L := E.counter) with
      | next s s' hpass ih =>
        intro hs n hrun
        rcases Element.pass_next hs hpass with
          ⟨hsteady, hcount, r, k, hd, hneed, hk, hleast, hr⟩ | hcut
        · rw [Loop.run_next hpass] at hrun
          obtain ⟨rs, rest, hdivided, rfl⟩ := ih hsteady n hrun
          rw [hd] at hneed hk ⊢
          refine ⟨r :: rs, rest, .element hneed hk hleast hr hdivided, ?_⟩
          rw [hcount, List.length_cons]
          omega
        · have hoverrun := (Element.run_cut hcut hs.bounded (c := s.count)).1
          rw [← hs.dataLen] at hoverrun
          exact absurd (hoverrun.symm.trans hrun) nofun
      | stop s hstop =>
        intro hs n hrun
        rcases Element.pass_stop hs hstop with ⟨hlt, hdone⟩ | hbad
        · rw [Loop.run_done (L := E.counter) hdone] at hrun
          cases hrun
          exact ⟨[], s.d, .rest hlt, rfl⟩
        · rw [Loop.run_error (L := E.counter) hbad] at hrun
          cases hrun
    exact hstep _ (steady_begin hbounded c) n
  · rintro ⟨rs, rest, hdivided, rfl⟩
    induction hdivided generalizing c with
    | @rest rest hlt =>
      refine Loop.run_done (L := E.counter) ?_
      change E.pass _ = _
      unfold Element.pass
      rw [if_neg (Nat.not_le.mpr hlt)]
      rfl
    | element hneed hk hleast hr _ ih =>
      rw [Loop.run_next (L := E.counter) (Element.pass_append hbounded hneed hk hleast hr)]
      rw [List.length_append] at hbounded
      rw [ih (by omega), List.length_cons]
      congr 1
      omega

end Elements

section Claims

/-! ## What counters are for -/

namespace DecoderLoop

variable (S : DecoderLoop) (fresh : Bytes → Nat → Bytes)

/-- The loop writes each of the next `n` entries, until it ends at an element that is refused. -/
def Fills : Nat → Bytes → Nat → Prop
  | 0, _, _ => True
  | n + 1, src, len =>
    match S.decode fresh src len with
    | .ok (written, len) =>
      written = true ∧ ∀ k, S.move src = .ok k → Fills n (src.drop k) len
    | .error e => S.ignores = false ∨ e = .overrun

/-- What is left behind `n` elements inside the bytes. -/
def after : Nat → Bytes → Unpack Bytes
  | 0, src => .ok src
  | n + 1, src => do
    let k ← S.move src
    if src.length < k then .error .overrun else after n (src.drop k)

/-- The counter ends, reads inside the buffer only and keeps the length that remains.  On success
the array is filled, and the decoder finds no further element in what is left. -/
structure Counts (data : Bytes) : Prop where
  ends : ∃ s ∈ S.counter.states ⟨data, data.length, 0⟩, ∀ s', S.counter.pass s ≠ .ok (.inl s')
  inside : count S.counter data ≠ .error .overrun
  steady : ∀ s ∈ S.counter.states ⟨data, data.length, 0⟩, s.dataLen = s.d.length
  filled : ∀ n, count S.counter data = .ok n →
    S.Fills fresh n (data ++ S.behind) (data.length + S.behind.length)
  exhausted : ∀ n, count S.counter data = .ok n → ∃ rest, S.after n data = .ok rest ∧
    ∀ len, S.decode fresh rest rest.length ≠ .ok (true, len)

/-- None of the elements is refused. -/
def NoneRefused : List Bytes → Bytes → Nat → Prop
  | [], _, _ => True
  | r :: rs, tail, len =>
    match S.decode fresh (r ++ (rs.flatten ++ tail)) len with
    | .ok (_, len) => NoneRefused rs tail len
    | .error e => e = .overrun

end DecoderLoop

/-- The type of a meter band is one that is decoded. -/
def KnownBand (r : Bytes) : Prop := numAt r 0 2 = 1 ∨ numAt r 0 2 = 2 ∨ numAt r 0 2 = 0xffff

/-- The bytes that are left are a band of less than 16 bytes. -/
def BandLeft (rest : Bytes) : Prop :=
  12 ≤ rest.length ∧ (numAt rest 0 2 = 1 ∨ numAt rest 0 2 = 2 ∧ 13 ≤ rest.length)

/-- The bytes that are left are an entry of 48 bytes, whose match is said to take none. -/
def FlowLeft (rest : Bytes) : Prop :=
  52 ≤ rest.length ∧ numAt rest 0 2 = 48 ∧ numAt rest 2 1 ≠ 0xff ∧
    numAt rest 48 2 = ofpmtOxm ∧ numAt rest 50 2 = 0

/-- What the bytes must be for a loop and its counter to agree. -/
def DecoderLoop.Fits (fresh : Bytes → Nat → Bytes) (data : Bytes) : DecoderLoop → Prop
  | .tableFeaturesProperties => ¬Counting.tableFeaturesProperties.Cut data
  | .tableFeatures => ∀ rs rest, Counting.tableFeatures.Divided rs rest data →
    DecoderLoop.tableFeatures.NoneRefused fresh rs rest data.length
  | .queueProps => ∀ rs rest, Counting.queueProps.Divided rs rest data →
    DecoderLoop.queueProps.NoneRefused fresh rs rest data.length
  | .packetOutActions behind => ∀ rs rest, Counting.actions.Divided rs rest data →
    (DecoderLoop.packetOutActions behind).NoneRefused fresh rs (rest ++ behind)
      (data.length + behind.length)
  | .meterBands => ∀ rs rest, Counting.meterBands.Divided rs rest data →
    (∀ r ∈ rs, KnownBand r) ∧ ¬BandLeft rest
  | .flowStats => ∀ rs rest, Counting.flowStats.Divided rs rest data → ¬FlowLeft rest
  | _ => True

end Claims

section Reads

/-! ## Reading -/

variable {src tail : Bytes} {off k n : Nat} {α : Type}

theorem readNtoh_short (h : src.length < off + k) : readNtoh src off k = .error .overrun := by
  unfold readNtoh memcpy
  rw [if_neg (Nat.not_le.mpr h)]
  rfl

/-- What is behind the bytes does not count. -/
theorem numAt_append_left (h : off + k ≤ src.length) :
    numAt (src ++ tail) off k = numAt src off k := by
  have hdrop : off ≤ src.length := by omega
  unfold numAt
  rw [List.drop_append_of_le_length hdrop, List.take_append_of_le_length]
  rw [List.length_drop]
  omega

theorem readNtoh_append_left (h : readNtoh src off k = .ok n) :
    readNtoh (src ++ tail) off k = .ok n := by
  have hinside := readNtoh_inside h
  rw [readNtoh_of_le (by rw [List.length_append]; omega), readNtoh_eq_ok h,
    numAt_append_left hinside]

theorem numbersAt_of_le {fields : List (Nat × Nat)} (h : ∀ f ∈ fields, f.1 + f.2 ≤ src.length) :
    numbersAt src fields = .ok (fields.map fun f => numAt src f.1 f.2) := by
  unfold numbersAt
  induction fields with
  | nil => rfl
  | cons f fields ih =>
    obtain ⟨hf, hfields⟩ := List.forall_mem_cons.mp h
    rw [List.mapM_cons, readNtoh_of_le hf, ih hfields]
    rfl

theorem numbersAt_inside {fields : List (Nat × Nat)} {ns : List Nat}
    (h : numbersAt src fields = .ok ns) : ∀ f ∈ fields, f.1 + f.2 ≤ src.length := by
  unfold numbersAt at h
  induction fields generalizing ns with
  | nil => nofun
  | cons f fields ih =>
    rw [List.mapM_cons] at h
    obtain ⟨n, hn, h⟩ := bind_eq_ok.mp h
    obtain ⟨ns', hns', -⟩ := bind_eq_ok.mp h
    exact List.forall_mem_cons.mpr ⟨readNtoh_inside hn, ih hns'⟩

theorem reject_bind {c : Prop} [Decidable c] {e : UnpackError} {f : Unit → Unpack α} (h : c) :
    (reject c e >>= f) = .error e := by
  unfold reject
  rw [if_pos h]
  rfl

end Reads

section Decoders

/-! ## The second loop -/

variable {S : DecoderLoop} {E : Element} {fresh : Bytes → Nat → Bytes} {data rest src : Bytes}
  {rs : List Bytes} {len n : Nat}

theorem Element.Divided.flatten (h : E.Divided rs rest data) : data = rs.flatten ++ rest := by
  induction h with
  | rest => rfl
  | element _ _ _ _ _ ih => rw [List.flatten_cons, List.append_assoc, ← ih]

theorem Element.Divided.short (h : E.Divided rs rest data) : rest.length < E.need := by
  induction h with
  | rest hlt => exact hlt
  | element _ _ _ _ _ ih => exact ih

/-- An element whose length is not rounded is not cut. -/
theorem Element.not_cut (hpad : E.pad = id) : ¬E.Cut data := by
  intro h
  induction h with
  | here _ _ _ hle hcut =>
    rw [hpad] at hcut
    exact absurd hle (Nat.not_le.mpr hcut)
  | later _ _ _ _ _ ih => exact ih

namespace DecoderLoop

/-- The elements, where the counter goes over them. -/
def element : DecoderLoop → Option Element
  | .tableFeaturesProperties => some Counting.tableFeaturesProperties
  | .tableFeatures => some Counting.tableFeatures
  | .instructions | .instructionIds => some Counting.instructions
  | .buckets _ => some Counting.buckets
  | .meterBands => some Counting.meterBands
  | .packetQueues => some Counting.packetQueues
  | .flowStats => some Counting.flowStats
  | .groupStats => some Counting.groupStats
  | .groupDescStats => some Counting.groupDescStats
  | .queueProps => some Counting.queueProps
  | .meterStats => some Counting.meterStats
  | .meterConfig => some Counting.meterConfig
  | .actions | .actionIds | .packetOutActions _ => some Counting.actions
  | .ports | .tableStats | .bucketCounters | .portStats | .queueStats | .meterBandStats => none

theorem counter_eq (h : S.element = some E) : S.counter = E.counter := by
  cases S <;> cases h <;> rfl

/-- The second loop goes on as the counter did. -/
theorem move_eq (h : S.element = some E) (hn : readNtoh src E.off 2 = .ok n) :
    S.move src = .ok (E.pad n) := by
  cases S <;> cases h
  case tableFeaturesProperties =>
    exact bind_eq_ok.mpr ⟨n, hn, rfl⟩
  all_goals exact hn

theorem after_divided (hS : S.element = some E) (h : E.Divided rs rest data) :
    S.after rs.length data = .ok rest := by
  induction h with
  | rest => rfl
  | @element r data rest rs n hneed hn hleast hr _ ih =>
    rw [List.length_cons, after, move_eq hS hn, ← hr]
    change (if (r ++ data).length < r.length then _ else _) = _
    rw [if_neg (by rw [List.length_append]; omega), List.drop_left]
    exact ih

/-- Where the counter goes over elements, the loops agree if no element is cut, and the decoder
makes of the elements what it should. -/
theorem counts_iff_of_element (hS : S.element = some E) (hbounded : data.length < 2 ^ 64) :
    S.Counts fresh data ↔ ¬E.Cut data ∧ ∀ rs rest, E.Divided rs rest data →
      S.Fills fresh rs.length (data ++ S.behind) (data.length + S.behind.length) ∧
        ∀ len, S.decode fresh rest rest.length ≠ .ok (true, len) := by
  have hcounter := counter_eq hS
  have hcount (n : Nat) : count S.counter data = .ok n ↔
      ∃ rs rest, E.Divided rs rest data ∧ n = rs.length := by
    unfold count
    rw [hcounter, Element.run_eq_ok_iff hbounded]
    simp only [Nat.zero_add]
  constructor
  · intro h
    constructor
    · intro hcut
      refine h.inside ?_
      unfold count
      rw [hcounter]
      exact (Element.run_cut hcut hbounded).1
    · intro rs rest hdivided
      have hok := (hcount rs.length).mpr ⟨rs, rest, hdivided, rfl⟩
      obtain ⟨rest', hafter, hexhausted⟩ := h.exhausted _ hok
      rw [after_divided hS hdivided] at hafter
      cases hafter
      exact ⟨h.filled _ hok, hexhausted⟩
  · rintro ⟨hcut, hdivided⟩
    refine ⟨Loop.ends _ _, ?_, ?_, ?_, ?_⟩
    · unfold count
      rw [hcounter]
      exact Element.run_inside hcut hbounded
    · rw [hcounter]
      exact fun s hs => (Element.states_steady hcut hbounded s hs).1.dataLen
    · intro n hn
      obtain ⟨rs, rest, hrs, rfl⟩ := (hcount n).mp hn
      exact (hdivided rs rest hrs).1
    · intro n hn
      obtain ⟨rs, rest, hrs, rfl⟩ := (hcount n).mp hn
      exact ⟨rest, after_divided hS hrs, (hdivided rs rest hrs).2⟩

theorem entry_eq_ok {α : Type} {x : Unpack (α × Nat)} {w : Bool} :
    entry x = .ok (w, len) ↔ w = true ∧ ∃ a, x = .ok (a, len) := by
  unfold entry
  constructor
  · intro h
    obtain ⟨⟨a, l⟩, hx, h⟩ := bind_eq_ok.mp h
    cases h
    exact ⟨rfl, a, hx⟩
  · rintro ⟨rfl, a, hx⟩
    exact bind_eq_ok.mpr ⟨(a, len), hx, rfl⟩

theorem entry_error {α : Type} {x : Unpack (α × Nat)} {e : UnpackError} (h : x = .error e) :
    entry x = .error e := by
  rw [h]
  rfl

/-- Every decoder but that of meter bands writes the entry. -/
theorem decode_written (hS : S ≠ .meterBands) {w : Bool} {l : Nat}
    (h : S.decode fresh src len = .ok (w, l)) : w = true := by
  cases S
  case meterBands => exact absurd rfl hS
  all_goals exact (entry_eq_ok.mp h).1

/-- A loop that returns the error of an element leaves none unwritten. -/
theorem fills_of_returns (hS : S ≠ .meterBands) (hignores : S.ignores = false) :
    S.Fills fresh n src len := by
  induction n generalizing src len with
  | zero => trivial
  | succ n ih =>
    unfold Fills
    split
    · next h => exact ⟨decode_written hS h, fun k _ => ih⟩
    · exact .inl hignores

/-- A loop that goes on after errors writes every entry if there are none. -/
theorem fills_iff_noneRefused (hS : S.element = some E) (hignores : S.ignores = true)
    (h : E.Divided rs rest data) (tail : Bytes) (len : Nat) :
    S.Fills fresh rs.length (data ++ tail) len ↔
      S.NoneRefused fresh rs (rest ++ tail) len := by
  have hband : S ≠ .meterBands := fun heq => absurd hignores (heq ▸ nofun)
  induction h generalizing len with
  | rest => exact Iff.rfl
  | @element r data rest rs n hneed hn hleast hr hdivided ih =>
    have hbytes : r ++ data ++ tail = r ++ (rs.flatten ++ (rest ++ tail)) := by
      rw [hdivided.flatten]
      simp only [List.append_assoc]
    have hmove : S.move (r ++ data ++ tail) = .ok r.length := by
      rw [move_eq hS (readNtoh_append_left hn), hr]
    have hdrop : (r ++ data ++ tail).drop r.length = data ++ tail := by
      rw [List.append_assoc, List.drop_left]
    rw [List.length_cons, Fills, NoneRefused, ← hbytes]
    cases hdecode : S.decode fresh (r ++ data ++ tail) len with
    | error e =>
      dsimp only
      rw [hignores]
      exact ⟨fun h => h.resolve_left nofun, .inr⟩
    | ok p =>
      obtain ⟨w, l⟩ := p
      dsimp only
      refine Iff.trans ?_ (ih l)
      constructor
      · intro h
        exact hdrop ▸ h.2 _ hmove
      · intro h
        refine ⟨decode_written hband hdecode, fun k hk => ?_⟩
        rw [hmove] at hk
        cases hk
        rw [hdrop]
        exact h

/-- What is left is too short for the length of an id, by which the loop goes on. -/
theorem instructionId_short (h : rest.length < 4) :
    instructionId rest len = .error .overrun := by
  unfold instructionId lenAtTwo
  rw [readNtoh_short (show rest.length < 2 + 2 from h)]
  rcases @readNtoh_cases rest 0 2 with hread | hread <;> rw [hread] <;> rfl

theorem actionId_short (h : rest.length < 4) : actionId rest len = .error .overrun := by
  unfold actionId lenAtTwo
  rw [readNtoh_short (show rest.length < 2 + 2 from h)]
  rcases @readNtoh_cases rest 0 2 with hread | hread <;> rw [hread] <;> rfl

theorem action_short {m : Bytes} (h : rest.length < 4) :
    oflActionsUnpack m rest rest.length = .error (.oflError ofpetBadAction ofpbacBadLen) := by
  unfold oflActionsUnpack checkSize
  rw [if_pos (show rest.length < 8 by omega)]
  rfl

/-- Behind the end of the bytes there are no records to count. -/
theorem unpackRecords_nil {α : Type} {L : Layout UInt8 UnpackError} {bad : UnpackError}
    {unpack : Nat → Bytes → Nat → Unpack (α × Nat)} {announced : Nat}
    (hsize : L.size [] = .error .overrun) (h : L.step ≤ announced) :
    unpackRecords L bad unpack [] announced len = .error .overrun := by
  unfold unpackRecords
  rw [Layout.count, if_pos h, hsize]
  rfl

theorem unpackRecords_short {α : Type} {L : Layout UInt8 UnpackError} {bad : UnpackError}
    {unpack : Nat → Bytes → Nat → Unpack (α × Nat)} {announced : Nat} (h : announced < L.step) :
    unpackRecords L bad unpack src announced len = .ok ([], len) := by
  unfold unpackRecords
  rw [Layout.count_of_lt h]
  rfl

/-- A queue that is cut is refused, or its properties are looked for behind the bytes. -/
theorem packetQueue_short (h : rest.length < 16) :
    ∃ e, oflStructsPacketQueueUnpack rest rest.length = .error e := by
  cases hunpack : oflStructsPacketQueueUnpack rest rest.length with
  | error e => exact ⟨e, rfl⟩
  | ok p =>
    exfalso
    unfold oflStructsPacketQueueUnpack at hunpack
    obtain ⟨srcLen, hsrcLen, hunpack⟩ := bind_eq_ok.mp hunpack
    obtain ⟨_, -, hunpack⟩ := bind_eq_ok.mp hunpack
    obtain ⟨queueId, -, hunpack⟩ := bind_eq_ok.mp hunpack
    obtain ⟨q, hq, -⟩ := bind_eq_ok.mp hunpack
    have hnil : rest.drop 16 = [] := List.drop_eq_nil_of_le (Nat.le_of_lt h)
    have hlen : 8 ≤ sizeSub rest.length 16 := by
      unfold sizeSub
      omega
    rw [hnil, unpackRecords_nil rfl hlen] at hq
    cases hq

/-- What is left is refused, as too short for another element. -/
theorem decode_short (fresh : Bytes → Nat → Bytes) (hS : S.element = some E) (hband : S ≠ .meterBands)
    (hflow : S ≠ .flowStats) (h : rest.length < E.need) :
    ∃ e, S.decode fresh rest rest.length = .error e := by
  cases S <;> cases hS
  case meterBands => exact absurd rfl hband
  case flowStats => exact absurd rfl hflow
  case packetQueues =>
    obtain ⟨e, he⟩ := packetQueue_short h
    exact ⟨e, entry_error he⟩
  case instructionIds => exact ⟨_, entry_error (instructionId_short h)⟩
  case actionIds => exact ⟨_, entry_error (actionId_short h)⟩
  case instructions => exact ⟨_, entry_error (reject_bind (Nat.lt_of_lt_of_le h (by decide)))⟩
  case actions | packetOutActions => exact ⟨_, entry_error (action_short h)⟩
  all_goals exact ⟨_, entry_error (reject_bind h)⟩

end DecoderLoop

end Decoders

section Sites

/-! ## Bands and flow entries -/

variable {S : DecoderLoop} {E : Element} {fresh : Bytes → Nat → Bytes} {data rest src : Bytes}
  {rs : List Bytes} {len n : Nat}

namespace DecoderLoop

/-- Of 16 bytes, a band is unpacked if its type is known, and left out if not. -/
theorem band_decode (fresh : Bytes → Nat → Bytes) (hlen : 12 ≤ len) (hsrc : 16 ≤ src.length) : ∃ w,
    DecoderLoop.meterBands.decode fresh src len = .ok (w, sizeSub len (numAt src 2 2)) ∧
      (w = true ↔ KnownBand src) := by
  have htype : readNtoh src 0 2 = .ok (numAt src 0 2) := readNtoh_of_le (by omega)
  have hsrcLen : readNtoh src 2 2 = .ok (numAt src 2 2) := readNtoh_of_le (by omega)
  have hbody : ∃ band, meterBandBody (numAt src 0 2) src = .ok band ∧
      (band.isSome = true ↔ KnownBand src) := by
    unfold meterBandBody KnownBand
    split
    · next h =>
      rw [numbersAt_of_le (by simp; omega), h]
      exact ⟨_, rfl, by simp⟩
    · next h =>
      rw [numbersAt_of_le (by simp; omega), h]
      exact ⟨_, rfl, by simp⟩
    · next h =>
      rw [numbersAt_of_le (by simp; omega), h]
      exact ⟨_, rfl, by simp⟩
    · next h1 h2 h3 =>
      refine ⟨none, rfl, iff_of_false nofun ?_⟩
      rintro (h | h | h)
      · exact h1 h
      · exact h2 h
      · exact h3 h
  obtain ⟨band, hband, hknown⟩ := hbody
  have hunpack : oflStructsMeterBandUnpack src len = .ok (band, sizeSub len (numAt src 2 2)) := by
    refine bind_eq_ok.mpr ⟨(), reject_eq_ok.mpr (Nat.not_lt.mpr hlen), ?_⟩
    refine bind_eq_ok.mpr ⟨_, htype, bind_eq_ok.mpr ⟨band, hband, ?_⟩⟩
    exact bind_eq_ok.mpr ⟨_, hsrcLen, rfl⟩
  exact ⟨band.isSome, bind_eq_ok.mpr ⟨_, hunpack, rfl⟩, hknown⟩

/-- The bands that were counted are unpacked one by one, and written if their types are known. -/
theorem band_fills_iff (h : Counting.meterBands.Divided rs rest data)
    (hbounded : data.length < 2 ^ 64) :
    DecoderLoop.meterBands.Fills fresh rs.length data data.length ↔ ∀ r ∈ rs, KnownBand r := by
  induction h with
  | rest => exact iff_of_true trivial nofun
  | @element r data rest rs n hneed hn hleast hr _ ih =>
    have hlength : (r ++ data).length = r.length + data.length := List.length_append
    have hneed' : 16 ≤ (r ++ data).length := hneed
    have hn' : readNtoh (r ++ data) 2 2 = .ok n := hn
    have hr' : r.length = n := hr
    have hleast' : 12 ≤ n := hleast
    obtain ⟨w, hdecode, hw⟩ := band_decode fresh (show 12 ≤ (r ++ data).length by omega) hneed'
    have hknown : KnownBand (r ++ data) ↔ KnownBand r := by
      unfold KnownBand
      rw [numAt_append_left (by omega)]
    have hlen : sizeSub (r ++ data).length (numAt (r ++ data) 2 2) = data.length := by
      rw [← readNtoh_eq_ok hn']
      unfold sizeSub
      omega
    have hmove : DecoderLoop.meterBands.move (r ++ data) = .ok r.length := by
      rw [hr']
      exact hn'
    rw [List.length_cons, Fills, hdecode, List.forall_mem_cons, hlen]
    dsimp only
    rw [hw, hknown, ← ih (by omega)]
    refine and_congr_right fun _ => ?_
    rw [hmove]
    constructor
    · intro h
      have hfills := h _ rfl
      rw [List.drop_left] at hfills
      exact hfills
    · intro h k hk
      cases hk
      rw [List.drop_left]
      exact h

/-- Of less than 16 bytes, a band that has no more than its header is unpacked. -/
theorem band_left_iff (h : rest.length < 16) :
    (∃ l, DecoderLoop.meterBands.decode fresh rest rest.length = .ok (true, l)) ↔
      BandLeft rest := by
  constructor
  · rintro ⟨l, hdecode⟩
    obtain ⟨⟨band, l'⟩, hunpack, hpair⟩ := bind_eq_ok.mp hdecode
    have hsome : band.isSome = true := (Prod.mk.inj (Except.ok.inj hpair)).1
    unfold oflStructsMeterBandUnpack at hunpack
    obtain ⟨_, hreject, hunpack⟩ := bind_eq_ok.mp hunpack
    obtain ⟨type, htype, hunpack⟩ := bind_eq_ok.mp hunpack
    obtain ⟨band', hbody, hunpack⟩ := bind_eq_ok.mp hunpack
    obtain ⟨srcLen, -, hunpack⟩ := bind_eq_ok.mp hunpack
    cases hunpack
    refine ⟨Nat.le_of_not_lt (reject_eq_ok.mp hreject), ?_⟩
    rw [← readNtoh_eq_ok htype]
    unfold meterBandBody at hbody
    split at hbody
    · exact .inl rfl
    · obtain ⟨ns, hns, -⟩ := bind_eq_ok.mp hbody
      exact .inr ⟨rfl, numbersAt_inside hns (12, 1) (by simp)⟩
    · obtain ⟨ns, hns, -⟩ := bind_eq_ok.mp hbody
      exact absurd (numbersAt_inside hns (12, 4) (by simp)) (Nat.not_le.mpr h)
    · cases hbody
      cases hsome
  · rintro ⟨hlen, htype⟩
    have hbody : ∃ band, meterBandBody (numAt rest 0 2) rest = .ok (some band) := by
      rcases htype with hone | ⟨htwo, hlong⟩
      · rw [hone]
        exact ⟨_, bind_eq_ok.mpr ⟨_, numbersAt_of_le (by simp; omega), rfl⟩⟩
      · rw [htwo]
        exact ⟨_, bind_eq_ok.mpr ⟨_, numbersAt_of_le (by simp; omega), rfl⟩⟩
    obtain ⟨band, hband⟩ := hbody
    refine ⟨_, bind_eq_ok.mpr ⟨(some band, sizeSub rest.length (numAt rest 2 2)), ?_, rfl⟩⟩
    refine bind_eq_ok.mpr ⟨(), reject_eq_ok.mpr (Nat.not_lt.mpr hlen), ?_⟩
    refine bind_eq_ok.mpr ⟨_, readNtoh_of_le (by omega), bind_eq_ok.mpr ⟨_, hband, ?_⟩⟩
    exact bind_eq_ok.mpr ⟨_, readNtoh_of_le (by omega), rfl⟩

theorem numAt_drop (off off' k : Nat) : numAt (src.drop off) off' k = numAt src (off + off') k := by
  unfold numAt
  rw [List.drop_drop]

/-- A match whose length is zero takes nothing of the length. -/
theorem match_nothing {buf : Bytes} (htype : readNtoh src 0 2 = .ok ofpmtOxm)
    (hlength : readNtoh src 2 2 = .ok 0) :
    oflStructsMatchUnpack src buf len = .ok (⟨0, none⟩, sizeSub len 0) := by
  unfold oflStructsMatchUnpack oflStructsOxmMatchUnpack
  rw [htype, hlength]
  rfl

/-- What the parts of a flow entry are, if it is unpacked. -/
theorem flow_unpack_iff {l : Nat} : (∃ s, oflStructsFlowStatsUnpack fresh src len = .ok (s, l)) ↔
    ∃ ml srcLen tableId numbers m slen insts, readNtoh src 50 2 = .ok ml ∧
      48 + roundUp ml 8 ≤ len ∧ readNtoh src 0 2 = .ok srcLen ∧ srcLen ≤ len ∧
      readNtoh src 2 1 = .ok tableId ∧ tableId ≠ 0xff ∧
      numbersAt src [(2, 1), (4, 4), (8, 4), (12, 2), (14, 2), (16, 2), (24, 8), (32, 8),
        (40, 8)] = .ok numbers ∧
      oflStructsMatchUnpack (src.drop 48) (src.drop 52) (sizeSub srcLen 48) = .ok (m, slen) ∧
      unpackRecords instructionLayout badLen (fun _ => oflStructsInstructionsUnpack fresh)
        (src.drop (roundUp (52 + m.length) 8)) slen slen = .ok (insts, 0) ∧
      l = sizeSub len srcLen := by
  unfold oflStructsFlowStatsUnpack
  constructor
  · rintro ⟨s, h⟩
    obtain ⟨ml, hml, h⟩ := bind_eq_ok.mp h
    obtain ⟨_, hroom, h⟩ := bind_eq_ok.mp h
    obtain ⟨srcLen, hsrcLen, h⟩ := bind_eq_ok.mp h
    obtain ⟨_, hfits, h⟩ := bind_eq_ok.mp h
    obtain ⟨tableId, htableId, h⟩ := bind_eq_ok.mp h
    obtain ⟨_, hne, h⟩ := bind_eq_ok.mp h
    obtain ⟨numbers, hnumbers, h⟩ := bind_eq_ok.mp h
    obtain ⟨⟨m, slen⟩, hmatch, h⟩ := bind_eq_ok.mp h
    obtain ⟨⟨insts, left⟩, hinsts, h⟩ := bind_eq_ok.mp h
    obtain ⟨_, hleft, h⟩ := bind_eq_ok.mp h
    cases h
    have hzero : left = 0 := Classical.not_not.mp (reject_eq_ok.mp hleft)
    exact ⟨ml, srcLen, tableId, numbers, m, slen, insts, hml,
      Nat.le_of_not_lt (reject_eq_ok.mp hroom), hsrcLen, Nat.le_of_not_lt (reject_eq_ok.mp hfits),
      htableId, reject_eq_ok.mp hne, hnumbers, hmatch, hzero ▸ hinsts, rfl⟩
  · rintro ⟨ml, srcLen, tableId, numbers, m, slen, insts, hml, hroom, hsrcLen, hfits, htableId,
      hne, hnumbers, hmatch, hinsts, rfl⟩
    refine ⟨⟨numbers, m, insts⟩, bind_eq_ok.mpr ⟨ml, hml, ?_⟩⟩
    refine bind_eq_ok.mpr ⟨(), reject_eq_ok.mpr (Nat.not_lt.mpr hroom), ?_⟩
    refine bind_eq_ok.mpr ⟨srcLen, hsrcLen, ?_⟩
    refine bind_eq_ok.mpr ⟨(), reject_eq_ok.mpr (Nat.not_lt.mpr hfits), ?_⟩
    refine bind_eq_ok.mpr ⟨tableId, htableId, ?_⟩
    refine bind_eq_ok.mpr ⟨(), reject_eq_ok.mpr hne, ?_⟩
    refine bind_eq_ok.mpr ⟨numbers, hnumbers, bind_eq_ok.mpr ⟨(m, slen), hmatch, ?_⟩⟩
    refine bind_eq_ok.mpr ⟨(insts, 0), hinsts, ?_⟩
    exact bind_eq_ok.mpr ⟨(), reject_eq_ok.mpr (fun h => h rfl), rfl⟩

/-- Of less than 56 bytes, an entry without fields and instructions is unpacked. -/
theorem flow_left_iff (h : rest.length < 56) :
    (∃ l, DecoderLoop.flowStats.decode fresh rest rest.length = .ok (true, l)) ↔
      FlowLeft rest := by
  have hnil : rest.drop (roundUp (52 + 0) 8) = [] := List.drop_eq_nil_of_le (Nat.le_of_lt h)
  constructor
  · rintro ⟨l, hdecode⟩
    obtain ⟨-, hflow⟩ := entry_eq_ok.mp hdecode
    obtain ⟨ml, srcLen, tableId, numbers, m, slen, insts, hml, hroom, hsrcLen, hfits, htableId,
      hne, -, hmatch, hinsts, -⟩ := flow_unpack_iff.mp hflow
    have hinside := readNtoh_inside hml
    obtain ⟨hle, -, hmod⟩ := roundUp_eight ml
    have hzero : ml = 0 := by omega
    have htype : numAt rest 48 2 = ofpmtOxm := by
      obtain ⟨type, htype, hmatch⟩ := bind_eq_ok.mp hmatch
      split at hmatch
      · next heq =>
        rw [← heq, readNtoh_eq_ok htype, numAt_drop]
      · cases hmatch
    have hlength : readNtoh (rest.drop 48) 2 2 = .ok 0 := by
      rw [readNtoh_of_le (by rw [List.length_drop]; omega), numAt_drop, ← hzero,
        ← readNtoh_eq_ok hml]
    have htype' : readNtoh (rest.drop 48) 0 2 = .ok ofpmtOxm := by
      rw [readNtoh_of_le (by rw [List.length_drop]; omega), numAt_drop, htype]
    rw [match_nothing htype' hlength] at hmatch
    obtain ⟨rfl, rfl⟩ := Prod.mk.inj (Except.ok.inj hmatch)
    rw [hnil] at hinsts
    have hshort : sizeSub (sizeSub srcLen 48) 0 = 0 := by
      by_cases hstep : 4 ≤ sizeSub (sizeSub srcLen 48) 0
      · rw [unpackRecords_nil rfl hstep] at hinsts
        cases hinsts
      · rw [unpackRecords_short (Nat.lt_of_not_le hstep)] at hinsts
        exact (Prod.mk.inj (Except.ok.inj hinsts)).2
    have hlen : srcLen = 48 := by
      unfold sizeSub at hshort
      omega
    refine ⟨hinside, ?_, ?_, htype, ?_⟩
    · rw [← readNtoh_eq_ok hsrcLen, hlen]
    · rw [← readNtoh_eq_ok htableId]
      exact hne
    · rw [← readNtoh_eq_ok hml, hzero]
  · rintro ⟨hinside, hlen, hne, htype, hml⟩
    have hflow : ∃ s, oflStructsFlowStatsUnpack fresh rest rest.length =
        .ok (s, sizeSub rest.length 48) := by
      refine flow_unpack_iff.mpr ⟨0, 48, numAt rest 2 1, _, ⟨0, none⟩, 0, [], ?_, ?_, ?_, ?_,
        readNtoh_of_le (by omega), hne, numbersAt_of_le ?_, ?_, ?_, rfl⟩
      · rw [readNtoh_of_le (by omega), hml]
      · change 48 ≤ rest.length
        omega
      · rw [readNtoh_of_le (by omega), hlen]
      · omega
      · simp only [List.forall_mem_cons]
        refine ⟨?_, ?_, ?_, ?_, ?_, ?_, ?_, ?_, ?_, nofun⟩ <;> omega
      · refine match_nothing ?_ ?_
        · rw [readNtoh_of_le (by rw [List.length_drop]; omega), numAt_drop, htype]
        · rw [readNtoh_of_le (by rw [List.length_drop]; omega), numAt_drop, hml]
      · rw [hnil]
        exact unpackRecords_short (by decide)
    obtain ⟨s, hs⟩ := hflow
    exact ⟨_, entry_eq_ok.mpr ⟨rfl, s, hs⟩⟩

/-- Whether the loops agree, without an element that is cut. -/
theorem counts_iff_of_unpadded (hS : S.element = some E) (hpad : E.pad = id)
    (hbounded : data.length < 2 ^ 64) :
    S.Counts fresh data ↔ ∀ rs rest, E.Divided rs rest data →
      S.Fills fresh rs.length (data ++ S.behind) (data.length + S.behind.length) ∧
        ∀ len, S.decode fresh rest rest.length ≠ .ok (true, len) := by
  rw [counts_iff_of_element hS hbounded]
  exact and_iff_right (Element.not_cut hpad)

theorem decode_short_ne (hS : S.element = some E) (hband : S ≠ .meterBands)
    (hflow : S ≠ .flowStats) (h : E.Divided rs rest data) :
    ∀ len, S.decode fresh rest rest.length ≠ .ok (true, len) := by
  intro len
  obtain ⟨e, he⟩ := decode_short fresh hS hband hflow h.short
  rw [he]
  nofun

theorem counts_of_returns (hS : S.element = some E) (hpad : E.pad = id) (hband : S ≠ .meterBands)
    (hflow : S ≠ .flowStats) (hignores : S.ignores = false) (hbounded : data.length < 2 ^ 64) :
    S.Counts fresh data :=
  (counts_iff_of_unpadded hS hpad hbounded).mpr fun _ _ h =>
    ⟨fills_of_returns hband hignores, decode_short_ne hS hband hflow h⟩

theorem counts_iff_of_ignores (hS : S.element = some E) (hpad : E.pad = id)
    (hignores : S.ignores = true) (hbounded : data.length < 2 ^ 64) :
    S.Counts fresh data ↔ ∀ rs rest, E.Divided rs rest data →
      S.NoneRefused fresh rs (rest ++ S.behind) (data.length + S.behind.length) := by
  have hband : S ≠ .meterBands := fun heq => absurd hignores (heq ▸ nofun)
  have hflow : S ≠ .flowStats := fun heq => absurd hignores (heq ▸ nofun)
  rw [counts_iff_of_unpadded hS hpad hbounded]
  refine forall₃_congr fun rs rest h => ?_
  rw [fills_iff_noneRefused hS hignores h, and_iff_left (decode_short_ne hS hband hflow h)]

/-- Elements of one size are gone over in the second loop, whatever is in them. -/
theorem after_fixed {k : Nat} (hmove : ∀ src, S.move src = .ok k) (h : n * k ≤ src.length) :
    S.after n src = .ok (src.drop (n * k)) := by
  induction n generalizing src with
  | zero =>
    rw [Nat.zero_mul, List.drop_zero]
    rfl
  | succ n ih =>
    rw [Nat.succ_mul] at h
    rw [after, hmove]
    change (if src.length < k then _ else _) = _
    rw [if_neg (by omega), ih (by rw [List.length_drop]; omega), List.drop_drop,
      Nat.succ_mul, Nat.add_comm]

/-- The count of elements of one size is the quotient of the length. -/
theorem counts_of_fixed {k : Nat} (hk : 0 < k)
    (hcount : count S.counter data = .ok (data.length / k))
    (hsteady : ∀ s ∈ S.counter.states ⟨data, data.length, 0⟩, s.dataLen = s.d.length)
    (hmove : ∀ src, S.move src = .ok k) (hband : S ≠ .meterBands) (hignores : S.ignores = false)
    (hdecode : ∀ src, src.length < k → ∃ e, S.decode fresh src src.length = .error e) :
    S.Counts fresh data where
  ends := Loop.ends _ _
  inside := by
    rw [hcount]
    nofun
  steady := hsteady
  filled _ _ := fills_of_returns hband hignores
  exhausted n hn := by
    rw [hcount] at hn
    cases hn
    have hmod := Nat.mod_add_div data.length k
    have hlt := Nat.mod_lt data.length hk
    rw [Nat.mul_comm] at hmod
    refine ⟨_, after_fixed hmove (by omega), fun len => ?_⟩
    obtain ⟨e, he⟩ := hdecode (data.drop (data.length / k * k)) (by rw [List.length_drop]; omega)
    rw [he]
    nofun

theorem counts_of_quotient {k : Nat} (hk : 0 < k) (hcounter : S.counter = countQuotient k)
    (hmove : ∀ src, S.move src = .ok k) (hband : S ≠ .meterBands) (hignores : S.ignores = false)
    (hdecode : ∀ src, src.length < k → ∃ e, S.decode fresh src src.length = .error e) :
    S.Counts fresh data := by
  have hdone : (countQuotient k).pass ⟨data, data.length, 0⟩ = .ok (.inr (data.length / k)) := rfl
  refine counts_of_fixed hk ?_ ?_ hmove hband hignores hdecode
  · unfold count
    rw [hcounter]
    exact Loop.run_done hdone
  · rw [hcounter, Loop.states_stop fun s' h => absurd (hdone.symm.trans h) nofun]
    exact List.forall_mem_singleton.mpr rfl

/-- The loop over the statistics of bands counts their quotient too. -/
theorem bandStats_run (s : CountState) : s.dataLen < 2 ^ 64 →
    oflUtilsCountOfpMeterBandStats.run s = .ok (s.count + s.dataLen / 16) := by
  induction s using Loop.pass_induction (L := oflUtilsCountOfpMeterBandStats) with
  | next s s' h ih =>
    intro hbounded
    obtain ⟨hneed, rfl⟩ := bandStatsPass_eq_next.mp h
    have hlen : sizeSub s.dataLen 16 = s.dataLen - 16 := by
      unfold sizeSub
      omega
    rw [Loop.run_next h, ih (by change sizeSub s.dataLen 16 < _; omega)]
    have hcount : s.count + 1 + sizeSub s.dataLen 16 / 16 = s.count + s.dataLen / 16 := by
      rw [hlen]
      omega
    exact congrArg Except.ok hcount
  | stop s h =>
    intro _
    have hlt : ¬16 ≤ s.dataLen := fun hneed => h _ (bandStatsPass_eq_next.mpr ⟨hneed, rfl⟩)
    have hdone : oflUtilsCountOfpMeterBandStats.pass s = .ok (.inr s.count) := by
      change bandStatsPass s = _
      unfold bandStatsPass
      rw [if_neg hlt]
    have hzero : s.dataLen / 16 = 0 := by omega
    rw [Loop.run_done hdone, hzero]
    rfl

theorem bandStats_steady (hbounded : data.length < 2 ^ 64) :
    ∀ s ∈ oflUtilsCountOfpMeterBandStats.states ⟨data, data.length, 0⟩, s.Steady := by
  refine Loop.states_invariant (steady_begin hbounded 0) fun s s' hs h => ?_
  obtain ⟨hneed, rfl⟩ := bandStatsPass_eq_next.mp h
  have hdataLen := hs.dataLen
  have hlt := hs.bounded
  constructor
  · change sizeSub s.dataLen 16 = (s.d.drop 16).length
    rw [List.length_drop]
    unfold sizeSub
    omega
  · change (s.d.drop 16).length < 2 ^ 64
    rw [List.length_drop]
    omega

end DecoderLoop

/-- A counter and the loop that follows it agree on all bytes but those that do not fit. -/
theorem counts_iff (fresh : Bytes → Nat → Bytes) (S : DecoderLoop) (data : Bytes)
    (hbounded : data.length < 2 ^ 64) : S.Counts fresh data ↔ S.Fits fresh data := by
  cases S with
  | tableFeaturesProperties =>
    rw [DecoderLoop.counts_iff_of_element rfl hbounded]
    refine and_iff_left fun rs rest h => ?_
    exact ⟨DecoderLoop.fills_of_returns nofun rfl,
      DecoderLoop.decode_short_ne rfl nofun nofun h⟩
  | tableFeatures | queueProps =>
    rw [DecoderLoop.counts_iff_of_ignores rfl rfl rfl hbounded]
    refine forall₃_congr fun rs rest _ => ?_
    change DecoderLoop.NoneRefused _ fresh rs (rest ++ []) data.length ↔ _
    rw [List.append_nil]
  | packetOutActions behind => exact DecoderLoop.counts_iff_of_ignores rfl rfl rfl hbounded
  | meterBands =>
    rw [DecoderLoop.counts_iff_of_unpadded rfl rfl hbounded]
    refine forall₃_congr fun rs rest h => and_congr ?_ ?_
    · change DecoderLoop.meterBands.Fills fresh rs.length (data ++ []) data.length ↔ _
      rw [List.append_nil]
      exact DecoderLoop.band_fills_iff h hbounded
    · rw [← not_exists]
      exact not_congr (DecoderLoop.band_left_iff h.short)
  | flowStats =>
    rw [DecoderLoop.counts_iff_of_unpadded rfl rfl hbounded]
    refine forall₃_congr fun rs rest h => ?_
    have hflow : DecoderLoop.flowStats ≠ .meterBands := nofun
    rw [and_iff_right (DecoderLoop.fills_of_returns hflow rfl), ← not_exists]
    exact not_congr (DecoderLoop.flow_left_iff h.short)
  | ports | tableStats | bucketCounters | portStats | queueStats =>
    refine iff_of_true ?_ trivial
    refine DecoderLoop.counts_of_quotient (by decide) rfl (fun _ => rfl) nofun rfl ?_
    exact fun src h => ⟨_, DecoderLoop.entry_error (reject_bind h)⟩
  | meterBandStats =>
    refine iff_of_true ?_ trivial
    refine DecoderLoop.counts_of_fixed (by decide) ?_ ?_ (fun _ => rfl) nofun rfl ?_
    · exact (DecoderLoop.bandStats_run _ hbounded).trans (by rw [Nat.zero_add])
    · exact fun s hs => (DecoderLoop.bandStats_steady hbounded s hs).dataLen
    · exact fun src h => ⟨_, DecoderLoop.entry_error (reject_bind h)⟩
  | _ => exact iff_of_true (DecoderLoop.counts_of_returns rfl rfl nofun nofun rfl hbounded) trivial

/-- The first of the elements is as long as it says. -/
theorem Element.Divided.next {E : Element} {rs : List Bytes} {rest data : Bytes} {n : Nat}
    (h : E.Divided rs rest data) (hneed : E.need ≤ data.length)
    (hn : readNtoh data E.off 2 = .ok n) :
    ∃ rs', rs = data.take (E.pad n) :: rs' ∧ E.Divided rs' rest (data.drop (E.pad n)) := by
  cases h with
  | rest hlt => omega
  | @element r data rest rs n' _ hn' _ hr hdivided =>
    cases hn.symm.trans hn'
    refine ⟨rs, ?_, ?_⟩
    · rw [List.take_left' hr]
    · rwa [List.drop_left' hr]

theorem Element.Divided.done {E : Element} {rs : List Bytes} {rest data : Bytes}
    (h : E.Divided rs rest data) (hlt : data.length < E.need) : rs = [] ∧ rest = data := by
  cases h with
  | rest => exact ⟨rfl, rfl⟩
  | element hneed => omega

/-- Three meter bands, one of each type. -/
def threeBands : Bytes :=
  [0, 1, 0, 16, 0, 0, 0, 100, 0, 0, 0, 10, 0, 0, 0, 0] ++
    [0, 2, 0, 16, 0, 0, 3, 232, 0, 0, 0, 20, 1, 0, 0, 0] ++
    [255, 255, 0, 16, 0, 0, 7, 208, 0, 0, 0, 30, 0, 0, 35, 32]

theorem threeBands_counts : DecoderLoop.meterBands.Counts (fun _ _ => []) threeBands := by
  refine (counts_iff _ .meterBands _ (by decide)).mpr fun rs rest hdivided => ?_
  obtain ⟨rs₁, rfl, hdivided₁⟩ := hdivided.next (n := 16) (by decide) rfl
  obtain ⟨rs₂, rfl, hdivided₂⟩ := hdivided₁.next (n := 16) (by decide) rfl
  obtain ⟨rs₃, rfl, hdivided₃⟩ := hdivided₂.next (n := 16) (by decide) rfl
  obtain ⟨rfl, rfl⟩ := hdivided₃.done (by decide)
  refine ⟨?_, fun hleft => absurd hleft.1 (by decide)⟩
  unfold KnownBand
  decide

/-- Of a property of nine bytes the padding is not there, and the counter reads on behind it. -/
theorem padding_overread : ¬DecoderLoop.tableFeaturesProperties.Counts (fun _ _ => [])
    [0, 2, 0, 9, 1, 2, 3, 4, 5] := by
  intro h
  refine ((DecoderLoop.counts_iff_of_element rfl (by decide)).mp h).1 ?_
  exact .here (n := 9) (by decide) rfl (by decide) (by decide) (by decide)

end Sites

section Layouts

/-! ## The counters inside decoders -/

variable {E : Element} {d : Bytes} {len : Nat}

/-- Without rounding, a counter is the count of records that decoders are told by. -/
theorem Element.run_eq_count (hpad : E.pad = id) (s : CountState) : s.dataLen < 2 ^ 64 →
    E.counter.run s = ((lengthAtLayout E.off E.need E.least E.least_pos).count E.bad s.d
      s.dataLen).map (s.count + ·) := by
  induction s using Loop.pass_induction (L := E.counter) with
  | next s s' hpass ih =>
    intro hbounded
    obtain ⟨hneed, n, hn, hle, hleast, rfl⟩ := Element.pass_eq_next.mp hpass
    have hlen : sizeSub s.dataLen n = s.dataLen - n := by
      unfold sizeSub
      omega
    simp only [hpad, id_eq, hlen] at ih hpass
    rw [Loop.run_next hpass, Layout.count_cons hneed hn hle hleast, ih (by omega)]
    cases (lengthAtLayout E.off E.need E.least E.least_pos).count E.bad (s.d.drop n)
      (s.dataLen - n) with
    | error e => rfl
    | ok c =>
      change Except.ok (s.count + 1 + c) = Except.ok (s.count + (c + 1))
      rw [Nat.add_assoc, Nat.add_comm 1 c]
  | stop s hstop =>
    intro _
    by_cases hneed : E.need ≤ s.dataLen
    · cases hn : readNtoh s.d E.off 2 with
      | error e =>
        have herror : E.pass s = .error e := by
          unfold Element.pass
          rw [if_pos hneed, hn]
          rfl
        rw [Loop.run_error (L := E.counter) herror, Layout.count_error hneed hn]
        rfl
      | ok n =>
        have hbad : s.dataLen < n ∨ n < E.least := by
          by_contra hfits
          refine hstop _ (Element.pass_eq_next.mpr ⟨hneed, n, hn, ?_, ?_, rfl⟩) <;> omega
        have herror : E.pass s = .error E.bad := by
          unfold Element.pass
          rw [if_pos hneed, hn]
          exact if_pos hbad
        rw [Loop.run_error (L := E.counter) herror, Layout.count_refused hneed hn hbad]
        rfl
    · rw [Layout.count_of_lt (Nat.lt_of_not_le hneed)]
      refine Loop.run_done (L := E.counter) ?_
      change E.pass s = _
      unfold Element.pass
      rw [if_neg hneed]
      rfl

/-- The counter of actions is the one by which their decoders count. -/
theorem actions_run_eq (h : len < 2 ^ 64) :
    oflUtilsCountOfpActions.run ⟨d, len, 0⟩ = Ofl.oflUtilsCountOfpActions d len := by
  rw [oflUtilsCountOfpActions_eq]
  refine (Element.run_eq_count (E := actions) rfl ⟨d, len, 0⟩ h).trans ?_
  change (actionLayout.count (.oflError ofpetBadAction ofpbacBadLen) d len).map (0 + ·) = _
  cases actionLayout.count (.oflError ofpetBadAction ofpbacBadLen) d len with
  | error e => rfl
  | ok n => exact congrArg Except.ok (Nat.zero_add n)

end Layouts

end Nox.Ofl.Counting

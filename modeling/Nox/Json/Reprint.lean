import Nox.Json.Reread

/-!
# Which documents are printed so that they can be read again

`get_string` escapes nothing, drops a brace of an empty dictionary and prints a float
with six significant digits.  A document comes back from its text when its strings
need no escape, it has no empty dictionary and its floats survive the printing; and
no other document does, whatever its text happens to be read as.
-/

namespace Nox.Json

open Lib (Binary32 sixDigits PrintsInteger)
open Lib.Json

section Same

/-! ## The same document -/

theorem sameEntries_iff {es fs : List (List Char × Document)} :
    SameEntries es fs ↔ ∀ e ∈ es, ∃ y, fs.lookup e.1 = some y ∧ e.2.Same y := by
  induction es with
  | nil => simp [SameEntries]
  | cons e es ih => simp [SameEntries, ih]

theorem mem_of_lookup {es : List (List Char × Document)} {k : List Char} {y : Document}
    (h : es.lookup k = some y) : (k, y) ∈ es := by
  obtain ⟨l₁, l₂, rfl, -⟩ := List.lookup_eq_some_iff.mp h
  exact List.mem_append_right l₁ List.mem_cons_self

theorem elemsWeight_le {xs ys : List Document} (hxs : ∀ x ∈ xs, ∀ y, x.Same y → x.weight ≤ y.weight)
    (h : SameElems xs ys) : elemsWeight xs ≤ elemsWeight ys := by
  induction xs generalizing ys with
  | nil => exact Nat.zero_le _
  | cons x xs ih =>
    cases ys with
    | nil => exact h.elim
    | cons y ys =>
      exact Nat.add_le_add (hxs x List.mem_cons_self y h.1)
        (ih (fun z hz => hxs z (List.mem_cons_of_mem x hz)) h.2)

/-- The entries with the keys of a dictionary are among those of the other. -/
theorem entriesWeight_le {es fs : List (List Char × Document)}
    (hes : ∀ e ∈ es, ∀ y, e.2.Same y → e.2.weight ≤ y.weight)
    (hnodup : (es.map Prod.fst).Nodup) (h : SameEntries es fs) :
    entriesWeight es ≤ entriesWeight fs := by
  induction es generalizing fs with
  | nil => exact Nat.zero_le _
  | cons e es ih =>
    obtain ⟨k, x⟩ := e
    obtain ⟨⟨y, hy, hsame⟩, hrest⟩ := h
    obtain ⟨hk, hnodup'⟩ := List.nodup_cons.mp hnodup
    obtain ⟨l₁, l₂, rfl, -⟩ := List.lookup_eq_some_iff.mp hy
    have hx : x.weight ≤ y.weight := hes _ List.mem_cons_self y hsame
    have hrest' : SameEntries es (l₁ ++ l₂) := by
      rw [sameEntries_iff] at hrest ⊢
      intro e he
      obtain ⟨z, hz, hsame'⟩ := hrest e he
      refine ⟨z, ?_, hsame'⟩
      have hne : e.1 ≠ k := by
        rintro rfl
        exact hk (List.mem_map.mpr ⟨e, he, rfl⟩)
      rw [List.lookup_append] at hz ⊢
      rwa [List.lookup_cons, beq_false_of_ne hne] at hz
    have hle := ih (fun z hz => hes z (List.mem_cons_of_mem _ hz)) hnodup' hrest'
    rw [entriesWeight_append] at hle ⊢
    simp only [entriesWeight]
    omega

/-- The strings of a document are in every document that is the same. -/
theorem Document.Same.weight_le {v w : Document} (hkeys : v.All Document.KeysNodup)
    (h : v.Same w) : v.weight ≤ w.weight := by
  induction v using Document.induct generalizing w with
  | array xs ih =>
    cases w with
    | array ys =>
      have hall := allElems_iff.mp hkeys.2
      exact elemsWeight_le (fun x hx y hxy => ih x hx (hall x hx) hxy) h
    | _ => exact h.elim
  | dict es ih =>
    cases w with
    | dict fs =>
      have hall := allEntries_iff.mp hkeys.2
      exact entriesWeight_le (fun e he y hey => ih e he (hall e he) hey) hkeys.1 h.2
    | _ => exact h.elim
  | string s =>
    cases w with
    | string t =>
      rw [show s = t from h]
    | _ => exact h.elim
  | _ => exact Nat.zero_le _

theorem Document.Same.clean {v w : Document} (h : v.Same w) (hw : w.All Document.CleanStrings) :
    v.All Document.CleanStrings := by
  induction v using Document.induct generalizing w with
  | array xs ih =>
    cases w with
    | array ys =>
      refine ⟨trivial, ?_⟩
      have hys := hw.2
      replace h : SameElems xs ys := h
      clear hw
      induction xs generalizing ys with
      | nil => trivial
      | cons x xs ihxs =>
        cases ys with
        | nil => exact h.elim
        | cons y ys =>
          exact ⟨ih x List.mem_cons_self h.1 hys.1,
            ihxs (fun z hz => ih z (List.mem_cons_of_mem x hz)) ys hys.2 h.2⟩
    | _ => exact h.elim
  | dict es ih =>
    cases w with
    | dict fs =>
      have hentries := sameEntries_iff.mp h.2
      refine ⟨fun e he => ?_, allEntries_iff.mpr fun e he => ?_⟩
      · obtain ⟨y, hy, -⟩ := hentries e he
        exact hw.1 (e.1, y) (mem_of_lookup hy)
      · obtain ⟨y, hy, hsame⟩ := hentries e he
        exact ih e he hsame (allEntries_iff.mp hw.2 _ (mem_of_lookup hy))
    | _ => exact h.elim
  | string s =>
    cases w with
    | string t =>
      rw [show s = t from h]
      exact hw
    | _ => exact h.elim
  | _ => trivial

end Same

section Floats

/-! ## Floats -/

/-- Of the number with six significant digits next to the float it is the nearest
float, and that number is no integer below a million. -/
def Faithful : Binary32 → Prop
  | .finite neg mant exp h =>
    ¬PrintsInteger (sixDigits neg mant exp) ∧
      Binary32.ofDecimal (sixDigits neg mant exp) = .finite neg mant exp h
  | .infinite _ => False

def Document.FaithfulFloat : Document → Prop
  | .float f => Faithful f
  | _ => True

theorem reread_float_iff (f : Binary32) :
    (Document.float f).Same (Document.float f).reread ↔ Faithful f := by
  cases f with
  | infinite neg => cases neg <;> exact ⟨fun h => h, fun h => h⟩
  | finite neg mant exp hcanonical =>
    obtain ⟨t, ht, hint, hfloat⟩ := Lib.wordToken_decimal (sixDigits neg mant exp)
    have hread : (Document.float (.finite neg mant exp hcanonical)).reread = tokenDocument t := by
      rw [Document.reread, Binary32.print, ht]
      rfl
    rw [hread]
    by_cases hprints : PrintsInteger (sixDigits neg mant exp)
    · obtain ⟨n, rfl⟩ := hint hprints
      exact ⟨fun h => h.elim, fun h => absurd hprints h.1⟩
    · rw [hfloat hprints]
      exact ⟨fun h => ⟨hprints, Eq.symm h⟩, fun h => Eq.symm h.2⟩

theorem lookup_entriesReread {es : List (List Char × Document)} (hnodup : (es.map Prod.fst).Nodup)
    {e : List Char × Document} (he : e ∈ es) :
    (entriesReread es).lookup e.1 = some e.2.reread := by
  induction es with
  | nil => cases he
  | cons d es ih =>
    obtain ⟨k, x⟩ := d
    obtain ⟨hk, hnodup'⟩ := List.nodup_cons.mp hnodup
    rcases List.mem_cons.mp he with rfl | hmem
    · simp [entriesReread]
    · have hne : e.1 ≠ k := by
        rintro rfl
        exact hk (List.mem_map.mpr ⟨e, hmem, rfl⟩)
      rw [entriesReread, List.lookup_cons, beq_false_of_ne hne]
      exact ih hnodup' hmem

theorem length_entriesReread (es : List (List Char × Document)) :
    (entriesReread es).length = es.length := by
  have hkeys := congrArg List.length (keys_entriesReread es)
  simpa using hkeys

theorem sameElems_reread {xs : List Document} {p : Document → Prop}
    (h : ∀ x ∈ xs, (x.Same x.reread ↔ x.All p)) :
    SameElems xs (elemsReread xs) ↔ AllElems p xs := by
  induction xs with
  | nil => exact Iff.rfl
  | cons x xs ih =>
    exact and_congr (h x List.mem_cons_self) (ih fun z hz => h z (List.mem_cons_of_mem x hz))

/-- A document is what is read for it when its floats are. -/
theorem same_reread_iff {v : Document} (hkeys : v.All Document.KeysNodup) :
    v.Same v.reread ↔ v.All Document.FaithfulFloat := by
  induction v using Document.induct with
  | array xs ih =>
    have hall := allElems_iff.mp hkeys.2
    refine (sameElems_reread fun x hx => ih x hx (hall x hx)).trans ?_
    exact ⟨fun h => ⟨trivial, h⟩, fun h => h.2⟩
  | dict es ih =>
    have hall := allEntries_iff.mp hkeys.2
    have hentries : SameEntries es (entriesReread es) ↔
        AllEntries Document.FaithfulFloat es := by
      rw [sameEntries_iff, allEntries_iff]
      refine forall₂_congr fun e he => ?_
      rw [lookup_entriesReread hkeys.1 he, ← ih e he (hall e he)]
      constructor
      · rintro ⟨y, hy, hsame⟩
        cases hy
        exact hsame
      · exact fun hsame => ⟨_, rfl, hsame⟩
    constructor
    · exact fun h => ⟨trivial, hentries.mp h.2⟩
    · exact fun h => ⟨(length_entriesReread es).symm, hentries.mpr h.2⟩
  | integer n => exact ⟨fun _ => trivial, fun _ => rfl⟩
  | float f => exact reread_float_iff f
  | null => exact Iff.rfl
  | boolean b => exact ⟨fun _ => trivial, fun _ => rfl⟩
  | string s => exact ⟨fun _ => trivial, fun _ => rfl⟩

theorem exists_elemsTokens {xs : List Document} (h : ∀ x ∈ xs, ∃ ts, x.tokens = some ts) :
    ∃ ts, elemsTokens xs = some ts := by
  induction xs with
  | nil => exact ⟨[], rfl⟩
  | cons x xs ih =>
    obtain ⟨us, hus⟩ := h x List.mem_cons_self
    cases xs with
    | nil => exact ⟨us, hus⟩
    | cons y ys =>
      obtain ⟨vs, hvs⟩ := ih fun z hz => h z (List.mem_cons_of_mem x hz)
      refine ⟨us ++ .comma :: vs, ?_⟩
      rw [elemsTokens, hus, Option.bind_some, hvs]
      rfl

theorem exists_entriesTokens {es : List (List Char × Document)}
    (h : ∀ e ∈ es, ∃ ts, e.2.tokens = some ts) : ∃ ts, entriesTokens es = some ts := by
  induction es with
  | nil => exact ⟨[], rfl⟩
  | cons e es ih =>
    obtain ⟨k, x⟩ := e
    obtain ⟨us, hus⟩ := h _ List.mem_cons_self
    cases es with
    | nil =>
      refine ⟨.string k :: .colon :: us, ?_⟩
      rw [entriesTokens, hus]
      rfl
    | cons e es =>
      obtain ⟨vs, hvs⟩ := ih fun z hz => h z (List.mem_cons_of_mem _ hz)
      refine ⟨.string k :: .colon :: (us ++ .comma :: vs), ?_⟩
      rw [entriesTokens, hus, Option.bind_some, hvs]
      rfl

/-- The text of a document without infinities has tokens. -/
theorem exists_tokens {v : Document} (h : v.All Document.FaithfulFloat) :
    ∃ ts, v.tokens = some ts := by
  induction v using Document.induct with
  | array xs ih =>
    have hall := allElems_iff.mp h.2
    obtain ⟨ts, hts⟩ := exists_elemsTokens fun x hx => ih x hx (hall x hx)
    refine ⟨.leftBracket :: (ts ++ [.rightBracket]), ?_⟩
    rw [Document.tokens, hts]
    rfl
  | dict es ih =>
    cases es with
    | nil => exact ⟨_, rfl⟩
    | cons e es =>
      have hall := allEntries_iff.mp h.2
      obtain ⟨ts, hts⟩ := exists_entriesTokens fun e he => ih e he (hall e he)
      refine ⟨.leftBrace :: (ts ++ [.rightBrace]), ?_⟩
      rw [Document.tokens, hts]
      rfl
  | float f =>
    cases f with
    | infinite neg => exact h.elim
    | finite neg mant exp hcanonical =>
      obtain ⟨t, ht, -⟩ := Lib.wordToken_decimal (sixDigits neg mant exp)
      refine ⟨[t], ?_⟩
      rw [Document.tokens, Binary32.print, ht]
      rfl
  | integer n => exact ⟨_, rfl⟩
  | null => exact ⟨_, rfl⟩
  | boolean b => exact ⟨_, rfl⟩
  | string s => exact ⟨_, rfl⟩

end Floats

section Braces

/-! ## Braces -/

/-- An empty dictionary is a right brace too many. -/
def Balanced (v : Document) : Prop :=
  ∀ ts, v.tokens = some ts → braces ts ≤ 0 ∧ (braces ts = 0 → v.All Document.NonemptyDict)

theorem balanced_elems {xs : List Document} (h : ∀ x ∈ xs, Balanced x) {ts : List Token}
    (hts : elemsTokens xs = some ts) :
    braces ts ≤ 0 ∧ (braces ts = 0 → AllElems Document.NonemptyDict xs) := by
  induction xs generalizing ts with
  | nil =>
    cases hts
    exact ⟨Int.le_refl 0, fun _ => trivial⟩
  | cons x xs ih =>
    have hx := h x List.mem_cons_self
    cases xs with
    | nil =>
      obtain ⟨hle, hzero⟩ := hx ts hts
      exact ⟨hle, fun h => ⟨hzero h, trivial⟩⟩
    | cons y ys =>
      obtain ⟨us, vs, hus, hvs, rfl⟩ := elemsTokens_cons hts
      obtain ⟨hle, hzero⟩ := hx us hus
      obtain ⟨hle', hzero'⟩ := ih (fun z hz => h z (List.mem_cons_of_mem x hz)) hvs
      have hcomma : braces [.comma] = 0 := rfl
      rw [braces_append, braces_cons, hcomma]
      exact ⟨by omega, fun hsum => ⟨hzero (by omega), hzero' (by omega)⟩⟩

theorem balanced_entries {es : List (List Char × Document)} (h : ∀ e ∈ es, Balanced e.2)
    {ts : List Token} (hts : entriesTokens es = some ts) :
    braces ts ≤ 0 ∧ (braces ts = 0 → AllEntries Document.NonemptyDict es) := by
  induction es generalizing ts with
  | nil =>
    cases hts
    exact ⟨Int.le_refl 0, fun _ => trivial⟩
  | cons e es ih =>
    obtain ⟨k, x⟩ := e
    have hx : Balanced x := h _ List.mem_cons_self
    have hkey : braces [.string k] = 0 := rfl
    have hcolon : braces [.colon] = 0 := rfl
    cases es with
    | nil =>
      obtain ⟨us, hus, rfl⟩ := Option.map_eq_some_iff.mp hts
      obtain ⟨hle, hzero⟩ := hx us hus
      rw [braces_cons, hkey, braces_cons, hcolon]
      exact ⟨by omega, fun hsum => ⟨hzero (by omega), trivial⟩⟩
    | cons e es =>
      obtain ⟨us, vs, hus, hvs, rfl⟩ := entriesTokens_cons hts
      obtain ⟨hle, hzero⟩ := hx us hus
      obtain ⟨hle', hzero'⟩ := ih (fun z hz => h z (List.mem_cons_of_mem _ hz)) hvs
      have hcomma : braces [.comma] = 0 := rfl
      rw [braces_cons, hkey, braces_cons, hcolon, braces_append, braces_cons, hcomma]
      exact ⟨by omega, fun hsum => ⟨hzero (by omega), hzero' (by omega)⟩⟩

theorem balanced (v : Document) : Balanced v := by
  induction v using Document.induct with
  | array xs ih =>
    intro ts hts
    obtain ⟨us, hus, rfl⟩ := Option.map_eq_some_iff.mp hts
    obtain ⟨hle, hzero⟩ := balanced_elems ih hus
    have hleft : braces [.leftBracket] = 0 := rfl
    have hright : braces [.rightBracket] = 0 := rfl
    rw [braces_cons, hleft, braces_append, hright]
    exact ⟨by omega, fun hsum => ⟨trivial, hzero (by omega)⟩⟩
  | dict es ih =>
    intro ts hts
    have hright : braces [.rightBrace] = -1 := rfl
    cases es with
    | nil =>
      cases hts
      rw [hright]
      exact ⟨by decide, nofun⟩
    | cons e es =>
      obtain ⟨us, hus, rfl⟩ := Option.map_eq_some_iff.mp hts
      obtain ⟨hle, hzero⟩ := balanced_entries ih hus
      have hleft : braces [.leftBrace] = 1 := rfl
      rw [braces_cons, hleft, braces_append, hright]
      exact ⟨by omega, fun hsum => ⟨List.cons_ne_nil e es, hzero (by omega)⟩⟩
  | float f =>
    intro ts hts
    obtain ⟨t, ht, rfl⟩ := Option.map_eq_some_iff.mp hts
    obtain ⟨e, he⟩ := scalar_wordToken ht
    rw [braces_scalar he]
    exact ⟨Int.le_refl 0, fun _ => trivial⟩
  | boolean b =>
    intro ts hts
    cases hts
    cases b <;> exact ⟨Int.le_refl 0, fun _ => trivial⟩
  | integer n => intro ts hts; cases hts; exact ⟨Int.le_refl 0, fun _ => trivial⟩
  | null => intro ts hts; cases hts; exact ⟨Int.le_refl 0, fun _ => trivial⟩
  | string s => intro ts hts; cases hts; exact ⟨Int.le_refl 0, fun _ => trivial⟩

theorem braces_run {limit : Nat} {ts : List Token} {r r' : Reader} {b b' : Builder}
    (hrun : ts.foldlM (consume limit) (r, b) = some (r', b')) :
    (r'.stack.count false : Int) = r.stack.count false + braces ts := by
  induction ts generalizing r b with
  | nil =>
    cases hrun
    simp [braces]
  | cons t ts ih =>
    obtain ⟨⟨r₁, b₁⟩, hstep, hrest⟩ := Option.bind_eq_some_iff.mp hrun
    obtain ⟨⟨r₂, es⟩, hread, heq⟩ := Option.map_eq_some_iff.mp hstep
    cases heq
    rw [ih hrest, (readStep_cases hread).braces, braces_cons t ts, Int.add_assoc]

end Braces

section Reprint

/-! ## The way there and back -/

/-- A value that is somewhere in a document. -/
inductive Document.Part : Document → Document → Prop
  | refl (v) : Part v v
  | elem {w x xs} (hx : x ∈ xs) (h : Part w x) : Part w (.array xs)
  | entry {w e es} (he : e ∈ es) (h : Part w e.2) : Part w (.dict es)

theorem Document.Part.all {p : Document → Prop} {w v : Document} (h : w.Part v) (hv : v.All p) :
    w.All p := by
  induction h with
  | refl => exact hv
  | elem hx _ ih => exact ih (allElems_iff.mp hv.2 _ hx)
  | entry he _ ih => exact ih (allEntries_iff.mp hv.2 _ he)

theorem depth_le_elemsDepth {xs : List Document} {x : Document} (h : x ∈ xs) :
    x.depth ≤ elemsDepth xs := by
  obtain ⟨l₁, l₂, rfl⟩ := List.append_of_mem h
  rw [elemsDepth_append, elemsDepth]
  omega

theorem depth_le_entriesDepth {es : List (List Char × Document)} {e : List Char × Document}
    (h : e ∈ es) : e.2.depth ≤ entriesDepth es := by
  obtain ⟨l₁, l₂, rfl⟩ := List.append_of_mem h
  rw [entriesDepth_append, entriesDepth]
  omega

theorem Document.Part.depth_le {w v : Document} (h : w.Part v) : w.depth ≤ v.depth := by
  induction h with
  | refl => exact Nat.le_refl _
  | elem hx _ ih => exact Nat.le_succ_of_le (Nat.le_trans ih (depth_le_elemsDepth hx))
  | entry he _ ih => exact Nat.le_succ_of_le (Nat.le_trans ih (depth_le_entriesDepth he))

/-- Its strings need no escape, none of its dictionaries is empty, and its floats are
what is read for them. -/
def Document.Reprintable (v : Document) : Prop :=
  v.All fun x => x.CleanStrings ∧ x.NonemptyDict ∧ x.FaithfulFloat

/-- The text of a reprintable document builds what is read for it. -/
theorem build_text {depth : Nat} {v : Document} (hkeys : v.All Document.KeysNodup)
    (hdepth : v.depth ≤ depth - 1) (hcontainer : v.IsContainer)
    (hclean : v.All Document.CleanStrings) (hdict : v.All Document.NonemptyDict)
    {ts : List Token} (hts : v.tokens = some ts) : build depth v.text = some v.reread := by
  obtain ⟨k, hrun⟩ := rereads (depth - 1) (hclean.and (hkeys.and hdict)) ts .start []
    .init hts (.inr (.inr ⟨rfl, hcontainer⟩)) (by rw [List.length_nil]; omega)
  exact build_eq_some.mpr ⟨ts, _, (lex_text hclean).trans hts, hrun, rfl⟩

/-- What comes back as the same has been reprintable. -/
theorem reprintable_of_same {depth : Nat} {v w : Document} (hkeys : v.All Document.KeysNodup)
    (hdepth : v.depth ≤ depth - 1) (hcontainer : v.IsContainer)
    (hbuild : build depth v.text = some w) (hsame : v.Same w) : v.Reprintable := by
  obtain ⟨-, -, -, ts, hts, hweight, hcleanOf⟩ := build_spec hbuild
  have hclean : v.All Document.CleanStrings := by
    -- a string that needs an escape makes the text heavier than what it is read as
    obtain ⟨-, hlt | hall⟩ := lexFrom_weight hts
    · have hle := hsame.weight_le hkeys
      rw [weight_text] at hlt
      have hzero : Lex.between.weight = 0 := rfl
      omega
    · exact hsame.clean (hcleanOf (hall trivial))
  rw [lex_text hclean] at hts
  have hdict : v.All Document.NonemptyDict := by
    obtain ⟨us, b, hus, hrun, -⟩ := build_eq_some.mp hbuild
    rw [lex_text hclean, hts] at hus
    cases hus
    have hzero : braces ts = 0 := by simpa using (braces_run hrun).symm
    exact (balanced v ts hts).2 hzero
  have hreread := build_text hkeys hdepth hcontainer hclean hdict hts
  rw [hbuild] at hreread
  cases hreread
  exact hclean.and (hdict.and ((same_reread_iff hkeys).mp hsame))

/-- A value of a document that has been built comes back from its text when it is
`null`, which every text gives that is refused, or reprintable, and not otherwise. -/
theorem reprint_iff {depth : Nat} {str : List Char} {v w : Document}
    (h : build depth str = some v) (hw : w.Part v) :
    w.Same (jsonObject depth w.text) ↔ w = .null ∨ w.IsContainer ∧ w.Reprintable := by
  obtain ⟨hdepth, -, hkeys, -⟩ := build_spec h
  replace hkeys := hw.all hkeys
  replace hdepth := Nat.le_trans hw.depth_le hdepth
  constructor
  · intro hsame
    cases hbuild : build depth w.text with
    | none =>
      rw [jsonObject, hbuild] at hsame
      cases w with
      | null => exact .inl rfl
      | _ => exact hsame.elim
    | some u =>
      rw [jsonObject, hbuild, Option.getD_some] at hsame
      obtain ⟨-, hcontainer, -⟩ := build_spec hbuild
      have hw' : w.IsContainer := by
        cases w with
        | array xs => trivial
        | dict es => trivial
        | _ => cases u <;> first | exact hsame.elim | exact hcontainer.elim
      exact .inr ⟨hw', reprintable_of_same hkeys hdepth hw' hbuild hsame⟩
  · rintro (rfl | ⟨hcontainer, hreprintable⟩)
    · cases hbuild : build depth Document.null.text with
      | none =>
        rw [jsonObject, hbuild]
        trivial
      | some u =>
        obtain ⟨ts, b, hts, hrun, -⟩ := build_eq_some.mp hbuild
        cases hts
        cases hrun
    · have hclean : w.All Document.CleanStrings := hreprintable.mono fun _ h => h.1
      have hdict : w.All Document.NonemptyDict := hreprintable.mono fun _ h => h.2.1
      have hfloats : w.All Document.FaithfulFloat := hreprintable.mono fun _ h => h.2.2
      obtain ⟨ts, hts⟩ := exists_tokens hfloats
      rw [jsonObject, build_text hkeys hdepth hcontainer hclean hdict hts, Option.getD_some]
      exact (same_reread_iff hkeys).mpr hfloats

/-- `{"a":[7,"x"]}` -/
def nestedText : List Char :=
  ['\x7b', '"', 'a', '"', ':', '[', '7', ',', '"', 'x', '"', ']', '\x7d']

theorem reprint_iff_nested :
    (Document.array [.integer 7, .string ['x']]).Same
        (jsonObject 20 (Document.array [.integer 7, .string ['x']]).text) ↔
      Document.array [.integer 7, .string ['x']] = .null ∨
        (Document.array [.integer 7, .string ['x']]).IsContainer ∧
          (Document.array [.integer 7, .string ['x']]).Reprintable := by
  have hbuild : build 20 nestedText =
      some (.dict [(['a'], .array [.integer 7, .string ['x']])]) := rfl
  exact reprint_iff hbuild (.entry List.mem_cons_self (.refl _))

/-- `{"a":{}}` is printed as `{"a":}}`. -/
theorem empty_dict_lost :
    build 20 ['\x7b', '"', 'a', '"', ':', '\x7b', '\x7d', '\x7d'] =
        some (.dict [(['a'], .dict [])]) ∧
      (Document.dict [(['a'], .dict [])]).text = ['\x7b', '"', 'a', '"', ':', '\x7d', '\x7d'] ∧
      ¬(Document.dict [(['a'], .dict [])]).Same
        (jsonObject 20 (Document.dict [(['a'], .dict [])]).text) := by
  have htext : (Document.dict [(['a'], .dict [])]).text =
      ['\x7b', '"', 'a', '"', ':', '\x7d', '\x7d'] := by
    rw [text_dict_cons, entriesText_singleton, text_dict_nil]
    rfl
  refine ⟨rfl, htext, ?_⟩
  have hnull : jsonObject 20 ['\x7b', '"', 'a', '"', ':', '\x7d', '\x7d'] = .null := rfl
  rw [htext, hnull]
  exact fun h => h

end Reprint

end Nox.Json

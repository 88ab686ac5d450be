import Mathlib.Algebra.GroupWithZero.Nat
import Nox.Lib.JsonText

/-!
# How texts are read

A numeral, a word and a string of ordinary characters are read as what they are, and
what follows them is read as if it stood alone.  Where a string token has a character
that needs an escape, the text is heavier than its tokens.
-/

namespace Nox.Lib.Json

section Numerals

/-! ## Numerals -/

def AllDigits (ds : List Char) : Prop :=
  ds ≠ [] ∧ ∀ c ∈ ds, c.isDigit = true

structure Numeral.Valid (n : Numeral) : Prop where
  int : AllDigits n.int
  zero : n.int.head? = some '0' → n.int.length = 1
  frac : ∀ ds, n.frac = some ds → AllDigits ds
  exp : ∀ e, n.exp = some e → AllDigits e.2

theorem digits1_append {ds r : List Char} (h : AllDigits ds)
    (hr : ∀ c, r.head? = some c → c.isDigit = false) : digits1 (ds ++ r) = some (ds, r) := by
  have htake : ∀ l : List Char, (∀ c ∈ l, c.isDigit = true) →
      spanDigits (l ++ r) = (l, r) := by
    intro l hl
    unfold spanDigits
    rw [List.takeWhile_append_of_pos hl, List.dropWhile_append_of_pos hl]
    cases r with
    | nil => simp
    | cons c cs =>
      have hc := hr c rfl
      simp [hc]
  unfold digits1
  rw [htake ds h.2]
  cases ds with
  | nil => exact absurd rfl h.1
  | cons c cs => rfl

/-- The digits come first, then a point, an `e` or nothing. -/
theorem head_frac_exp (frac : Option (List Char)) (exp : Option (Bool × List Char)) {c : Char}
    (h : (frac.elim [] (fun ds => '.' :: ds) ++
      exp.elim [] fun e => 'e' :: (if e.1 then '-' else '+') :: e.2).head? = some c) :
    c.isDigit = false := by
  cases frac with
  | some ds => cases h; decide
  | none =>
    cases exp with
    | some e => cases h; decide
    | none => cases h

theorem readExp_text {exp : Option (Bool × List Char)} (h : ∀ e, exp = some e → AllDigits e.2) :
    readExp (exp.elim [] fun e => 'e' :: (if e.1 then '-' else '+') :: e.2) = some (exp, []) := by
  cases exp with
  | none => rfl
  | some e =>
    obtain ⟨neg, ds⟩ := e
    have hds := digits1_append (r := []) (h _ rfl) nofun
    rw [List.append_nil] at hds
    cases neg with
    | true => simp [readExp, readExpSign, hds]
    | false => simp [readExp, readExpSign, hds]

/-- A numeral is read as it was written. -/
theorem readNumeral_text {n : Numeral} (h : n.Valid) : readNumeral n.text = some n := by
  obtain ⟨neg, int, frac, exp⟩ := n
  obtain ⟨hint, hzero, hfrac, hexp⟩ := h
  simp only at hint hzero hfrac hexp
  have hsign : readSign (Numeral.text ⟨neg, int, frac, exp⟩) =
      (neg, int ++ (frac.elim [] (fun ds => '.' :: ds) ++
        exp.elim [] fun e => 'e' :: (if e.1 then '-' else '+') :: e.2)) := by
    cases neg with
    | true => simp [Numeral.text, readSign]
    | false =>
      cases int with
      | nil => exact absurd rfl hint.1
      | cons c cs =>
        have hc : c ≠ '-' := by
          rintro rfl
          exact absurd (hint.2 '-' List.mem_cons_self) (by decide)
        simp only [Numeral.text, Bool.false_eq_true, if_false, List.nil_append,
          List.append_assoc, List.cons_append]
        unfold readSign
        split
        · next heq =>
          cases heq
          exact absurd rfl hc
        · rfl
  have hdigits := digits1_append hint fun _ => head_frac_exp frac exp
  have hread : readFrac (frac.elim [] (fun ds => '.' :: ds) ++
      exp.elim [] fun e => 'e' :: (if e.1 then '-' else '+') :: e.2) =
      some (frac, exp.elim [] fun e => 'e' :: (if e.1 then '-' else '+') :: e.2) := by
    cases frac with
    | none =>
      cases exp with
      | none => rfl
      | some e => rfl
    | some ds =>
      have hds := digits1_append (hfrac ds rfl) fun _ => head_frac_exp none exp
      simp only [Option.elim_none, List.nil_append] at hds
      simp [readFrac, hds]
  have hlead : ¬(int.head? = some '0' ∧ int.length ≠ 1) := fun hlead =>
    hlead.2 (hzero hlead.1)
  unfold readNumeral
  simp only [hsign, hdigits, hread, readExp_text hexp, hlead, Option.bind_eq_bind,
    Option.bind_some, if_false, if_true]

theorem isWordChar_of_isDigit {c : Char} (h : c.isDigit = true) : isWordChar c = true := by
  simp [isWordChar, h]

/-- The characters of a numeral. -/
theorem Numeral.Valid.mem_text {n : Numeral} (h : n.Valid) {c : Char} (hc : c ∈ n.text) :
    c.isDigit = true ∨ c ∈ ['-', '.', 'e', '+'] := by
  simp only [Numeral.text, List.mem_append] at hc
  rcases hc with ((hc | hc) | hc) | hc
  · split at hc
    · rw [List.mem_singleton.mp hc]
      decide
    · cases hc
  · exact .inl (h.int.2 c hc)
  · cases hfrac : n.frac with
    | none => rw [hfrac] at hc; cases hc
    | some ds =>
      rw [hfrac] at hc
      rcases List.mem_cons.mp hc with rfl | hc
      · decide
      · exact .inl ((h.frac ds hfrac).2 c hc)
  · cases hexp : n.exp with
    | none => rw [hexp] at hc; cases hc
    | some e =>
      rw [hexp] at hc
      rcases List.mem_cons.mp hc with rfl | hc
      · decide
      · rcases List.mem_cons.mp hc with rfl | hc
        · split <;> decide
        · exact .inl ((h.exp e hexp).2 c hc)

/-- A numeral is a word. -/
theorem Numeral.Valid.isWordChar {n : Numeral} (h : n.Valid) {c : Char} (hc : c ∈ n.text) :
    isWordChar c = true := by
  rcases h.mem_text hc with hdigit | hmem
  · exact isWordChar_of_isDigit hdigit
  · simp only [List.mem_cons, List.not_mem_nil, or_false] at hmem
    rcases hmem with rfl | rfl | rfl | rfl <;> decide

theorem Numeral.Valid.text_ne_nil {n : Numeral} (h : n.Valid) : n.text ≠ [] := by
  intro hnil
  simp only [Numeral.text, List.append_eq_nil_iff] at hnil
  exact h.int.1 hnil.1.1.2

end Numerals

section Reading

/-! ## Words and strings -/

/-- A character that stands in a string as it is. -/
def CleanChar (c : Char) : Prop :=
  c ≠ '"' ∧ c ≠ '\\' ∧ 0x20 ≤ c.toNat

instance (c : Char) : Decidable (CleanChar c) :=
  inferInstanceAs (Decidable (_ ∧ _ ∧ _))

/-- A string without a character that needs an escape. -/
def Clean (s : List Char) : Prop :=
  ∀ c ∈ s, CleanChar c

/-- What may follow a word. -/
def EndsWord (r : List Char) : Prop :=
  ∀ c, r.head? = some c → isWordChar c = false

theorem startToken_word {c : Char} (h : isWordChar c = true) :
    startToken c = some (.word [c], []) := by
  have hquote : c ≠ '"' := by rintro rfl; exact absurd h (by decide)
  have hslash : c ≠ '/' := by rintro rfl; exact absurd h (by decide)
  have hspace : isSpace c = false := by
    rw [Bool.eq_false_iff]
    intro hs
    simp only [isSpace, Bool.or_eq_true, decide_eq_true_eq] at hs
    rcases hs with ((rfl | rfl) | rfl) | rfl <;> exact absurd h (by decide)
  simp [startToken, hquote, hslash, hspace, h]

theorem lexFrom_word {w : List Char} (hw : ∀ c ∈ w, isWordChar c = true) (acc r : List Char)
    (hr : EndsWord r) :
    lexFrom (.word acc) (w ++ r) = (wordToken (acc ++ w)).bind fun t =>
      (lexFrom .between r).map fun ts => t :: ts := by
  induction w generalizing acc with
  | nil =>
    rw [List.nil_append, List.append_nil]
    cases r with
    | nil =>
      simp only [lexFrom]
      cases wordToken acc <;> rfl
    | cons c cs =>
      have hc := hr c rfl
      simp only [lexFrom, lexStep, hc, Bool.false_eq_true, if_false]
      cases wordToken acc with
      | none => rfl
      | some t =>
        cases hstart : startToken c with
        | none => rfl
        | some p =>
          simp only [Option.bind_eq_bind, Option.bind_some, Option.pure_def, Option.map_bind]
          cases lexFrom p.1 cs <;> rfl
  | cons c w ih =>
    have hc := hw c List.mem_cons_self
    have hrest := ih (fun d hd => hw d (List.mem_cons_of_mem c hd)) (acc ++ [c])
    rw [List.append_assoc, List.singleton_append] at hrest
    simp only [List.cons_append, lexFrom, lexStep, hc, if_true, Option.bind_eq_bind,
      Option.bind_some, Option.pure_def, List.nil_append]
    rw [hrest]
    cases wordToken (acc ++ c :: w) with
    | none => rfl
    | some t => cases lexFrom .between r <;> rfl

/-- A word is read as one token. -/
theorem lexFrom_between_word {w : List Char} (hne : w ≠ [])
    (hw : ∀ c ∈ w, isWordChar c = true) {r : List Char} (hr : EndsWord r) :
    lexFrom .between (w ++ r) = (wordToken w).bind fun t =>
      (lexFrom .between r).map fun ts => t :: ts := by
  cases w with
  | nil => exact absurd rfl hne
  | cons c w =>
    have hrest := lexFrom_word (fun d hd => hw d (List.mem_cons_of_mem c hd)) [c] r hr
    rw [List.singleton_append] at hrest
    simp only [List.cons_append, lexFrom, lexStep, startToken_word (hw c List.mem_cons_self),
      Option.bind_eq_bind, Option.bind_some, Option.pure_def, List.nil_append]
    rw [hrest]
    cases wordToken (c :: w) with
    | none => rfl
    | some t => cases lexFrom .between r <;> rfl

theorem lexFrom_string {s : List Char} (hs : Clean s) (acc r : List Char) :
    lexFrom (.string acc) (s ++ '"' :: r) =
      (lexFrom .between r).map fun ts => .string (acc ++ s) :: ts := by
  induction s generalizing acc with
  | nil =>
    simp only [List.nil_append, lexFrom, lexStep, if_true, Option.bind_eq_bind,
      Option.bind_some, Option.pure_def, List.append_nil]
    cases lexFrom .between r <;> rfl
  | cons c s ih =>
    obtain ⟨hquote, hbackslash, hcontrol⟩ := hs c List.mem_cons_self
    have hrest := ih (fun d hd => hs d (List.mem_cons_of_mem c hd)) (acc ++ [c])
    rw [List.append_assoc, List.singleton_append] at hrest
    simp only [List.cons_append, lexFrom, lexStep, hquote, hbackslash, Nat.not_lt.mpr hcontrol,
      if_false, Option.bind_eq_bind, Option.bind_some, Option.pure_def, List.nil_append]
    rw [hrest]
    cases lexFrom .between r <;> rfl

/-- A string of ordinary characters is read as it is. -/
theorem lexFrom_between_string {s : List Char} (hs : Clean s) (r : List Char) :
    lexFrom .between ('"' :: (s ++ '"' :: r)) =
      (lexFrom .between r).map fun ts => .string s :: ts := by
  have hrest := lexFrom_string hs [] r
  rw [List.nil_append] at hrest
  simp only [lexFrom, lexStep, startToken, if_true, Option.bind_eq_bind, Option.bind_some,
    Option.pure_def, List.nil_append]
  rw [hrest]
  cases lexFrom .between r <;> rfl

/-- A punctuation mark is read as one token. -/
theorem lexFrom_between_mark {c : Char} {t : Token} (h : startToken c = some (.between, [t]))
    (r : List Char) :
    lexFrom .between (c :: r) = (lexFrom .between r).map fun ts => t :: ts := by
  simp only [lexFrom, lexStep, h, Option.bind_eq_bind, Option.bind_some, Option.pure_def]
  cases lexFrom .between r <;> rfl

end Reading

section Weights

/-! ## Weights -/

/-- A backslash weighs as much as a `c` in its escape and one more: no escape weighs less
than its first character and what it stands for. -/
def charWeight (c : Char) : Nat :=
  if c = '\\' then 2 else if c = 'c' ∨ c = 'C' then 1 else 0

def weight (s : List Char) : Nat :=
  (s.map charWeight).sum

def Token.weight : Token → Nat
  | .string s => Json.weight s
  | _ => 0

def tokensWeight (ts : List Token) : Nat :=
  (ts.map Token.weight).sum

@[simp]
theorem weight_nil : weight [] = 0 :=
  rfl

@[simp]
theorem weight_cons (c : Char) (s : List Char) : weight (c :: s) = charWeight c + weight s := by
  simp [weight]

@[simp]
theorem weight_append (s t : List Char) : weight (s ++ t) = weight s + weight t := by
  simp [weight]

@[simp]
theorem tokensWeight_nil : tokensWeight [] = 0 :=
  rfl

@[simp]
theorem tokensWeight_cons (t : Token) (ts : List Token) :
    tokensWeight (t :: ts) = t.weight + tokensWeight ts := by
  simp [tokensWeight]

@[simp]
theorem tokensWeight_append (ts us : List Token) :
    tokensWeight (ts ++ us) = tokensWeight ts + tokensWeight us := by
  simp [tokensWeight]

theorem weight_eq_zero {s : List Char} (h : ∀ c ∈ s, charWeight c = 0) : weight s = 0 := by
  induction s with
  | nil => rfl
  | cons c s ih =>
    rw [weight_cons, h c List.mem_cons_self, ih fun d hd => h d (List.mem_cons_of_mem c hd)]

theorem Numeral.Valid.weight_text {n : Numeral} (h : n.Valid) : weight n.text = 0 := by
  apply weight_eq_zero
  intro c hc
  rcases h.mem_text hc with hdigit | hmem
  · unfold charWeight
    have hbackslash : c ≠ '\\' := by rintro rfl; exact absurd hdigit (by decide)
    have hc : c ≠ 'c' ∧ c ≠ 'C' := by
      constructor <;> rintro rfl <;> exact absurd hdigit (by decide)
    rw [if_neg hbackslash, if_neg (not_or.mpr hc)]
  · simp only [List.mem_cons, List.not_mem_nil, or_false] at hmem
    rcases hmem with rfl | rfl | rfl | rfl <;> rfl

/-- The weight of what a reader holds. -/
def Lex.weight : Lex → Nat
  | .string acc => Json.weight acc
  | .escape acc => Json.weight acc + 1
  | .hex acc _ ds => Json.weight acc + 1 + Json.weight ds
  | .high acc _ => Json.weight acc
  | .highEscape acc _ => Json.weight acc + 1
  | _ => 0

/-- No escape has been read. -/
def Lex.Clean : Lex → Prop
  | .string acc => Json.Clean acc
  | .escape _ => False
  | .hex _ _ _ => False
  | .high _ _ => False
  | .highEscape _ _ => False
  | _ => True

def Token.Clean : Token → Prop
  | .string s => Json.Clean s
  | _ => True

theorem eq_toNat_of_ofNat {n : Nat} {d : Char} (h : Char.ofNat n = d) (hd : d.toNat ≠ 0) :
    n = d.toNat := by
  subst h
  by_cases hvalid : n.isValidChar
  · rw [Char.ofNat, dif_pos hvalid]
    rfl
  · rw [Char.ofNat, dif_neg hvalid] at hd
    exact absurd rfl hd

/-- The characters that weigh something. -/
theorem charWeight_ofNat {n : Nat} (h : charWeight (Char.ofNat n) ≠ 0) :
    n = 0x5c ∨ n = 0x63 ∨ n = 0x43 := by
  unfold charWeight at h
  split at h
  · next heq => exact .inl (eq_toNat_of_ofNat heq (by decide))
  · split at h
    · next heq =>
      rcases heq with heq | heq
      · exact .inr (.inl (eq_toNat_of_ofNat heq (by decide)))
      · exact .inr (.inr (eq_toNat_of_ofNat heq (by decide)))
    · exact absurd rfl h

theorem hexValue_cases {c : Char} {n : Nat} (h : hexValue c = some n) :
    48 ≤ c.toNat ∧ c.toNat ≤ 57 ∧ n = c.toNat - 48 ∨
      97 ≤ c.toNat ∧ c.toNat ≤ 102 ∧ n = c.toNat - 97 + 10 ∨
      65 ≤ c.toNat ∧ c.toNat ≤ 70 ∧ n = c.toNat - 65 + 10 := by
  unfold hexValue at h
  split at h
  · next hd =>
    cases h
    simp only [Char.isDigit, Bool.and_eq_true, decide_eq_true_eq] at hd
    exact .inl ⟨hd.1, hd.2, rfl⟩
  · split at h
    · next hd =>
      cases h
      exact .inr (.inl ⟨hd.1, hd.2, rfl⟩)
    · split at h
      · next hd =>
        cases h
        exact .inr (.inr ⟨hd.1, hd.2, rfl⟩)
      · cases h

/-- The last digit of the code of a backslash weighs something. -/
theorem charWeight_of_hexValue {c : Char} (h : hexValue c = some 12) : charWeight c = 1 := by
  have hchar : ∀ d : Char, c.toNat = d.toNat → c = d := fun d hd => Char.toNat_inj.mp hd
  rcases hexValue_cases h with ⟨_, _, _⟩ | ⟨_, _, _⟩ | ⟨_, _, _⟩
  · omega
  · rw [hchar 'c' (by show _ = 99; omega)]
    decide
  · rw [hchar 'C' (by show _ = 67; omega)]
    decide

/-- What four digits stand for weighs no more than they do with the backslash. -/
theorem charWeight_hex (ds : List Char) {c : Char} {m : Nat} (hc : hexValue c = some m) :
    charWeight (Char.ofNat ((ds ++ [c]).foldl (fun n d => n * 16 + (hexValue d).getD 0) 0)) ≤
      1 + (weight ds + charWeight c) := by
  rw [List.foldl_append]
  simp only [List.foldl_cons, List.foldl_nil, hc, Option.getD_some]
  generalize ds.foldl (fun n d => n * 16 + (hexValue d).getD 0) 0 = k
  by_cases hzero : charWeight (Char.ofNat (k * 16 + m)) = 0
  · omega
  · have hlt : m < 16 := by
      rcases hexValue_cases hc with ⟨_, _, _⟩ | ⟨_, _, _⟩ | ⟨_, _, _⟩ <;> omega
    rcases charWeight_ofNat hzero with h | h | h
    · obtain rfl : m = 12 := by omega
      rw [h, charWeight_of_hexValue hc]
      show 2 ≤ _
      omega
    · rw [h]
      show 1 ≤ _
      omega
    · rw [h]
      show 1 ≤ _
      omega

theorem decodeUnit_weight {acc ds : List Char} {high : Option Nat} {c : Char} {m : Nat}
    {st : Lex} (hc : hexValue c = some m)
    (h : decodeUnit acc high
      ((ds ++ [c]).foldl (fun n d => n * 16 + (hexValue d).getD 0) 0) = some st) :
    st.weight ≤ weight acc + 1 + weight ds + charWeight c := by
  have hle := charWeight_hex ds hc
  unfold decodeUnit at h
  cases high with
  | some k =>
    simp only at h
    split at h
    · cases h
      generalize hn : 0x10000 + (k - 0xd800) * 0x400 +
        ((ds ++ [c]).foldl (fun n d => n * 16 + (hexValue d).getD 0) 0 - 0xdc00) = n
      have hzero : charWeight (Char.ofNat n) = 0 := by
        by_contra hne
        rcases charWeight_ofNat hne with h | h | h <;> omega
      simp only [Lex.weight, weight_append, weight_cons, weight_nil, hzero]
      omega
    · cases h
  | none =>
    simp only at h
    split at h
    · cases h
      simp only [Lex.weight]
      omega
    · split at h
      · cases h
      · cases h
        simp only [Lex.weight, weight_append, weight_cons, weight_nil]
        omega

theorem escapeChar_weight {c x : Char} (h : escapeChar c = some x) :
    charWeight x ≤ 1 + charWeight c := by
  unfold escapeChar at h
  repeat' split at h
  all_goals cases h
  all_goals subst_vars; decide

theorem wordToken_weight {w : List Char} {t : Token} (h : wordToken w = some t) :
    t.weight = 0 ∧ t.Clean := by
  unfold wordToken at h
  repeat' split at h
  · cases h
    exact ⟨rfl, trivial⟩
  · cases h
    exact ⟨rfl, trivial⟩
  · cases h
    exact ⟨rfl, trivial⟩
  · obtain ⟨n, -, rfl⟩ := Option.map_eq_some_iff.mp h
    split <;> exact ⟨rfl, trivial⟩

theorem startToken_weight {c : Char} {st : Lex} {ts : List Token}
    (h : startToken c = some (st, ts)) :
    st.weight + tokensWeight ts = 0 ∧ st.Clean ∧ ∀ t ∈ ts, t.Clean := by
  unfold startToken at h
  repeat' split at h
  · cases h
    exact ⟨rfl, nofun, nofun⟩
  · cases h
    exact ⟨rfl, trivial, nofun⟩
  · cases h
    exact ⟨rfl, trivial, nofun⟩
  · cases h
    exact ⟨rfl, trivial, nofun⟩
  · obtain ⟨t, ht, heq⟩ := Option.map_eq_some_iff.mp h
    cases heq
    have hmark : t.weight = 0 ∧ t.Clean := by
      unfold punctuation at ht
      repeat' split at ht
      all_goals cases ht
      all_goals exact ⟨rfl, trivial⟩
    refine ⟨?_, trivial, ?_⟩
    · simp [Lex.weight, hmark.1]
    · intro u hu
      rw [List.mem_singleton.mp hu]
      exact hmark.2

section Step

variable {st' : Lex} {acc ds : List Char} {high : Option Nat} {k : Nat} {c : Char}
  {ts : List Token}

theorem lexStep_word_weight (h : lexStep (.word acc) c = some (st', ts)) :
    st'.weight + tokensWeight ts = 0 ∧ st'.Clean ∧ ∀ t ∈ ts, t.Clean := by
  simp only [lexStep] at h
  split at h
  · cases h
    exact ⟨rfl, trivial, List.forall_mem_nil _⟩
  · obtain ⟨t, ht, hrest⟩ := Option.bind_eq_some_iff.mp h
    obtain ⟨⟨st₁, us⟩, hstart, heq⟩ := Option.bind_eq_some_iff.mp hrest
    cases heq
    obtain ⟨hzero, hst, hus⟩ := startToken_weight hstart
    obtain ⟨htw, htc⟩ := wordToken_weight ht
    refine ⟨?_, hst, List.forall_mem_cons.mpr ⟨htc, hus⟩⟩
    show st₁.weight + (t.weight + tokensWeight us) = 0
    omega

theorem lexStep_comment_weight {st : Lex} (hst : st = .slash ∨ st = .comment ∨ st = .star)
    (h : lexStep st c = some (st', ts)) :
    st'.weight + tokensWeight ts = 0 ∧ st'.Clean ∧ ∀ t ∈ ts, t.Clean := by
  rcases hst with rfl | rfl | rfl
  all_goals
    simp only [lexStep] at h
    repeat' split at h
  all_goals cases h
  all_goals exact ⟨rfl, trivial, List.forall_mem_nil _⟩

/-- In a string only a backslash, which begins an escape, is heavier than what comes of it. -/
theorem lexStep_string_weight (h : lexStep (.string acc) c = some (st', ts)) :
    st'.weight + tokensWeight ts ≤ (Lex.string acc).weight + charWeight c ∧
      (st'.weight + tokensWeight ts < (Lex.string acc).weight + charWeight c ∨
        ((Lex.string acc).Clean → st'.Clean ∧ ∀ t ∈ ts, t.Clean)) := by
  simp only [lexStep] at h
  split at h
  · cases h
    refine ⟨?_, .inr fun hacc => ⟨trivial, fun u hu => ?_⟩⟩
    · simp [Lex.weight, Token.weight]
    · rw [List.mem_singleton.mp hu]
      exact hacc
  · next hquote =>
    split at h
    · next hbackslash =>
      cases h
      subst hbackslash
      have htwo : charWeight '\\' = 2 := rfl
      simp only [Lex.weight, tokensWeight_nil, htwo]
      exact ⟨by omega, .inl (by omega)⟩
    · next hbackslash =>
      split at h
      · cases h
      · next hcontrol =>
        cases h
        refine ⟨?_, .inr fun hacc => ⟨fun d hd => ?_, List.forall_mem_nil _⟩⟩
        · simp [Lex.weight]
        · rcases List.mem_append.mp hd with hd | hd
          · exact hacc d hd
          · rw [List.mem_singleton.mp hd]
            exact ⟨hquote, hbackslash, Nat.not_lt.mp hcontrol⟩

theorem lexStep_escape_weight (h : lexStep (.escape acc) c = some (st', ts)) :
    st'.weight + tokensWeight ts ≤ (Lex.escape acc).weight + charWeight c := by
  simp only [lexStep] at h
  split at h
  · cases h
    simp [Lex.weight]
  · obtain ⟨x, hx, heq⟩ := Option.map_eq_some_iff.mp h
    cases heq
    have hle := escapeChar_weight hx
    simp only [Lex.weight, tokensWeight_nil, weight_append, weight_cons, weight_nil]
    omega

theorem lexStep_hex_weight (h : lexStep (.hex acc high ds) c = some (st', ts)) :
    st'.weight + tokensWeight ts ≤ (Lex.hex acc high ds).weight + charWeight c := by
  simp only [lexStep] at h
  split at h
  · cases h
  · next m hc =>
    split at h
    · cases h
      simp only [Lex.weight, tokensWeight_nil, weight_append, weight_cons, weight_nil]
      omega
    · obtain ⟨st₁, hdecode, heq⟩ := Option.map_eq_some_iff.mp h
      cases heq
      have hle := decodeUnit_weight hc hdecode
      simp only [Lex.weight, tokensWeight_nil] at hle ⊢
      omega

theorem lexStep_high_weight (h : lexStep (.high acc k) c = some (st', ts)) :
    st'.weight + tokensWeight ts ≤ (Lex.high acc k).weight + charWeight c := by
  simp only [lexStep] at h
  split at h
  · next hbackslash =>
    cases h
    subst hbackslash
    have htwo : charWeight '\\' = 2 := rfl
    simp only [Lex.weight, tokensWeight_nil, htwo]
    omega
  · cases h

theorem lexStep_highEscape_weight (h : lexStep (.highEscape acc k) c = some (st', ts)) :
    st'.weight + tokensWeight ts ≤ (Lex.highEscape acc k).weight + charWeight c := by
  simp only [lexStep] at h
  split at h
  · cases h
    simp [Lex.weight]
  · cases h

/-- A step makes tokens no heavier than what it reads, and lighter where a backslash
begins an escape. -/
theorem lexStep_weight {st : Lex} (h : lexStep st c = some (st', ts)) :
    st'.weight + tokensWeight ts ≤ st.weight + charWeight c ∧
      (st'.weight + tokensWeight ts < st.weight + charWeight c ∨
        (st.Clean → st'.Clean ∧ ∀ t ∈ ts, t.Clean)) := by
  have hweightless (hzero : st'.weight + tokensWeight ts = 0 ∧ st'.Clean ∧ ∀ t ∈ ts, t.Clean) :
      st'.weight + tokensWeight ts ≤ st.weight + charWeight c ∧
        (st'.weight + tokensWeight ts < st.weight + charWeight c ∨
          (st.Clean → st'.Clean ∧ ∀ t ∈ ts, t.Clean)) :=
    ⟨by omega, .inr fun _ => hzero.2⟩
  cases st with
  | between => exact hweightless (startToken_weight h)
  | word => exact hweightless (lexStep_word_weight h)
  | string => exact lexStep_string_weight h
  | escape => exact ⟨lexStep_escape_weight h, .inr fun hfalse => hfalse.elim⟩
  | hex => exact ⟨lexStep_hex_weight h, .inr fun hfalse => hfalse.elim⟩
  | high => exact ⟨lexStep_high_weight h, .inr fun hfalse => hfalse.elim⟩
  | highEscape => exact ⟨lexStep_highEscape_weight h, .inr fun hfalse => hfalse.elim⟩
  | slash => exact hweightless (lexStep_comment_weight (.inl rfl) h)
  | comment => exact hweightless (lexStep_comment_weight (.inr (.inl rfl)) h)
  | star => exact hweightless (lexStep_comment_weight (.inr (.inr rfl)) h)

end Step

theorem lexFrom_cons {st : Lex} {c : Char} {cs : List Char} {ts : List Token}
    (h : lexFrom st (c :: cs) = some ts) : ∃ st' us vs, lexStep st c = some (st', us) ∧
      lexFrom st' cs = some vs ∧ ts = us ++ vs := by
  obtain ⟨⟨st', us⟩, hstep, hrest⟩ : ∃ p, lexStep st c = some p ∧
      ((lexFrom p.1 cs).bind fun rest => some (p.2 ++ rest)) = some ts := by
    cases st <;> exact Option.bind_eq_some_iff.mp h
  obtain ⟨vs, hvs, heq⟩ := Option.bind_eq_some_iff.mp hrest
  exact ⟨st', us, vs, hstep, hvs, (Option.some.inj heq).symm⟩

/-- The tokens of a text are no heavier than it, and lighter or without a character that
needs an escape. -/
theorem lexFrom_weight {st : Lex} {cs : List Char} {ts : List Token}
    (h : lexFrom st cs = some ts) :
    tokensWeight ts ≤ st.weight + weight cs ∧
      (tokensWeight ts < st.weight + weight cs ∨ (st.Clean → ∀ t ∈ ts, t.Clean)) := by
  induction cs generalizing st ts with
  | nil =>
    cases st with
    | between =>
      cases h
      exact ⟨Nat.zero_le _, .inr fun _ => nofun⟩
    | word acc =>
      obtain ⟨t, ht, rfl⟩ := Option.map_eq_some_iff.mp h
      obtain ⟨htw, htc⟩ := wordToken_weight ht
      refine ⟨by simp [htw], .inr fun _ u hu => ?_⟩
      rw [List.mem_singleton.mp hu]
      exact htc
    | _ => cases h
  | cons c cs ih =>
    obtain ⟨st₁, us, vs, hstep, hvs, rfl⟩ := lexFrom_cons h
    obtain ⟨hle, hclean⟩ := lexStep_weight hstep
    obtain ⟨hle', hclean'⟩ := ih hvs
    rw [tokensWeight_append, weight_cons]
    refine ⟨by omega, ?_⟩
    rcases hclean with hlt | hclean
    · exact .inl (by omega)
    · rcases hclean' with hlt | hclean'
      · exact .inl (by omega)
      · refine .inr fun hst t ht => ?_
        obtain ⟨hst₁, hus⟩ := hclean hst
        rcases List.mem_append.mp ht with ht | ht
        · exact hus t ht
        · exact hclean' hst₁ t ht

end Weights

end Nox.Lib.Json

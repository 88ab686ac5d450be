import Mathlib.Data.List.Flatten
import Mathlib.Data.List.Nodup
import Mathlib.Data.List.Pairwise
import Mathlib.Data.List.TakeWhile

/-!
# The arguments of a component

`Component_configuration::get_arguments_list`: every argument string is cut at commas, and what is
between them at equals signs.  The pieces are counted through the whole string, so only its first
pair is taken for a key and a value.
-/

namespace Nox.Components

section Model

/-! ## Cutting arguments -/

abbrev ArgText := List Char

/-- `getline`: what is before the next delimiter, and what is left of the stream; nothing at its
end. -/
def getline (delim : Char) : ArgText → Option (ArgText × ArgText)
  | [] => none
  | stream => some (stream.takeWhile (· ≠ delim), (stream.dropWhile (· ≠ delim)).drop 1)

theorem getline_lt {delim : Char} {stream tok rest : ArgText}
    (h : getline delim stream = some (tok, rest)) : rest.length < stream.length := by
  cases stream with
  | nil => cases h
  | cons c stream =>
    cases h
    have hle := (List.dropWhile_suffix (fun c' => decide (c' ≠ delim)) (l := c :: stream)).length_le
    simp only [List.length_drop, List.length_cons] at hle ⊢
    omega

/-- `while (getline(stream, tok, delim))` -/
def getlines (delim : Char) (stream : ArgText) : List ArgText :=
  match h : getline delim stream with
  | none => []
  | some (tok, rest) =>
    have := getline_lt h
    tok :: getlines delim rest
termination_by stream.length

/-- The loop over the pieces of an argument: `argid`, `argval` and `argcount` then. -/
def splitArg (pieces : List ArgText) (argcount : Nat) : (ArgText × ArgText) × Nat :=
  pieces.foldl (fun (st : (ArgText × ArgText) × Nat) tmparg =>
    (match st.2 with
      | 0 => (tmparg, st.1.2)
      | 1 => (st.1.1, tmparg)
      | _ => st.1, st.2 + 1)) (([], []), argcount)

/-- The pairs that are inserted for the arguments of a string. -/
def insertedFrom : Nat → List ArgText → List (ArgText × ArgText)
  | _, [] => []
  | argcount, arg :: args =>
    let (pair, argcount) := splitArg (getlines '=' arg) argcount
    pair :: insertedFrom argcount args

/-- `hash_map::insert`: a key that is there is kept. -/
def hashMapInsert (argmap : List (ArgText × ArgText)) (pair : ArgText × ArgText) :
    List (ArgText × ArgText) :=
  if argmap.any (·.1 = pair.1) then argmap else argmap ++ [pair]

/-- `Component_configuration::get_arguments_list` -/
def getArgumentsList (arguments : List ArgText) : List (ArgText × ArgText) :=
  (arguments.flatMap fun argStr => insertedFrom 0 (getlines ',' argStr)).foldl hashMapInsert []

/-- `k=v` -/
def renderPair (pair : ArgText × ArgText) : ArgText := pair.1 ++ '=' :: pair.2

/-- `k1=v1,...,kn=vn` -/
def render : List (ArgText × ArgText) → ArgText
  | [] => []
  | [pair] => renderPair pair
  | pair :: pairs => renderPair pair ++ ',' :: render pairs

/-- Neither a comma nor an equals sign is in it. -/
def Free (t : ArgText) : Prop := ',' ∉ t ∧ '=' ∉ t

instance (t : ArgText) : Decidable (Free t) := inferInstanceAs (Decidable (_ ∧ _))

/-- Argument strings whose keys and values are free of delimiters, and whose keys are distinct. -/
structure WellFormedArguments (arguments : List (List (ArgText × ArgText))) : Prop where
  free : ∀ pairs ∈ arguments, ∀ pair ∈ pairs, Free pair.1 ∧ Free pair.2
  distinct : (arguments.flatten.map Prod.fst).Nodup

end Model

section Getlines

/-! ## Pieces -/

variable {delim : Char} {piece rest : ArgText}

theorem getlines_nil (delim : Char) : getlines delim [] = [] := by
  rw [getlines]
  rfl

theorem getline_append (rest : ArgText) (h : delim ∉ piece) (hne : piece ++ rest ≠ []) :
    getline delim (piece ++ rest) =
      some (piece ++ rest.takeWhile (· ≠ delim), (rest.dropWhile (· ≠ delim)).drop 1) := by
  have hpos : ∀ c ∈ piece, decide (c ≠ delim) = true := by
    intro c hc
    refine decide_eq_true fun heq => h ?_
    rwa [← heq]
  have hsome : ∀ stream : ArgText, stream ≠ [] → getline delim stream =
      some (stream.takeWhile (· ≠ delim), (stream.dropWhile (· ≠ delim)).drop 1) := by
    intro stream hstream
    cases stream with
    | nil => exact absurd rfl hstream
    | cons c stream => rfl
  rw [hsome _ hne, List.takeWhile_append_of_pos hpos, List.dropWhile_append_of_pos hpos]

theorem getlines_of_some {stream tok : ArgText} (h : getline delim stream = some (tok, rest)) :
    getlines delim stream = tok :: getlines delim rest := by
  rw [getlines]
  split
  · next hnone => exact absurd (h.symm.trans hnone) (by simp)
  · next tok' rest' hsome =>
    obtain ⟨rfl, rfl⟩ := Prod.mk.inj (Option.some.inj (h.symm.trans hsome))
    rfl

/-- A piece and its delimiter. -/
theorem getlines_append (h : delim ∉ piece) :
    getlines delim (piece ++ delim :: rest) = piece :: getlines delim rest := by
  have hline := getline_append (delim :: rest) h (by simp)
  rw [List.takeWhile_cons_of_neg (by simp), List.dropWhile_cons_of_neg (by simp),
    List.append_nil] at hline
  exact getlines_of_some hline

/-- The last piece, without a delimiter. -/
theorem getlines_last (h : delim ∉ piece) (hne : piece ≠ []) : getlines delim piece = [piece] := by
  have hline := getline_append [] h (by simpa using hne)
  rw [List.takeWhile_nil, List.dropWhile_nil, List.append_nil] at hline
  rw [getlines_of_some hline, List.drop_nil, getlines_nil]

end Getlines

section Pairs

/-! ## The pairs of a string -/

variable {pair : ArgText × ArgText} {pairs : List (ArgText × ArgText)}

theorem renderPair_ne_nil (pair : ArgText × ArgText) : renderPair pair ≠ [] := by
  simp [renderPair]

theorem comma_notMem_renderPair (h : Free pair.1 ∧ Free pair.2) : ',' ∉ renderPair pair := by
  simp only [renderPair, List.mem_append, List.mem_cons, not_or]
  exact ⟨h.1.1, by decide, h.2.1⟩

/-- The outer loop sees the pairs as they were written. -/
theorem getlines_render (h : ∀ pair ∈ pairs, Free pair.1 ∧ Free pair.2) :
    getlines ',' (render pairs) = pairs.map renderPair := by
  induction pairs with
  | nil => exact getlines_nil ','
  | cons pair pairs ih =>
    rw [List.forall_mem_cons] at h
    have hcomma := comma_notMem_renderPair h.1
    cases pairs with
    | nil => exact getlines_last hcomma (renderPair_ne_nil pair)
    | cons pair' pairs =>
      rw [render, getlines_append hcomma, ih h.2]
      · rfl
      · nofun

/-- The inner loop sees the key, and the value if there is one. -/
theorem getlines_renderPair (h : Free pair.1 ∧ Free pair.2) :
    getlines '=' (renderPair pair) = pair.1 :: if pair.2 = [] then [] else [pair.2] := by
  rw [renderPair, getlines_append h.1.2]
  split
  · next hnil => rw [hnil, getlines_nil]
  · next hne => rw [getlines_last h.2.2 hne]

/-- The first pair of a string is taken as it is. -/
theorem splitArg_first (h : Free pair.1 ∧ Free pair.2) :
    (splitArg (getlines '=' (renderPair pair)) 0).1 = pair ∧
      1 ≤ (splitArg (getlines '=' (renderPair pair)) 0).2 := by
  obtain ⟨key, val⟩ := pair
  rw [getlines_renderPair h]
  dsimp only
  split
  · next hnil =>
    rw [hnil]
    exact ⟨rfl, Nat.le_refl 1⟩
  · exact ⟨rfl, show 1 ≤ 2 by decide⟩

/-- Of a later one the key at most is taken, for a value without a key. -/
theorem splitArg_later {argcount : Nat} (h : Free pair.1 ∧ Free pair.2) (hpos : 1 ≤ argcount) :
    let st := splitArg (getlines '=' (renderPair pair)) argcount
    st.1.1 = [] ∧ (st.1.2 = [] ∨ st.1.2 = pair.1) ∧ 1 ≤ st.2 := by
  obtain ⟨key, val⟩ := pair
  rw [getlines_renderPair h]
  dsimp only
  obtain ⟨n, rfl⟩ := Nat.exists_eq_add_of_le' hpos
  cases n with
  | zero =>
    split
    · exact ⟨rfl, .inr rfl, show 1 ≤ 2 by decide⟩
    · exact ⟨rfl, .inr rfl, show 1 ≤ 3 by decide⟩
  | succ n =>
    split
    · exact ⟨rfl, .inl rfl, Nat.le_add_left 1 _⟩
    · exact ⟨rfl, .inl rfl, Nat.le_add_left 1 _⟩

theorem insertedFrom_later {argcount : Nat} (h : ∀ pair ∈ pairs, Free pair.1 ∧ Free pair.2)
    (hpos : 1 ≤ argcount) :
    (insertedFrom argcount (pairs.map renderPair)).length = pairs.length ∧
      ∀ p ∈ insertedFrom argcount (pairs.map renderPair),
        p.1 = [] ∧ (p.2 = [] ∨ ∃ q ∈ pairs, p.2 = q.1) := by
  induction pairs generalizing argcount with
  | nil => exact ⟨rfl, nofun⟩
  | cons pair pairs ih =>
    rw [List.forall_mem_cons] at h
    obtain ⟨hkey, hval, hcount⟩ := splitArg_later h.1 hpos
    obtain ⟨hlength, hrest⟩ := ih h.2 hcount
    rw [List.map_cons, insertedFrom]
    refine ⟨congrArg (· + 1) hlength, fun p hp => ?_⟩
    obtain rfl | hp := List.mem_cons.mp hp
    · exact ⟨hkey, hval.imp_right fun heq => ⟨pair, List.mem_cons_self, heq⟩⟩
    · obtain ⟨hnil, hval⟩ := hrest p hp
      refine ⟨hnil, hval.imp_right ?_⟩
      rintro ⟨q, hq, heq⟩
      exact ⟨q, List.mem_cons_of_mem pair hq, heq⟩

/-- The first pair of a string is inserted, and for the others nothing that has a key. -/
theorem insertedFrom_cons (h : ∀ p ∈ pair :: pairs, Free p.1 ∧ Free p.2) :
    ∃ later, insertedFrom 0 ((pair :: pairs).map renderPair) = pair :: later ∧
      later.length = pairs.length ∧
      ∀ p ∈ later, p.1 = [] ∧ (p.2 = [] ∨ ∃ q ∈ pairs, p.2 = q.1) := by
  rw [List.forall_mem_cons] at h
  obtain ⟨hfirst, hpos⟩ := splitArg_first h.1
  refine ⟨_, ?_, insertedFrom_later h.2 hpos⟩
  rw [List.map_cons, insertedFrom]
  exact congrArg (· :: _) hfirst

end Pairs

section Map

/-! ## The map -/

variable {arguments : List (List (ArgText × ArgText))} {argmap inserted : List (ArgText × ArgText)}
  {pair : ArgText × ArgText} {pairs : List (ArgText × ArgText)}

/-- What is in the map was inserted. -/
theorem mem_foldl_insert (h : pair ∈ inserted.foldl hashMapInsert argmap) :
    pair ∈ argmap ∨ pair ∈ inserted := by
  induction inserted generalizing argmap with
  | nil => exact .inl h
  | cons p inserted ih =>
    obtain hmap | hin := ih h
    · unfold hashMapInsert at hmap
      split at hmap
      · exact .inl hmap
      · obtain hmap | hlast := List.mem_append.mp hmap
        · exact .inl hmap
        · exact .inr (List.mem_singleton.mp hlast ▸ List.mem_cons_self)
    · exact .inr (List.mem_cons_of_mem p hin)

/-- With distinct keys all that is inserted is in the map. -/
theorem foldl_insert_eq (h : ((argmap ++ inserted).map Prod.fst).Nodup) :
    inserted.foldl hashMapInsert argmap = argmap ++ inserted := by
  induction inserted generalizing argmap with
  | nil => exact (List.append_nil argmap).symm
  | cons p inserted ih =>
    have hnew : argmap.any (·.1 = p.1) = false := by
      rw [List.any_eq_false]
      intro q hq heq
      rw [List.map_append, List.map_cons, List.nodup_append] at h
      exact h.2.2 _ (List.mem_map_of_mem hq) _ List.mem_cons_self (of_decide_eq_true heq)
    rw [List.foldl_cons, hashMapInsert, if_neg (by rw [hnew]; decide)]
    rw [List.append_cons] at h
    rw [ih h, ← List.append_cons]

/-- A pair behind the first one of its string is the first one of none. -/
theorem WellFormedArguments.not_first (h : WellFormedArguments arguments)
    (hpairs : pairs ∈ arguments) (hp : pair ∈ pairs.tail) {later : List (ArgText × ArgText)}
    (hfirst : pair :: later ∈ arguments) :
    False := by
  have hnodup := List.nodup_flatten.mp h.distinct.of_map
  by_cases heq : pairs = pair :: later
  · subst heq
    exact (List.nodup_cons.mp (hnodup.1 _ hpairs)).1 hp
  · have : Std.Symm (List.Disjoint (α := ArgText × ArgText)) := ⟨fun _ _ hd _ ha hb => hd hb ha⟩
    have hdisjoint := hnodup.2.forall hpairs hfirst heq
    exact hdisjoint (List.mem_of_mem_tail hp) List.mem_cons_self

/-- What is in the map is the first pair of a string, or has no key. -/
theorem WellFormedArguments.mem_map (h : WellFormedArguments arguments)
    (hp : pair ∈ getArgumentsList (arguments.map render)) :
    (∃ later, pair :: later ∈ arguments) ∨
      pair.1 = [] ∧ (pair.2 = [] ∨ ∃ pairs ∈ arguments, ∃ q ∈ pairs.tail, pair.2 = q.1) := by
  obtain hnil | hin := mem_foldl_insert hp
  · cases hnil
  · rw [List.flatMap_map] at hin
    obtain ⟨pairs, hpairs, hin⟩ := List.mem_flatMap.mp hin
    have hfree := h.free pairs hpairs
    rw [getlines_render hfree] at hin
    cases pairs with
    | nil => cases hin
    | cons first pairs =>
      obtain ⟨later, heq, -, hlater⟩ := insertedFrom_cons hfree
      rw [heq] at hin
      obtain rfl | hin := List.mem_cons.mp hin
      · exact .inl ⟨pairs, hpairs⟩
      · obtain ⟨hkey, hval⟩ := hlater pair hin
        refine .inr ⟨hkey, hval.imp_right ?_⟩
        rintro ⟨q, hq, heq⟩
        exact ⟨_, hpairs, q, hq, heq⟩

/-- If no later pair holds anything, the pairs are inserted as they were written. -/
theorem insertedFrom_eq (hfree : ∀ p ∈ pairs, Free p.1 ∧ Free p.2)
    (h : ∀ p ∈ pairs.tail, p = ([], [])) :
    insertedFrom 0 (pairs.map renderPair) = pairs := by
  cases pairs with
  | nil => rfl
  | cons first pairs =>
    obtain ⟨later, heq, hlength, hlater⟩ := insertedFrom_cons hfree
    have hempty : ∀ p ∈ later, p = ([], []) := by
      intro p hp
      obtain ⟨hkey, hval⟩ := hlater p hp
      refine Prod.ext hkey ?_
      obtain hval | ⟨q, hq, hval⟩ := hval
      · exact hval
      · rw [hval, h q hq]
    rw [heq, List.eq_replicate_of_mem hempty, hlength]
    exact congrArg _ (List.eq_replicate_of_mem h).symm

/-- The map holds the pairs of all strings and no others, if of every string no pair behind the
first one has a key or a value. -/
theorem arguments_iff (arguments : List (List (ArgText × ArgText)))
    (h : WellFormedArguments arguments) :
    (∀ pair, pair ∈ getArgumentsList (arguments.map render) ↔ pair ∈ arguments.flatten) ↔
      ∀ pairs ∈ arguments, ∀ pair ∈ pairs.tail, pair = ([], []) := by
  constructor
  · intro hexact
    -- a later pair that is in the map has no key
    have hlater : ∀ pairs ∈ arguments, ∀ p ∈ pairs.tail,
        p.1 = [] ∧ (p.2 = [] ∨ ∃ pairs ∈ arguments, ∃ q ∈ pairs.tail, p.2 = q.1) := by
      intro pairs hpairs p hp
      have hin : p ∈ arguments.flatten :=
        List.mem_flatten.mpr ⟨pairs, hpairs, List.mem_of_mem_tail hp⟩
      refine (h.mem_map ((hexact p).mpr hin)).resolve_left ?_
      rintro ⟨later, hfirst⟩
      exact h.not_first hpairs hp hfirst
    intro pairs hpairs p hp
    obtain ⟨hkey, hval⟩ := hlater pairs hpairs p hp
    refine Prod.ext hkey ?_
    obtain hval | ⟨pairs', hpairs', q, hq, hval⟩ := hval
    · exact hval
    · rw [hval, (hlater pairs' hpairs' q hq).1]
  · intro hempty pair
    have hinserted : ((arguments.map render).flatMap fun argStr =>
        insertedFrom 0 (getlines ',' argStr)) = arguments.flatten := by
      rw [List.flatMap_map, ← List.flatMap_id]
      refine List.flatMap_congr fun pairs hpairs => ?_
      rw [getlines_render (h.free pairs hpairs)]
      exact insertedFrom_eq (h.free pairs hpairs) (hempty pairs hpairs)
    rw [getArgumentsList, hinserted, foldl_insert_eq (by rw [List.nil_append]; exact h.distinct)]
    rfl

/-- Of one pair in each string all is kept. -/
theorem port_kept :
    let arguments : List (List (ArgText × ArgText)) := [[("port".toList, "2605".toList)]]
    WellFormedArguments arguments ∧
      ∀ pair, pair ∈ getArgumentsList (arguments.map render) ↔ pair ∈ arguments.flatten := by
  intro arguments
  have hwell : WellFormedArguments arguments := ⟨by decide, by decide⟩
  refine ⟨hwell, (arguments_iff arguments hwell).mpr ?_⟩
  decide

/-- The second of two pairs is lost. -/
theorem second_pair_lost :
    let arguments : List (List (ArgText × ArgText)) :=
      [[("port".toList, "2605".toList), ("name".toList, "nox".toList)]]
    WellFormedArguments arguments ∧ ("name".toList, "nox".toList) ∈ arguments.flatten ∧
      ("name".toList, "nox".toList) ∉ getArgumentsList (arguments.map render) := by
  intro arguments
  have hwell : WellFormedArguments arguments := ⟨by decide, by decide⟩
  refine ⟨hwell, by decide, fun hin => ?_⟩
  obtain ⟨later, hfirst⟩ | ⟨hkey, -⟩ := hwell.mem_map hin
  · exact hwell.not_first (List.mem_singleton_self _) (by decide) hfirst
  · exact absurd hkey (by decide)

end Map

end Nox.Components

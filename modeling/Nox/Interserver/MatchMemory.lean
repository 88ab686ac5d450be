import Mathlib.Algebra.Order.BigOperators.Group.List
import Nox.Interserver.RequestSets

/-!
# A match and the memory it is built in

`construct_match` leaves the bytes of an address it could not convert as they were, and
copies the objects of two strings where an Ethernet address has a mask.  When no field of
the first or the second kind is stored, the match is a function of the texts
(`constructMatches_kept`); else two memories give two matches (`kept_of_constructMatches`).
Its length and what it takes on the wire are told by the texts in any case.
-/

namespace Nox.Interserver

open Nox.Oxm OxmFieldIndex JsonObject
open Ofl

section Kept

/-! ## Fields that come from their texts -/

/-- The bytes of a stored field are told by its texts.  The link-layer addresses of neighbour
discovery are registered as numbers and converted as addresses; a masked Ethernet address is
not converted. -/
def Kept (T : Texts) (fld : MatchField) : Prop :=
  fld.index ≠ ipv6NdTll ∧ fld.index ≠ ipv6NdSll ∧
    (fld.index = ethSrc ∨ fld.index = ethDst → T (maskKey fld.name) = none)

instance (T : Texts) (fld : MatchField) : Decidable (Kept T fld) :=
  inferInstanceAs (Decidable (_ ∧ _ ∧ _))

/-- The texts of the field have passed their check. -/
def Checked (T : Texts) (fld : MatchField) : Prop :=
  ∀ text, T fld.name = some text ∨ T (maskKey fld.name) = some text → Valid fld text

theorem getD_of_isSome {α : Type} {o : Option α} (h : o.isSome = true) (d d' : α) :
    o.getD d = o.getD d' := by
  obtain ⟨a, rfl⟩ := Option.isSome_iff_exists.mp h
  rfl

variable {args : JsonObject} {f f' : OflMatch} {junk junk' : Junk} {fld : MatchField}
  {parse : String → JsonObject}

/-- Two ways to add the first field of a group that is present agree when they agree on it. -/
theorem constructFirst_congr (h : args.IsDict) (group : List MatchField)
    {plain plain' : String → String → OflMatch} {masked masked' : String → String → String → OflMatch}
    (hplain : ∀ fld, group.find? (present args.text?) = some fld →
      args.text? (maskKey fld.name) = none → ∀ text, args.text? fld.name = some text →
        plain fld.name text = plain' fld.name text)
    (hmasked : ∀ fld, group.find? (present args.text?) = some fld →
      ∀ mask, args.text? (maskKey fld.name) = some mask → ∀ text, args.text? fld.name = some text →
        masked fld.name text mask = masked' fld.name text mask) :
    constructFirst args (group.map (·.name)) f plain masked =
      constructFirst args (group.map (·.name)) f plain' masked' := by
  unfold constructFirst
  rw [findFirst_group h, Lib.ok_bind, Lib.ok_bind]
  cases hfind : group.find? (present args.text?) with
  | none => rfl
  | some fld =>
    have hpresent : present args.text? fld = true := List.find?_some hfind
    obtain ⟨text, htext⟩ := Option.isSome_iff_exists.mp hpresent
    simp only [Option.map_some, findIfExists_dict h, Lib.ok_bind, htext, Option.getD_some]
    cases hmask : args.text? (maskKey fld.name) with
    | none => exact congrArg Except.ok (hplain fld hfind hmask text htext)
    | some mask => exact congrArg Except.ok (hmasked fld hfind mask hmask text htext)

theorem constructIpv4_kept (h : args.IsDict)
    (hchecked : ∀ fld ∈ storedFields args.text?, Checked args.text? fld) :
    constructIpv4 junk args f = constructIpv4 junk' args f := by
  have hsome {fld : MatchField} (hfind : ipv4Group.find? (present args.text?) = some fld)
      {text : String} (ht : args.text? fld.name = some text ∨
        args.text? (maskKey fld.name) = some text) : (ipv4addr text).isSome = true := by
    have hmem : fld ∈ storedFields args.text? := by simp [storedFields, hfind]
    have hvalid := hchecked fld hmem text ht
    have hgroup := List.mem_of_find?_eq_some hfind
    simp only [ipv4Group, List.mem_cons, List.not_mem_nil, or_false] at hgroup
    rcases hgroup with rfl | rfl <;> exact hvalid
  refine constructFirst_congr h ipv4Group (fun fld hfind _ text ht => ?_)
    (fun fld hfind mask hm text ht => ?_)
  · rw [getD_of_isSome (hsome hfind (.inl ht)) junk.inAddr junk'.inAddr]
  · rw [getD_of_isSome (hsome hfind (.inl ht)) junk.inAddr junk'.inAddr,
      getD_of_isSome (hsome hfind (.inr hm)) junk.inAddrMask junk'.inAddrMask]

theorem constructIpv6_kept (h : args.IsDict)
    (hchecked : ∀ fld ∈ storedFields args.text?, Checked args.text? fld)
    (hkept : ∀ fld ∈ storedFields args.text?, Kept args.text? fld) :
    constructIpv6 junk args f = constructIpv6 junk' args f := by
  have hsome {fld : MatchField} (hfind : ipv6Group.find? (present args.text?) = some fld)
      {text : String} (ht : args.text? fld.name = some text ∨
        args.text? (maskKey fld.name) = some text) : (ipv6addr text).isSome = true := by
    have hmem : fld ∈ storedFields args.text? := by simp [storedFields, hfind]
    have hvalid := hchecked fld hmem text ht
    obtain ⟨htll, hsll, -⟩ := hkept fld hmem
    have hgroup := List.mem_of_find?_eq_some hfind
    simp only [ipv6Group, List.mem_cons, List.not_mem_nil, or_false] at hgroup
    rcases hgroup with rfl | rfl | rfl | rfl | rfl
    · exact hvalid
    · exact hvalid
    · exact hvalid
    · exact absurd rfl htll
    · exact absurd rfl hsll
  refine constructFirst_congr h ipv6Group (fun fld hfind _ text ht => ?_)
    (fun fld hfind mask hm text ht => ?_)
  · rw [getD_of_isSome (hsome hfind (.inl ht)) junk.in6Addr junk'.in6Addr]
  · rw [getD_of_isSome (hsome hfind (.inl ht)) junk.in6Addr junk'.in6Addr,
      getD_of_isSome (hsome hfind (.inr hm)) junk.in6AddrMask junk'.in6AddrMask]

theorem constructEth_kept (h : args.IsDict)
    (hkept : ∀ fld ∈ storedFields args.text?, Kept args.text? fld) :
    constructEth junk args f = constructEth junk' args f := by
  have hgroup {fld : MatchField} (hfind : ethGroup.find? (present args.text?) = some fld) :
      findField fld.name = some fld ∧ fld.size = ethAddrLen ∧
        args.text? (maskKey fld.name) = none := by
    have hmem : fld ∈ storedFields args.text? := by simp [storedFields, hfind]
    have hnone := (hkept fld hmem).2.2
    have hgroup := List.mem_of_find?_eq_some hfind
    have hfields := findField_of_mem (mem_fields_of_group (.inr (.inr hgroup)))
    simp only [ethGroup, List.mem_cons, List.not_mem_nil, or_false] at hgroup
    rcases hgroup with rfl | rfl
    · exact ⟨hfields, rfl, hnone (.inr rfl)⟩
    · exact ⟨hfields, rfl, hnone (.inl rfl)⟩
  refine constructFirst_congr h ethGroup (fun fld hfind _ text _ => ?_)
    (fun fld hfind mask hm text _ => ?_)
  · obtain ⟨hfield, hsize, -⟩ := hgroup hfind
    simp only [addFieldText, hfield, hsize, if_true]
  · rw [(hgroup hfind).2.2] at hm
    cases hm

/-- When all that is stored comes from the texts, what was in memory does not matter. -/
theorem constructMatch_kept (hkept : ∀ fld ∈ storedFields args.text?, Kept args.text? fld) :
    constructMatch parse junk args f = constructMatch parse junk' args f := by
  unfold constructMatch
  cases hcheck : checkArgs parse matchTags args with
  | error e => rfl
  | ok u =>
    have hdict := isDict_of_checkArgs hcheck
    have hchecked : ∀ fld ∈ storedFields args.text?, Checked args.text? fld := fun fld hmem =>
      valid_of_checkArgs hcheck (storedFields_subset hmem)
    have h4 (f : OflMatch) : constructIpv4 junk args f = constructIpv4 junk' args f :=
      constructIpv4_kept hdict hchecked
    have h6 (f : OflMatch) : constructIpv6 junk args f = constructIpv6 junk' args f :=
      constructIpv6_kept hdict hchecked hkept
    have he (f : OflMatch) : constructEth junk args f = constructEth junk' args f :=
      constructEth_kept hdict hkept
    simp only [h4, h6, he]

end Kept

section Unkept

/-! ## Fields that come from memory -/

def tlvWeight (e : OflMatchTlv) : Nat := (e.value.map UInt8.toNat).sum

variable {T : Texts} {fld : MatchField} {text : String}

/-- A field that is not kept holds what was in memory. -/
theorem storedTlv_fill (hnot : ¬Kept T fld) (hchecked : Checked T fld)
    (hpresent : present T fld = true) :
    ∃ n, 0 < n ∧ ∀ b, (storedTlv (Junk.fill b) T fld).value = List.replicate n b := by
  obtain ⟨text, htext⟩ := Option.isSome_iff_exists.mp hpresent
  have hlink (hk : fld.index = ipv6NdTll ∨ fld.index = ipv6NdSll) {t : String}
      (ht : T fld.name = some t ∨ T (maskKey fld.name) = some t) : ipv6addr t = none := by
    have hvalid := hchecked t ht
    refine ipv6addr_number ?_
    rcases hk with hk | hk <;> simpa [Valid, matchArgType, hk] using hvalid
  have hcases : (fld.index = ipv6NdTll ∨ fld.index = ipv6NdSll) ∨
      (fld.index = ethSrc ∨ fld.index = ethDst) ∧ T (maskKey fld.name) ≠ none := by
    unfold Kept at hnot
    tauto
  rcases hcases with hk | ⟨hk, hmask⟩
  · have hvalue (b : UInt8) (masked : Bool) :
        storedValue (Junk.fill b) masked fld text = List.replicate 16 b := by
      have hnone := hlink hk (.inl htext)
      rcases hk with hk | hk <;> simp [storedValue, hk, hnone, Junk.fill]
    cases hmask : T (maskKey fld.name) with
    | none =>
      refine ⟨6, by decide, fun b => ?_⟩
      simp only [storedTlv, htext, hmask, Option.getD_some, Option.isSome_none, Option.map_none,
        tlvOf, hvalue, List.take_replicate]
      rcases hk with hk | hk <;> rw [hk] <;> rfl
    | some mask =>
      have hmaskValue (b : UInt8) :
          storedMask (Junk.fill b) fld mask = List.replicate 16 b := by
        have hnone := hlink hk (.inr hmask)
        rcases hk with hk | hk <;> simp [storedMask, hk, hnone, Junk.fill]
      refine ⟨12, by decide, fun b => ?_⟩
      simp only [storedTlv, htext, hmask, Option.getD_some, Option.isSome_some, Option.map_some,
        tlvOf, hvalue, hmaskValue, List.take_replicate]
      rcases hk with hk | hk <;> rw [hk] <;> rfl
  · obtain ⟨mask, hmask⟩ := Option.ne_none_iff_exists'.mp hmask
    refine ⟨12, by decide, fun b => ?_⟩
    have hvalue : storedValue (Junk.fill b) true fld text = List.replicate 6 b := by
      rcases hk with hk | hk <;> simp [storedValue, hk, Junk.fill]
    have hmaskValue : storedMask (Junk.fill b) fld mask = List.replicate 6 b := by
      rcases hk with hk | hk <;> simp [storedMask, hk, Junk.fill]
    simp only [storedTlv, htext, hmask, Option.getD_some, Option.isSome_some, Option.map_some,
      tlvOf, hvalue, hmaskValue, List.take_replicate]
    rcases hk with hk | hk <;> rw [hk] <;> rfl

theorem storedValue_kept (hkept : Kept T fld) (hvalid : Valid fld text) (junk junk' : Junk) :
    storedValue junk (T (maskKey fld.name)).isSome fld text =
      storedValue junk' (T (maskKey fld.name)).isSome fld text := by
  obtain ⟨htll, hsll, heth⟩ := hkept
  unfold Valid at hvalid
  unfold storedValue
  split
  case h_1 hk | h_2 hk =>
    rw [hk] at hvalid
    exact getD_of_isSome hvalid _ _
  case h_3 hk | h_4 hk | h_5 hk =>
    rw [hk] at hvalid
    exact getD_of_isSome hvalid _ _
  case h_6 hk => exact absurd hk htll
  case h_7 hk => exact absurd hk hsll
  case h_8 hk => rw [heth (.inl hk)]; rfl
  case h_9 hk => rw [heth (.inr hk)]; rfl
  case h_10 => rfl

theorem storedMask_kept (hkept : Kept T fld) {mask : String}
    (hmask : T (maskKey fld.name) = some mask) (hvalid : Valid fld mask) (junk junk' : Junk) :
    storedMask junk fld mask = storedMask junk' fld mask := by
  obtain ⟨htll, hsll, heth⟩ := hkept
  have hnot (hk : fld.index = ethSrc ∨ fld.index = ethDst) : False := by
    rw [heth hk] at hmask
    cases hmask
  unfold Valid at hvalid
  unfold storedMask
  split
  case h_1 hk | h_2 hk =>
    rw [hk] at hvalid
    exact getD_of_isSome hvalid _ _
  case h_3 hk | h_4 hk | h_5 hk =>
    rw [hk] at hvalid
    exact getD_of_isSome hvalid _ _
  case h_6 hk => exact absurd hk htll
  case h_7 hk => exact absurd hk hsll
  case h_8 hk => exact (hnot (.inl hk)).elim
  case h_9 hk => exact (hnot (.inr hk)).elim
  case h_10 => rfl

/-- A kept field is stored alike in all memories. -/
theorem storedTlv_kept (hkept : Kept T fld) (hchecked : Checked T fld)
    (hpresent : present T fld = true) (junk junk' : Junk) :
    storedTlv junk T fld = storedTlv junk' T fld := by
  obtain ⟨text, htext⟩ := Option.isSome_iff_exists.mp hpresent
  have hvalue := storedValue_kept hkept (hchecked text (.inl htext)) junk junk'
  have hmask : (T (maskKey fld.name)).map (storedMask junk fld) =
      (T (maskKey fld.name)).map (storedMask junk' fld) :=
    Option.map_congr fun mask hm => storedMask_kept hkept hm (hchecked mask (.inr hm)) junk junk'
  simp only [storedTlv, htext, Option.getD_some, hvalue, hmask]

/-- Zeros in memory weigh less than ones. -/
theorem tlvWeight_fill (hchecked : Checked T fld) (hpresent : present T fld = true) :
    tlvWeight (storedTlv (Junk.fill 0) T fld) ≤ tlvWeight (storedTlv (Junk.fill 255) T fld) ∧
      (¬Kept T fld →
        tlvWeight (storedTlv (Junk.fill 0) T fld) < tlvWeight (storedTlv (Junk.fill 255) T fld)) := by
  by_cases hkept : Kept T fld
  · exact ⟨(congrArg tlvWeight (storedTlv_kept hkept hchecked hpresent _ _)).le, fun h => (h hkept).elim⟩
  · obtain ⟨n, hpos, hfill⟩ := storedTlv_fill hkept hchecked hpresent
    have hlt : tlvWeight (storedTlv (Junk.fill 0) T fld) <
        tlvWeight (storedTlv (Junk.fill 255) T fld) := by
      simp only [tlvWeight, hfill, List.map_replicate, List.sum_replicate]
      simpa using hpos
    exact ⟨hlt.le, fun _ => hlt⟩

end Unkept

section Puts

/-! ## Puts

The builder does nothing to a match but put entries into it. -/

variable {P : OflMatch → Prop} (hput : ∀ m header value, P m → P (matchPut m header value))
  {parse : String → JsonObject} {junk : Junk} {args : JsonObject} {f f' : OflMatch}

include hput

theorem addField_preserves (hf : P f) (name : String) (value : Bytes) :
    P (addField f name value) := by
  unfold addField
  split
  · exact hf
  · exact hput _ _ _ hf

theorem addFieldMasked_preserves (hf : P f) (name : String) (value mask : Bytes) :
    P (addFieldMasked f name value mask) := by
  unfold addFieldMasked
  split
  · exact hf
  · exact hput _ _ _ hf

theorem addFieldText_preserves (hf : P f) (name text : String) :
    P (addFieldText junk f name text) := by
  unfold addFieldText
  split
  · exact hf
  · split
    · exact hput _ _ _ hf
    · exact hput _ _ _ hf

omit hput in
theorem constructFirst_preserves {keys : List String} {plain : String → String → OflMatch}
    {masked : String → String → String → OflMatch} (hf : P f)
    (hplain : ∀ key value, P (plain key value))
    (hmasked : ∀ key value mask, P (masked key value mask))
    (h : constructFirst args keys f plain masked = .ok f') : P f' := by
  obtain ⟨r, -, h⟩ := bind_eq_ok.mp h
  cases r with
  | none =>
    cases h
    exact hf
  | some r =>
    obtain ⟨mask, -, h⟩ := bind_eq_ok.mp h
    cases mask with
    | none =>
      cases h
      exact hplain _ _
    | some mask =>
      cases h
      exact hmasked _ _ _

theorem constructNumber_preserves {k : Nat} {name value : String} (hf : P f)
    (h : constructNumber args k name value f = .ok f') : P f' := by
  obtain ⟨mask, -, h⟩ := bind_eq_ok.mp h
  cases mask with
  | none =>
    cases h
    exact addField_preserves hput hf _ _
  | some mask =>
    cases h
    exact addFieldMasked_preserves hput hf _ _ _

theorem constructSpecial_preserves {p : MatchField} (hf : P f)
    (h : constructSpecial args f p = .ok f') : P f' := by
  obtain ⟨r, -, h⟩ := bind_eq_ok.mp h
  cases r with
  | none =>
    cases h
    exact hf
  | some value =>
    dsimp only at h
    split at h
    case h_5 =>
      cases h
      exact hf
    all_goals exact constructNumber_preserves hput hf h

/-- What every put preserves, a call of `construct_match` preserves. -/
theorem constructMatch_preserves (hf : P f) (h : constructMatch parse junk args f = .ok f') :
    P f' := by
  obtain ⟨⟨⟩, -, h⟩ := bind_eq_ok.mp h
  obtain ⟨f₁, h₁, h⟩ := bind_eq_ok.mp h
  obtain ⟨f₂, h₂, h⟩ := bind_eq_ok.mp h
  obtain ⟨f₃, h₃, h⟩ := bind_eq_ok.mp h
  have hf₁ := constructFirst_preserves hf (fun _ _ => addField_preserves hput hf _ _)
    (fun _ _ _ => addFieldMasked_preserves hput hf _ _ _) h₁
  have hf₂ := constructFirst_preserves hf₁ (fun _ _ => addField_preserves hput hf₁ _ _)
    (fun _ _ _ => addFieldMasked_preserves hput hf₁ _ _ _) h₂
  have hf₃ := constructFirst_preserves hf₂ (fun _ _ => addFieldText_preserves hput hf₂ _ _)
    (fun _ _ _ => addFieldMasked_preserves hput hf₂ _ _ _) h₃
  exact Lib.foldlM_preserves (fun _ _ _ _ hf hok => constructSpecial_preserves hput hf hok) hf₃ h

end Puts

section Sets

/-! ## Sets of matches -/

/-- The header a field is stored under. -/
def storedHeader (T : Texts) (fld : MatchField) : UInt32 :=
  if (T (maskKey fld.name)).isSome then oxmMakeWildHeader fld.index.header else fld.index.header

/-- The fields that are stored for the objects of a `match_set`, each with its object. -/
def storedIn (ps : List JsonObject) : List (JsonObject × MatchField) :=
  ps.flatMap fun p => (storedFields p.text?).map fun fld => (p, fld)

def storedTlvs (junk : Junk) (p : JsonObject) : List OflMatchTlv :=
  (storedFields p.text?).map (storedTlv junk p.text?)

variable {parse : String → JsonObject} {junk : Nat → Junk} {args : JsonObject} {f f' : OflMatch}

theorem mem_storedIn {ps : List JsonObject} {x : JsonObject × MatchField} :
    x ∈ storedIn ps ↔ x.1 ∈ ps ∧ x.2 ∈ storedFields x.1.text? := by
  simp only [storedIn, List.mem_flatMap, List.mem_map]
  constructor
  · rintro ⟨p, hp, fld, hfld, rfl⟩
    exact ⟨hp, hfld⟩
  · rintro ⟨hp, hfld⟩
    exact ⟨x.1, hp, x.2, hfld, rfl⟩

theorem storedTlv_header (junk : Junk) (T : Texts) (fld : MatchField) :
    (storedTlv junk T fld).header = storedHeader T fld := by
  unfold storedTlv storedHeader
  cases T (maskKey fld.name) <;> rfl

/-- Each call adds to the match what it stores. -/
theorem entries_foldlM {qs : List (JsonObject × Nat)}
    (h : qs.foldlM (fun f q => constructMatch parse (junk q.2) q.1 f) f = .ok f') :
    (∀ q ∈ qs, checkArgs parse matchTags q.1 = .ok ()) ∧
      f'.entries.Perm ((qs.flatMap fun q => storedTlvs (junk q.2) q.1) ++ f.entries) := by
  induction qs generalizing f with
  | nil =>
    cases h
    exact ⟨by simp, .refl _⟩
  | cons q qs ih =>
    obtain ⟨f₁, hok, hrest⟩ := bind_eq_ok.mp h
    have hcheck := checkArgs_of_constructMatch hok
    obtain ⟨f₂, hok₂, hperm⟩ :=
      constructMatch_entries (f := f) (isDict_of_checkArgs hcheck) hcheck (junk q.2)
    have heq : f₁ = f₂ := Except.ok.inj (hok.symm.trans hok₂)
    subst heq
    obtain ⟨hchecks, hentries⟩ := ih hrest
    refine ⟨List.forall_mem_cons.mpr ⟨hcheck, hchecks⟩, hentries.trans ?_⟩
    refine (hperm.append_left _).trans ?_
    rw [List.flatMap_cons, ← List.append_assoc]
    exact List.perm_append_comm.append_right _

/-- The objects of an accepted set have passed their checks. -/
theorem checked_of_constructMatches (h : constructMatches parse junk args = .ok f) :
    ∀ p ∈ setObjects parse args "match_set", checkArgs parse matchTags p = .ok () := by
  intro p hp
  obtain ⟨q, hq, rfl⟩ := List.mem_map.mp (List.zipIdx_map_fst 0 (setObjects parse args _) ▸ hp)
  exact (entries_foldlM (constructSetIfExists_eq_ok h)).1 q hq

/-- The headers of the entries are told by the texts. -/
theorem headers_constructMatches (h : constructMatches parse junk args = .ok f) :
    (f.entries.map (·.header)).Perm
      ((storedIn (setObjects parse args "match_set")).map fun x => storedHeader x.1.text? x.2) := by
  have hperm := (entries_foldlM (constructSetIfExists_eq_ok h)).2.map (·.header)
  rw [entries_init, List.append_nil, List.map_flatMap] at hperm
  have hheaders : (fun q : JsonObject × Nat => (storedTlvs (junk q.2) q.1).map (·.header)) =
      fun q => (storedFields q.1.text?).map (storedHeader q.1.text?) := by
    funext q
    simp only [storedTlvs, List.map_map]
    exact List.map_congr_left fun fld _ => storedTlv_header _ _ _
  rw [hheaders, Lib.flatMap_zipIdx _ fun p : JsonObject =>
    (storedFields p.text?).map (storedHeader p.text?)] at hperm
  simpa [storedIn, List.map_flatMap, Function.comp_def] using hperm

/-- The entries of a match that was built in one memory throughout. -/
theorem entries_constructMatches {junk : Junk}
    (h : constructMatches parse (fun _ => junk) args = .ok f) :
    f.entries.Perm ((storedIn (setObjects parse args "match_set")).map fun x =>
      storedTlv junk x.1.text? x.2) := by
  have hperm : f.entries.Perm (((setObjects parse args "match_set").zipIdx.flatMap fun q =>
      storedTlvs junk q.1) ++ oflStructsMatchInit.entries) :=
    (@entries_foldlM parse (fun _ => junk) _ _ _ (constructSetIfExists_eq_ok h)).2
  rw [entries_init, List.append_nil, Lib.flatMap_zipIdx _ (storedTlvs junk)] at hperm
  have hflat : (setObjects parse args "match_set").flatMap (storedTlvs junk) =
      (storedIn (setObjects parse args "match_set")).map fun x =>
        storedTlv junk x.1.text? x.2 := by
    simp only [storedIn, List.map_flatMap, List.map_map]
    rfl
  exact hflat ▸ hperm

/-- The match of a request is that of the objects of its `match_set`. -/
theorem constructMatchSet_of_constructMatches (h : constructMatches parse junk args = .ok f) :
    constructMatchSet parse
      ((setObjects parse args "match_set").zipIdx.map fun q => (junk q.2, q.1))
      oflStructsMatchInit = .ok f := by
  unfold constructMatchSet
  rw [List.foldlM_map]
  exact constructSetIfExists_eq_ok h

theorem sized_constructMatches (h : constructMatches parse junk args = .ok f) :
    ∀ e ∈ f.entries, Sized e :=
  sized_constructMatchSet (by simp) (constructMatchSet_of_constructMatches h)

/-- The length of a match is that of its entries, in sixteen bits. -/
structure Measured (f : OflMatch) : Prop where
  type : f.type = ofpmtOxm
  length : f.length = (f.entries.map fun e => 4 + e.value.length).sum % 65536

theorem Measured.put (h : Measured f) (header : UInt32) (value : Bytes) :
    Measured (matchPut f header value) := by
  refine ⟨h.type, ?_⟩
  have hsum := ((entries_matchPut f header value).map fun e => 4 + e.value.length).sum_eq
  rw [hsum, List.map_cons, List.sum_cons]
  simp only [matchPut, h.length]
  omega

theorem measured_constructMatches (h : constructMatches parse junk args = .ok f) : Measured f :=
  Lib.foldlM_preserves
    (fun _ _ _ _ hf hok => constructMatch_preserves (fun _ _ _ hm => hm.put _ _) hf hok)
    ⟨rfl, rfl⟩ (constructSetIfExists_eq_ok h)

/-- The set is accepted in every memory when it is in one. -/
theorem exists_constructMatches (h : constructMatches parse junk args = .ok f)
    (junk' : Nat → Junk) : ∃ f', constructMatches parse junk' args = .ok f' := by
  have hloop (qs : List (JsonObject × Nat)) (f : OflMatch)
      (hqs : ∀ q ∈ qs, checkArgs parse matchTags q.1 = .ok ()) :
      ∃ f', qs.foldlM (fun f q => constructMatch parse (junk' q.2) q.1 f) f = .ok f' := by
    induction qs generalizing f with
    | nil => exact ⟨f, rfl⟩
    | cons q qs ih =>
      obtain ⟨hcheck, hqs⟩ := List.forall_mem_cons.mp hqs
      obtain ⟨f₁, hok, -⟩ :=
        constructMatch_entries (f := f) (isDict_of_checkArgs hcheck) hcheck (junk' q.2)
      obtain ⟨f', hrest⟩ := ih f₁ hqs
      exact ⟨f', bind_eq_ok.mpr ⟨f₁, hok, hrest⟩⟩
  rw [constructMatches, constructSetIfExists_eq h]
  exact hloop _ _ (entries_foldlM (constructSetIfExists_eq_ok h)).1

/-- When all fields of the set are kept, what was in memory does not matter. -/
theorem constructMatches_kept (h : constructMatches parse junk args = .ok f)
    (hkept : ∀ x ∈ storedIn (setObjects parse args "match_set"), Kept x.1.text? x.2)
    (junk' : Nat → Junk) : constructMatches parse junk' args = .ok f := by
  rw [← h, constructMatches, constructMatches, constructSetIfExists_eq h,
    constructSetIfExists_eq h]
  refine Lib.foldlM_congr _ fun q hq f => constructMatch_kept fun fld hfld => ?_
  have hp : q.1 ∈ setObjects parse args "match_set" := by
    rw [← List.zipIdx_map_fst 0 (setObjects parse args "match_set")]
    exact List.mem_map_of_mem hq
  exact hkept (q.1, fld) (mem_storedIn.mpr ⟨hp, hfld⟩)

/-- Else two memories give two matches. -/
theorem kept_of_constructMatches (h : constructMatches parse (fun _ => Junk.fill 0) args = .ok f)
    (h' : constructMatches parse (fun _ => Junk.fill 255) args = .ok f) :
    ∀ x ∈ storedIn (setObjects parse args "match_set"), Kept x.1.text? x.2 := by
  have hchecks := checked_of_constructMatches h
  have hsum := ((entries_constructMatches h).symm.trans (entries_constructMatches h')).map tlvWeight
  replace hsum := hsum.sum_eq
  simp only [List.map_map] at hsum
  have hweight (x : JsonObject × MatchField)
      (hx : x ∈ storedIn (setObjects parse args "match_set")) :
      tlvWeight (storedTlv (Junk.fill 0) x.1.text? x.2) ≤
          tlvWeight (storedTlv (Junk.fill 255) x.1.text? x.2) ∧
        (¬Kept x.1.text? x.2 → tlvWeight (storedTlv (Junk.fill 0) x.1.text? x.2) <
          tlvWeight (storedTlv (Junk.fill 255) x.1.text? x.2)) := by
    obtain ⟨hp, hfld⟩ := mem_storedIn.mp hx
    have hmem := storedFields_subset hfld
    exact tlvWeight_fill (valid_of_checkArgs (hchecks _ hp) hmem) ((mem_storedFields hmem).mp hfld).1
  intro x hx
  by_contra hnot
  exact absurd hsum (List.sum_lt_sum _ _ (fun y hy => (hweight y hy).1)
    ⟨x, hx, (hweight x hx).2 hnot⟩).ne

end Sets

section Sizes

/-! ## Sizes -/

variable (parse : String → JsonObject) (args : JsonObject)

/-- The length of the match before it is cut to sixteen bits. -/
def matchLength : Nat :=
  ((storedIn (setObjects parse args "match_set")).map fun x =>
    4 + oxmLength (storedHeader x.1.text? x.2)).sum

/-- The bytes the encoder writes for the entries of the match. -/
def matchWritten : Nat :=
  ((storedIn (setObjects parse args "match_set")).map fun x =>
    entrySize (storedHeader x.1.text? x.2)).sum

variable {parse args} {junk : Nat → Junk} {f : OflMatch}

theorem length_constructMatches (h : constructMatches parse junk args = .ok f) :
    f.length = matchLength parse args % 65536 := by
  have hsized : (f.entries.map fun e => 4 + e.value.length) =
      (f.entries.map (·.header)).map fun header => 4 + oxmLength header := by
    rw [List.map_map]
    exact List.map_congr_left fun e he => by
      rw [(sized_constructMatches h e he).length_value]
      rfl
  have hsum := ((headers_constructMatches h).map fun header => 4 + oxmLength header).sum_eq
  rw [(measured_constructMatches h).length, hsized, hsum, List.map_map]
  rfl

theorem entriesSize_constructMatches (h : constructMatches parse junk args = .ok f) :
    (f.entries.map fun e => entrySize e.header).sum = matchWritten parse args := by
  have hsum := ((headers_constructMatches h).map entrySize).sum_eq
  rw [List.map_map, List.map_map] at hsum
  exact hsum

/-- A masked field of one byte is written with two bytes of mask; all else is as long as its
header says. -/
theorem matchLength_le_written : matchLength parse args ≤ matchWritten parse args := by
  have hfields : ∀ fld ∈ fields,
      4 + oxmLength fld.index.header ≤ entrySize fld.index.header ∧
        4 + oxmLength (oxmMakeWildHeader fld.index.header) ≤
          entrySize (oxmMakeWildHeader fld.index.header) := by
    decide
  refine List.sum_le_sum fun x hx => ?_
  obtain ⟨hplain, hwild⟩ := hfields x.2 (storedFields_subset (mem_storedIn.mp hx).2)
  unfold storedHeader
  split
  · exact hwild
  · exact hplain

end Sizes

end Nox.Interserver

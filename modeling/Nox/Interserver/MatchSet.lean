import Nox.Interserver.MatchFidelity

/-!
# From a match set to the wire

The objects of a `match_set` are added to one flow.  The builder never looks at
the flow it adds to, nor at what the decoder asks for: prerequisites, maskable
fields, duplicates and value ranges are left to the switch.  Every entry it adds
is sized as its header says, so whether the packed match comes back is decided
by the conditions of the codec alone.
-/

namespace Nox.Interserver

open Nox.Oxm OxmFieldIndex JsonObject

/-- The loop over the objects of a `match_set`, each call of `construct_match`
with its own uninitialised memory. -/
def constructMatchSet (parse : String → JsonObject) (objs : List (Junk × JsonObject))
    (f : OflMatch) : Except Fault OflMatch :=
  objs.foldlM (fun f p => constructMatch parse p.1 p.2 f) f

/-! ## Sizes of the stored entries -/

theorem wild_sizes {fld : MatchField} (h : fld ∈ fields) :
    oxmLength (oxmMakeWildHeader fld.index.header) =
        oxmLength fld.index.header + oxmLength fld.index.header ∧
      wordSize fld.index.header ∈ writtenSizes ∧
      wordSize (oxmMakeWildHeader fld.index.header) ∈ writtenSizes := by
  revert fld
  decide

theorem storedValue_length {fld : MatchField} (h : fld ∈ fields)
    (hsha : fld.index ≠ arpSha ∧ fld.index ≠ arpTha) (junk : Junk) (masked : Bool)
    {text : String} (hv : Valid fld text) :
    oxmLength fld.index.header ≤ (storedValue junk masked fld text).length := by
  have hpton4 (t : Option Bytes) (ht : ∀ b, t = some b → b.length = 4) :
      (t.getD junk.inAddr).length = 4 := by
    cases t with
    | none => exact junk.inAddr_length
    | some b => exact ht b rfl
  have hpton6 (t : Option Bytes) (ht : ∀ b, t = some b → b.length = 16) :
      (t.getD junk.in6Addr).length = 16 := by
    cases t with
    | none => exact junk.in6Addr_length
    | some b => exact ht b rfl
  have h4 := hpton4 (ipv4addr text) fun b hb => Libc.inetPton4_length hb
  have h6 := hpton6 (ipv6addr text) fun b hb => Libc.inetPton6_length hb
  have hobj := junk.valueObject_length
  rcases kind_cases h with ⟨hk, hl⟩ | ⟨hk, hl⟩ | ⟨hk, hl⟩ | ⟨hk, hs, hl⟩ | ⟨hk, hl⟩ | hk | ⟨hk, hl⟩
  all_goals first | rw [hl] | skip
  · rcases hk with hk | hk <;> simp only [storedValue, hk] <;> omega
  · rcases hk with hk | hk | hk <;> simp only [storedValue, hk] <;> omega
  · obtain ⟨b, hb⟩ : ∃ b, ethernetaddr text = some b := by
      rcases hk with hk | hk <;> simpa [Valid, matchArgType, hk, Option.isSome_iff_exists] using hv
    have hlen := ethernetaddr_length hb
    rcases hk with hk | hk <;> cases masked <;> simp [storedValue, hk, hb, hlen, hobj]
  · rcases hk with hk | hk <;> simp [storedValue, hk, hs]
  · rcases hk with hk | hk <;> simp only [storedValue, hk] <;> omega
  · rcases hk with hk | hk
    · exact absurd hk hsha.1
    · exact absurd hk hsha.2
  · rw [(number_spec hk text).1]
    simp

/-- The stored entries have the size their header announces. -/
theorem sized_storedTlv {T : Texts} {fld : MatchField} (hmem : fld ∈ storedFields T)
    (hvalid : ∀ text, T fld.name = some text → Valid fld text) (junk : Junk) :
    Sized (storedTlv junk T fld) := by
  have h := storedFields_subset hmem
  obtain ⟨hpres, -, hsha⟩ := (mem_storedFields h).mp hmem
  obtain ⟨text, ht⟩ := Option.isSome_iff_exists.mp hpres
  obtain ⟨hwild, hsize, hwsize⟩ := wild_sizes h
  have hvalue := fun masked => storedValue_length h hsha junk masked (hvalid text ht)
  unfold storedTlv
  rw [ht, Option.getD_some]
  cases T (maskKey fld.name) with
  | none => exact ⟨by simpa [tlvOf] using hvalue false, hsize⟩
  | some m =>
    have hmask := storedMask_length h hsha junk m
    have hhalf : (oxmLength fld.index.header + oxmLength fld.index.header) / 2 =
        oxmLength fld.index.header := by omega
    refine ⟨?_, hwsize⟩
    simp only [Option.map_some, tlvOf, Option.isSome_some, hwild, hhalf, List.length_append,
      List.length_take, Nat.min_eq_left (hvalue true), Nat.min_eq_left hmask]

/-- One object keeps all entries of the flow sized. -/
theorem sized_constructMatch {parse : String → JsonObject} {junk : Junk} {args : JsonObject}
    {f f' : OflMatch} (hf : ∀ e ∈ f.entries, Sized e)
    (h : constructMatch parse junk args f = .ok f') : ∀ e ∈ f'.entries, Sized e := by
  have hcheck := checkArgs_of_constructMatch h
  obtain ⟨f'', hok, hperm⟩ :=
    constructMatch_entries (f := f) (isDict_of_checkArgs hcheck) hcheck junk
  rw [h] at hok
  cases hok
  intro e he
  rcases List.mem_append.mp (hperm.mem_iff.mp he) with he | he
  · obtain ⟨fld, hmem, rfl⟩ := List.mem_map.mp he
    exact sized_storedTlv hmem
      (fun text ht => valid_of_checkArgs hcheck (storedFields_subset hmem) text (.inl ht)) junk
  · exact hf e he

theorem sized_constructMatchSet {parse : String → JsonObject} {objs : List (Junk × JsonObject)}
    {f f' : OflMatch} (hf : ∀ e ∈ f.entries, Sized e)
    (h : constructMatchSet parse objs f = .ok f') : ∀ e ∈ f'.entries, Sized e := by
  induction objs generalizing f with
  | nil =>
    cases h
    exact hf
  | cons p objs ih =>
    obtain ⟨f₁, hok, hrest⟩ := bind_eq_ok.mp h
    exact ih (sized_constructMatch hf hok) hrest

/-! ## Packing what the builder accepted -/

/-- Where the codec itself loses an entry of a well-formed match. -/
def CodecLoses (e : OflMatchTlv) : Prop :=
  e.header = inPhyPort.header ∨ e.header = tunnelId.header ∨ e.header = tunnelIdW.header

/-- The match of an accepted `match_set`, if it has no physical port and no
tunnel id, comes back from the wire exactly when it is well-formed and a
`VLAN_PCP` comes with a `VLAN_VID` other than `OFPVID_NONE`. -/
theorem constructMatchSet_roundTrips_iff (parse : String → JsonObject)
    (objs : List (Junk × JsonObject)) (f : OflMatch) (buf : Bytes)
    (h : constructMatchSet parse objs oflStructsMatchInit = .ok f)
    (hcodec : ∀ e ∈ f.entries, ¬ CodecLoses e) :
    RoundTrips buf f ↔ WellFormed f ∧
      ∀ e ∈ f.entries, e.header = vlanPcp.header → HasVlan f.entries := by
  rw [roundTrips_iff (sized_constructMatchSet (by simp) h)]
  refine and_congr_right fun _ => forall₂_congr fun e he => ?_
  have hnot := hcodec e he
  simp only [CodecLoses, not_or] at hnot
  constructor
  · exact fun hsurv => hsurv.vlanPcp_vlan
  · intro hvlan
    refine ⟨hnot.1, fun htun => ?_, hvlan⟩
    rcases htun with htun | htun
    · exact absurd htun hnot.2.1
    · exact absurd htun hnot.2.2

/-- The entries of a flow built from one object. -/
theorem entries_single (parse : String → JsonObject) (junk : Junk) (args : JsonObject)
    (es : List OflMatchTlv) (hcheck : checkArgs parse matchTags args = .ok ())
    (hes : (storedFields args.text?).map (storedTlv junk args.text?) = es) :
    ∃ f, constructMatchSet parse [(junk, args)] oflStructsMatchInit = .ok f ∧
      f.entries.Perm es := by
  obtain ⟨f, hok, hperm⟩ := constructMatch_entries (f := oflStructsMatchInit)
    (isDict_of_checkArgs hcheck) hcheck junk
  refine ⟨f, ?_, ?_⟩
  · simp only [constructMatchSet, List.foldlM_cons, hok, bind, Except.bind]
    rfl
  · rw [← hes]
    simpa using hperm

/-- A match set on the Ethernet type is packed and read back. -/
theorem ethType_matchSet_roundTrips :
    ∃ f, constructMatchSet (fun _ => .null)
        [(Junk.fill 0, .dict [("eth_type", .string "0x800")])] oflStructsMatchInit = .ok f ∧
      RoundTrips [] f := by
  obtain ⟨f, hok, hperm⟩ := entries_single (fun _ => .null) (Junk.fill 0)
    (.dict [("eth_type", .string "0x800")]) [⟨ethType.header, [0, 8]⟩] (by decide) (by decide)
  have hentries := List.perm_singleton.mp hperm
  refine ⟨f, hok, (constructMatchSet_roundTrips_iff _ _ f [] hok ?_).mpr ⟨⟨?_, ?_⟩, ?_⟩⟩
  · rw [hentries]
    simp only [List.forall_mem_singleton, CodecLoses]
    decide
  · rw [hentries]
    decide
  · simp only [hentries, List.forall_mem_singleton]
    exact ⟨defineField ethType oxmDlNone 0 false, rfl, rfl, trivial⟩
  · simp only [hentries, List.forall_mem_singleton]
    exact fun hpcp => absurd hpcp (by decide)

/-- A TCP port without Ethernet type and protocol is accepted, but not read back. -/
theorem tcpPort_matchSet_not_roundTrips :
    ∃ f, constructMatchSet (fun _ => .null)
        [(Junk.fill 0, .dict [("tcp_src", .string "80")])] oflStructsMatchInit = .ok f ∧
      ¬ RoundTrips [] f := by
  obtain ⟨f, hok, hperm⟩ := entries_single (fun _ => .null) (Junk.fill 0)
    (.dict [("tcp_src", .string "80")]) [⟨tcpSrc.header, [80, 0]⟩] (by decide) (by decide)
  have hentries := List.perm_singleton.mp hperm
  refine ⟨f, hok, ?_⟩
  rw [roundTrips_iff (sized_constructMatchSet (by simp) hok)]
  rintro ⟨hwf, -⟩
  obtain ⟨fld, hl, hpre, -⟩ := hwf.known ⟨tcpSrc.header, [80, 0]⟩ (by simp [hentries])
  have hfld : fld = defineField tcpSrc oxmDlIpAny ipprotoTcp false :=
    (Option.some.inj hl).symm
  rw [oxmPrereqsOk_eq, hentries, hfld] at hpre
  exact absurd hpre (by decide)

end Nox.Interserver

import Nox.Interserver.TypeSafety

/-!
# Which switch a request is sent to

The datapath id of a request goes through `atoi`, so only its low 32 bits are looked at
and they are extended with their sign.  The numerals below 2^31 come through, and by its
limit `strtol` turns every numeral from 2^63 on into the largest id.
-/

namespace Nox.Interserver

open Libc JsonObject
open Lib (ok_bind)

section Numbers

/-! ## Numbers -/

/-- The ids that are an `int` extended with its sign. -/
def IntSized (d : DatapathId) : Prop := d.toNat < 2 ^ 31 ∨ 2 ^ 64 - 2 ^ 31 ≤ d.toNat

instance (d : DatapathId) : Decidable (IntSized d) :=
  inferInstanceAs (Decidable (_ ∨ _))

/-- The number at the front of the text has the low 32 bits of the id. -/
def SameLowBits (text : String) (d : DatapathId) : Prop :=
  (2 ^ 32 : Int) ∣ strtoll text.toList 10 - d.toNat

instance (text : String) (d : DatapathId) : Decidable (SameLowBits text d) :=
  inferInstanceAs (Decidable (_ ∣ _))

theorem toNat_ofInt (n : Int) : ((UInt64.ofInt n).toNat : Int) = n % 2 ^ 64 := by
  rw [UInt64.ofInt, UInt64.toNat_ofNat']
  omega

/-- What is read of a text is the id, and passes for one. -/
theorem atoi_iff (text : String) (d : DatapathId) :
    atoi text ≠ 0 ∧ UInt64.ofInt (atoi text) = d ↔
      d ≠ 0 ∧ IntSized d ∧ SameLowBits text d := by
  have hd := d.toNat_lt
  have heq : UInt64.ofInt (atoi text) = d ↔ (d.toNat : Int) = atoi text % 2 ^ 64 := by
    rw [← UInt64.toNat_inj, ← toNat_ofInt]
    omega
  have hzero : d ≠ 0 ↔ d.toNat ≠ 0 := by
    rw [Ne, ← UInt64.toNat_inj]
    rfl
  rw [heq, hzero]
  unfold atoi IntSized SameLowBits
  omega

/-- The decimal numeral of a number. -/
theorem strtoll_toString (n : Nat) : strtoll (toString n).toList 10 = (min n llongMax : Nat) := by
  apply strtoll_numeral
  rw [Nat.toString_eq_repr, Nat.toList_repr]
  exact numeral_toDigits n

/-- An id is read back from its numeral when it is below 2^31, or the largest. -/
theorem atoi_toString_iff {d : DatapathId} (h : d ≠ 0) :
    atoi (toString d.toNat) ≠ 0 ∧ UInt64.ofInt (atoi (toString d.toNat)) = d ↔
      d.toNat < 2 ^ 31 ∨ d.toNat = 2 ^ 64 - 1 := by
  have hd := d.toNat_lt
  rw [atoi_iff, and_iff_right h]
  unfold IntSized SameLowBits
  rw [strtoll_toString]
  unfold llongMax
  omega

end Numbers

section Requests

/-! ## Requests -/

variable {M : Type} {reslv : Resolver M} {parse : String → JsonObject} {s : Processor}
  {r : RequestMsg} {text : String}

/-- A request with the text for its datapath id, complete but for that. -/
structure Names (reslv : Resolver M) (parse : String → JsonObject) (r : RequestMsg)
    (text : String) : Prop where
  url : r.url = "/switches/info"
  data : r.data ≠ ""
  body : (parse r.data).IsDict
  type : ∃ tp interactor msg, (parse r.data).text? "type" = some tp ∧
    reslv.lookup tp = some interactor ∧ interactor.requestMsgCreator (parse r.data) = .ok msg
  dpid : (parse r.data).text? "dpid" = some text

/-- A message goes to the switch; the connection takes it. -/
def SentTo (reslv : Resolver M) (parse : String → JsonObject) (s : Processor) (r : RequestMsg)
    (d : DatapathId) : Prop :=
  ∃ s' e sent, s.handleRequest reslv parse r 0 = some (s', e, some sent) ∧
    sent.request = r.id ∧ sent.dpid = d

/-- The request is answered with an error, and nothing goes to a switch. -/
def Rejected (reslv : Resolver M) (parse : String → JsonObject) (s : Processor)
    (r : RequestMsg) : Prop :=
  ∃ s' e, s.handleRequest reslv parse r 0 = some (s', some e, none) ∧ e.msg.type ≠ .ok

/-- The request goes to the connected switch whose numeral it gives, and nowhere when there
is none. -/
structure Addresses (reslv : Resolver M) (parse : String → JsonObject) (s : Processor)
    (r : RequestMsg) (text : String) : Prop where
  connected : ∀ d ∈ s.dpids, d ≠ 0 → text = toString d.toNat → SentTo reslv parse s r d
  other : (∀ d ∈ s.dpids, text ≠ toString d.toNat) → Rejected reslv parse s r

/-- The numeral of a connected switch is one that is read back; another text has the low
bits of no connected switch it could be read as. -/
structure ReadRight (dpids : List DatapathId) (text : String) : Prop where
  connected : ∀ d ∈ dpids, d ≠ 0 → text = toString d.toNat →
    d.toNat < 2 ^ 31 ∨ d.toNat = 2 ^ 64 - 1
  other : (∀ d ∈ dpids, text ≠ toString d.toNat) →
    ∀ d ∈ dpids, d ≠ 0 → IntSized d → ¬SameLowBits text d

/-- The id is read, looked up, and what goes wrong is thrown. -/
theorem Names.resolveData (h : Names reslv parse r text) (dpids : List DatapathId) :
    (atoi text ≠ 0 → UInt64.ofInt (atoi text) ∈ dpids → ∃ a,
      resolveData reslv parse dpids r.data 0 = .ok a ∧ a.dpid = UInt64.ofInt (atoi text)) ∧
    (atoi text = 0 ∨ UInt64.ofInt (atoi text) ∉ dpids → ∃ m,
      resolveData reslv parse dpids r.data 0 = .error (.httpRequestError m) ∧ m.type ≠ .ok) := by
  obtain ⟨tp, interactor, msg, htype, hlookup, hmsg⟩ := h.type
  obtain ⟨entries, hbody⟩ := h.body
  have hmem : tp ∈ reslv.map (·.1) := by
    obtain ⟨l₁, l₂, rfl, -⟩ := List.lookup_eq_some_iff.mp hlookup
    simp
  have htp := interpretType_ok.mpr ⟨htype, hmem⟩
  have hstart : Interserver.resolveData reslv parse dpids r.data 0 =
      resolveRequest interactor dpids (parse r.data) 0 := by
    rw [Interserver.resolveData, if_neg h.data]
    rw [hbody] at htp ⊢
    dsimp only
    rw [htp, ok_bind, hlookup]
  obtain ⟨b, hcheckerror⟩ : ∃ b, interpretCheckerror (parse r.data) = .ok b := by
    rw [hbody, interpretCheckerror, getDictValue, liftFault, ok_bind]
    cases (entries.find? (·.1 == "checkerror")).map (·.2) with
    | none => exact ⟨false, rfl⟩
    | some t => exact ⟨_, rfl⟩
  have hdpid : atoi text = 0 → interpretDpid (parse r.data) =
      httpRequestError "POST data containes invalid dpid value\n" .badRequest := by
    intro hzero
    have htext := h.dpid
    rw [hbody] at htext ⊢
    obtain ⟨t, hfind, ht⟩ := Option.map_eq_some_iff.mp htext
    rw [interpretDpid, getDictValue, hfind, liftFault, ok_bind]
    dsimp only
    rw [ht, if_pos hzero]
  rw [hstart]
  unfold resolveRequest
  constructor
  · intro hne hdpids
    have hread := interpretDpid_ok.mpr ⟨text, h.dpid, hne, rfl⟩
    rw [hread, ok_bind, dpidCheck, if_pos hdpids, ok_bind, hmsg, liftFault, ok_bind, hcheckerror]
    exact ⟨_, rfl, rfl⟩
  · intro hbad
    by_cases hzero : atoi text = 0
    · rw [hdpid hzero]
      refine ⟨_, rfl, ?_⟩
      rintro ⟨⟩
    · have hread := interpretDpid_ok.mpr ⟨text, h.dpid, hzero, rfl⟩
      rw [hread, ok_bind, dpidCheck, if_neg (hbad.resolve_left hzero)]
      refine ⟨_, rfl, ?_⟩
      rintro ⟨⟩

/-- A message is sent for what is read, -/
theorem handleRequest_of_ok (hurl : r.url = "/switches/info") {a : Accepted M}
    (h : resolveData reslv parse s.dpids r.data 0 = .ok a) :
    ∃ s' e, s.handleRequest reslv parse r 0 = some (s', e, some ⟨r.id, a.dpid, a.msg, 1⟩) := by
  have hdpids : (s.opened r).dpids = s.dpids := rfl
  unfold Processor.handleRequest
  dsimp only
  rw [if_pos hurl, hdpids, h]
  exact ⟨_, _, rfl⟩

/-- and a response is posted for what is thrown. -/
theorem handleRequest_of_error (hurl : r.url = "/switches/info") {m : ReturnMsg}
    (h : resolveData reslv parse s.dpids r.data 0 = .error (.httpRequestError m)) :
    ∃ s' e, s.handleRequest reslv parse r 0 = some (s', some e, none) ∧ e.msg = m := by
  have hdpids : (s.opened r).dpids = s.dpids := rfl
  unfold Processor.handleRequest
  dsimp only
  rw [if_pos hurl, hdpids, h]
  exact ⟨_, _, rfl, rfl⟩

/-- Where a request goes. -/
theorem Names.sentTo_iff (h : Names reslv parse r text) {d : DatapathId} :
    SentTo reslv parse s r d ↔ (atoi text ≠ 0 ∧ UInt64.ofInt (atoi text) = d) ∧ d ∈ s.dpids := by
  obtain ⟨hgood, hbad⟩ := h.resolveData s.dpids
  constructor
  · rintro ⟨s', e, sent, hrun, -, rfl⟩
    by_cases hread : atoi text ≠ 0 ∧ UInt64.ofInt (atoi text) ∈ s.dpids
    · obtain ⟨a, hok, hdpid⟩ := hgood hread.1 hread.2
      obtain ⟨s₁, e₁, hrun₁⟩ := handleRequest_of_ok h.url hok
      cases hrun.symm.trans hrun₁
      exact ⟨⟨hread.1, hdpid.symm⟩, hdpid ▸ hread.2⟩
    · rw [Decidable.not_and_iff_not_or_not, Decidable.not_not] at hread
      obtain ⟨m, herr, -⟩ := hbad hread
      obtain ⟨s₁, e₁, hrun₁, -⟩ := handleRequest_of_error h.url herr
      cases hrun.symm.trans hrun₁
  · rintro ⟨⟨hne, rfl⟩, hmem⟩
    obtain ⟨a, hok, hdpid⟩ := hgood hne hmem
    obtain ⟨s', e, hrun⟩ := handleRequest_of_ok h.url hok
    exact ⟨s', e, _, hrun, rfl, hdpid⟩

theorem Names.rejected_iff (h : Names reslv parse r text) :
    Rejected reslv parse s r ↔ ∀ d, ¬SentTo reslv parse s r d := by
  obtain ⟨hgood, hbad⟩ := h.resolveData s.dpids
  constructor
  · rintro ⟨s', e, hrun, -⟩ d ⟨s₁, e₁, sent, hrun₁, -⟩
    cases hrun.symm.trans hrun₁
  · intro hno
    have hread : atoi text = 0 ∨ UInt64.ofInt (atoi text) ∉ s.dpids := by
      by_contra hread
      rw [not_or, not_not] at hread
      exact hno _ (h.sentTo_iff.mpr ⟨⟨hread.1, rfl⟩, hread.2⟩)
    obtain ⟨m, herr, hm⟩ := hbad hread
    obtain ⟨s', e, hrun, he⟩ := handleRequest_of_error h.url herr
    exact ⟨s', e, hrun, he ▸ hm⟩

/-- A request is sent to the switch it names, and to no other, exactly where its id is read
right. -/
theorem addresses_iff (h : Names reslv parse r text) :
    Addresses reslv parse s r text ↔ ReadRight s.dpids text := by
  constructor
  · rintro ⟨hconnected, hother⟩
    constructor
    · rintro d hd hne rfl
      obtain ⟨hread, -⟩ := h.sentTo_iff.mp (hconnected d hd hne rfl)
      exact (atoi_toString_iff hne).mp hread
    · intro hno d hd hne hsize hsame
      have hread := (atoi_iff text d).mpr ⟨hne, hsize, hsame⟩
      exact h.rejected_iff.mp (hother hno) d (h.sentTo_iff.mpr ⟨hread, hd⟩)
  · rintro ⟨hconnected, hother⟩
    constructor
    · rintro d hd hne rfl
      have hread := (atoi_toString_iff hne).mpr (hconnected d hd hne rfl)
      exact h.sentTo_iff.mpr ⟨hread, hd⟩
    · intro hno
      rw [h.rejected_iff]
      intro d hsent
      obtain ⟨hread, hd⟩ := h.sentTo_iff.mp hsent
      obtain ⟨hne, hsize, hsame⟩ := (atoi_iff text d).mp hread
      exact hother hno d hd hne hsize hsame

/-- A request for the description of a switch. -/
def descriptionRequest (text : String) : RequestMsg :=
  { url := "/switches/info"
    data := "\x7b\"type\":\"switch_description\",\"dpid\":\"" ++ text ++ "\"\x7d"
    id := 1 }

def switches (dpids : List DatapathId) : Processor :=
  { autoMutex := false, replyState := false, dpids := dpids, slot := 0, serial := 0 }

/-- The builders the interserver has. -/
def interactors : Resolver OflMsg := msgResolver parseJson fun _ => Junk.fill 0

theorem names_description (hdata : (descriptionRequest text).data ≠ "")
    (htype : (parseJson (descriptionRequest text).data).text? "type" = some "switch_description")
    (hdpid : (parseJson (descriptionRequest text).data).text? "dpid" = some text) :
    Names interactors parseJson (descriptionRequest text) text where
  url := rfl
  data := hdata
  body := by
    cases hbody : parseJson (descriptionRequest text).data with
    | dict entries => exact ⟨entries, rfl⟩
    | _ =>
      rw [hbody] at hdpid
      cases hdpid
  type := ⟨_, fixedRequest (.multipart .desc), .multipart .desc, htype, rfl, rfl⟩
  dpid := hdpid

/-- The switch with the id 1 is asked for. -/
theorem addresses_one :
    Addresses interactors parseJson (switches [1]) (descriptionRequest "1") "1" := by
  have hnames : Names interactors parseJson (descriptionRequest "1") "1" :=
    names_description (by decide) (by decide +kernel) (by decide +kernel)
  refine (addresses_iff hnames).mpr ⟨fun d hd _ _ => ?_, fun hno => ?_⟩
  · rw [List.mem_singleton.mp hd]
    decide
  · exact absurd rfl (hno 1 List.mem_cons_self)

/-- The numeral of 2^32 + 1, which is connected, is read as 1. -/
theorem high_id_not_addressed : ¬Addresses interactors parseJson (switches [1, 4294967297])
    (descriptionRequest "4294967297") "4294967297" := by
  have hnames : Names interactors parseJson (descriptionRequest "4294967297") "4294967297" :=
    names_description (by decide) (by decide +kernel) (by decide +kernel)
  intro h
  have hsent := h.connected 4294967297 (by decide) (by decide) rfl
  exact absurd (hnames.sentTo_iff.mp hsent).1.2 (by decide)

end Requests

end Nox.Interserver

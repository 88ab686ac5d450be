import Nox.Messenger.Binary

/-!
# Lengths that are announced

What a peer announces decides what is copied: with a length shorter than the header there is
nothing more to copy, or less, and with one that is longer than the buffer too much.
-/

namespace Nox.Messenger

section Definitions

/-- The last read is of two bytes. -/
def endsWithTwo (reads : List Read) : Bool :=
  reads.getLast?.any fun read => read.bytes.length = 2

/-- From message to message, a length between that of the header and that of the buffer is
announced, or the stream ends before it matters: with no more than two bytes of the message;
before a message that is too long fills the buffer; or with the third byte of one that is too
short, if that has been read with the second and not with the first. -/
def Announces (two : Bool) (s : Bytes) : Prop :=
  if s.length ≤ 2 then True
  else if announced s ≤ 2 then two = true ∧ s.length = 3
  else if messengerMaxMsgSize < announced s ∨ s.length < announced s then
    s.length ≤ messengerMaxMsgSize
  else Announces two (s.drop (announced s))
termination_by s.length
decreasing_by
  rw [List.length_drop]
  omega

/-- The block is processed, and the reads are. -/
def Survives (Loop : Connection Unit → Bytes → Connection Unit → Prop) (c : Connection Unit)
    (block : Bytes) (reads : List Read) : Prop :=
  ∃ c₁ c₂, Loop c block c₁ ∧ Receives messenger Loop c₁ reads c₂

/-- The bytes seen are the beginning of a message. -/
def Begun (data : Bytes) : Prop :=
  data.length ≤ messengerMaxMsgSize ∧ (data.length ≤ 2 ∨ data.length < announced data)

/-- Whether the last read is of two bytes, as far as it is known in the middle of a block. -/
structure Ending (two : Bool) (data block : Bytes) (reads : List Read) : Prop where
  later : reads ≠ [] → two = endsWithTwo reads
  third : reads = [] → block ≠ [] → data.length + block.length = 3 →
    (two = true ↔ data.length = 1)
  block_le : reads = [] → two = true → block.length ≤ 2

end Definitions

section Rules

/-! ## Rules for what is announced -/

variable {two : Bool} {s : Bytes}

theorem announces_short (h : s.length ≤ 2) : Announces two s := by
  rw [Announces, if_pos h]
  trivial

theorem announces_stuck (h : 2 < s.length) (hstuck : announced s ≤ 2) :
    Announces two s ↔ two = true ∧ s.length = 3 := by
  rw [Announces, if_neg (not_le.mpr h), if_pos hstuck]

theorem announces_open (h : 2 < s.length) (hannounced : 2 < announced s)
    (hopen : messengerMaxMsgSize < announced s ∨ s.length < announced s) :
    Announces two s ↔ s.length ≤ messengerMaxMsgSize := by
  rw [Announces, if_neg (not_le.mpr h), if_neg (not_le.mpr hannounced), if_pos hopen]

theorem announces_message (hannounced : 2 < announced s)
    (hmax : announced s ≤ messengerMaxMsgSize) (hle : announced s ≤ s.length) :
    Announces two s ↔ Announces two (s.drop (announced s)) := by
  conv_lhs => rw [Announces]
  rw [if_neg (not_le.mpr (hannounced.trans_le hle)), if_neg (not_le.mpr hannounced),
    if_neg (not_or.mpr ⟨not_lt.mpr hmax, not_lt.mpr hle⟩)]

theorem length_pos_of_read (read : Read) : 0 < read.bytes.length :=
  List.length_pos_iff.mpr read.ne_nil

theorem stream_eq_nil {reads : List Read} (h : (stream reads).length = 0) : reads = [] := by
  cases reads with
  | nil => rfl
  | cons read reads =>
    have hpos := length_pos_of_read read
    rw [stream, List.flatMap_cons, List.length_append] at h
    omega

end Rules

section Turns

/-! ## Turns of the loop -/

variable {Loop : Connection Unit → Bytes → Connection Unit → Prop} {two : Bool}
  {data block : Bytes} {posted : List Bytes} {reads : List Read} {n : Nat}

theorem cpSize_of_short (h : data.length < 2) :
    messenger.cpSize ⟨data, (), posted⟩ block = (min 2 block.length : Nat) := by
  dsimp only [MessageProcessor.cpSize, messenger]
  rw [if_pos h]
  split_ifs
  · rw [Nat.min_eq_right (by omega)]
  · rw [Nat.min_eq_left (by omega)]
    rfl

theorem cpSize_of_long (h : 2 ≤ data.length) : messenger.cpSize ⟨data, (), posted⟩ block =
    min (block.length : Int) ((announced data : Int) - data.length) := by
  dsimp only [MessageProcessor.cpSize, messenger]
  rw [if_neg (not_lt.mpr h)]
  split_ifs <;> omega

theorem turn_eq (h : messenger.cpSize ⟨data, (), posted⟩ block = (n : Int)) :
    messenger.turn ⟨data, (), posted⟩ block =
      if complete (data ++ block.take n) then ⟨[], (), posted ++ [data ++ block.take n]⟩
      else ⟨data ++ block.take n, (), posted⟩ := by
  have hn : (messenger.processBlock () block data).1.toNat = n := congrArg Int.toNat h
  unfold MessageProcessor.turn
  dsimp only
  rw [hn]
  refine if_congr (and_iff_right_of_imp fun hcomplete => ?_) rfl rfl
  dsimp only [messenger] at hcomplete
  rw [Bool.and_eq_true, decide_eq_true_iff, decide_eq_true_iff] at hcomplete
  omega

variable (hL : LoopRules messenger Loop)

include hL

theorem survives_end (c : Connection Unit) : Survives Loop c [] [] :=
  ⟨c, c, hL.nil.mpr rfl, rfl⟩

theorem survives_next (c : Connection Unit) (read : Read) :
    Survives Loop c [] (read :: reads) ↔ Survives Loop c read.bytes reads := by
  constructor
  · rintro ⟨c₁, c₂, hnil, c₃, hloop, hreceives⟩
    cases hL.nil.mp hnil
    exact ⟨c₃, c₂, hloop, hreceives⟩
  · rintro ⟨c₃, c₂, hloop, hreceives⟩
    exact ⟨c, c₂, hL.nil.mpr rfl, c₃, hloop, hreceives⟩

theorem survives_turn (hne : block ≠ []) (hpos : 0 < n)
    (hcpSize : messenger.cpSize ⟨data, (), posted⟩ block = (n : Int)) :
    Survives Loop ⟨data, (), posted⟩ block reads ↔
      (n ≤ block.length ∧ data.length + n ≤ messengerMaxMsgSize) ∧
        Survives Loop (messenger.turn ⟨data, (), posted⟩ block) (block.drop n) reads := by
  have hrule := fun c₁ => (hL.turn hne (hcpSize ▸ Int.natCast_pos.mpr hpos) :
    Loop ⟨data, (), posted⟩ block c₁ ↔ _)
  rw [hcpSize, Int.toNat_natCast] at hrule
  have hinside : messenger.Inside ⟨data, (), posted⟩ block ↔
      n ≤ block.length ∧ data.length + n ≤ messengerMaxMsgSize := by
    unfold MessageProcessor.Inside
    rw [hcpSize]
    dsimp only
    omega
  constructor
  · rintro ⟨c₁, c₂, hloop, hreceives⟩
    obtain ⟨hcopy, hrest⟩ := (hrule c₁).mp hloop
    exact ⟨hinside.mp hcopy, c₁, c₂, hrest, hreceives⟩
  · rintro ⟨hcopy, c₁, c₂, hrest, hreceives⟩
    exact ⟨c₁, c₂, (hrule c₁).mpr ⟨hinside.mpr hcopy, hrest⟩, hreceives⟩

/-- With a length shorter than the header nothing more can be read. -/
theorem survives_stuck (hlong : 2 ≤ data.length) (hstuck : announced data ≤ 2) :
    Survives Loop ⟨data, (), posted⟩ block reads ↔ block = [] ∧ reads = [] := by
  have hnot : ∀ {block c₁}, block ≠ [] → ¬ Loop ⟨data, (), posted⟩ block c₁ := by
    intro block c₁ hne
    have hcpSize : messenger.cpSize ⟨data, (), posted⟩ block = _ := cpSize_of_long hlong
    refine hL.stuck hne (by omega) fun hzero => ?_
    have hcomplete : complete data = false := by
      rw [complete, Bool.and_eq_false_iff, decide_eq_false_iff_not, decide_eq_false_iff_not]
      omega
    rw [turn_eq (n := 0) hzero, List.take_zero, List.append_nil, hcomplete]
    rfl
  constructor
  · intro h
    have hblock : block = [] := by
      by_contra hne
      obtain ⟨c₁, -, hloop, -⟩ := h
      exact hnot hne hloop
    subst hblock
    cases reads with
    | nil => exact ⟨rfl, rfl⟩
    | cons read reads =>
      obtain ⟨c₁, -, hloop, -⟩ := (survives_next hL _ read).mp h
      exact absurd hloop (hnot read.ne_nil)
  · rintro ⟨rfl, rfl⟩
    exact survives_end hL _

end Turns

section Streams

/-! ## Whole streams -/

variable {Loop : Connection Unit → Bytes → Connection Unit → Prop} {two : Bool}
  {data block : Bytes} {reads : List Read} {n : Nat}

/-- The loop goes on if and only if the stream, from the message on, announces what fits. -/
def Agrees (Loop : Connection Unit → Bytes → Connection Unit → Prop) (two : Bool)
    (data block : Bytes) (reads : List Read) : Prop :=
  ∀ posted, Survives Loop ⟨data, (), posted⟩ block reads ↔
    Announces two (data ++ block ++ stream reads)

theorem append_take_drop (data block rest : Bytes) (n : Nat) :
    data ++ block ++ rest = data ++ block.take n ++ (block.drop n ++ rest) := by
  rw [List.append_assoc, List.append_assoc, ← List.append_assoc (block.take n),
    List.take_append_drop]

/-- A copy that fits leaves the question to what comes behind it. -/
theorem agrees_turn (hL : LoopRules messenger Loop) (hne : block ≠ []) (hpos : 0 < n)
    (hle : n ≤ block.length) (hfits : data.length + n ≤ messengerMaxMsgSize)
    (hcpSize : ∀ posted, messenger.cpSize ⟨data, (), posted⟩ block = (n : Int))
    (hrest : Agrees Loop two (if complete (data ++ block.take n) then []
      else data ++ block.take n) (block.drop n) reads) : Agrees Loop two data block reads := by
  intro posted
  rw [survives_turn hL hne hpos (hcpSize posted), and_iff_right ⟨hle, hfits⟩,
    turn_eq (hcpSize posted), append_take_drop data block _ n]
  split_ifs at hrest ⊢ with hcomplete
  · rw [complete, Bool.and_eq_true, decide_eq_true_iff, decide_eq_true_iff] at hcomplete
    have hannounced : announced (data ++ block.take n ++ (block.drop n ++ stream reads)) =
        (data ++ block.take n).length := by
      rw [announced_append hcomplete.2.le, hcomplete.1]
    rw [announces_message, hannounced, List.drop_left]
    · exact hrest _
    · exact hannounced ▸ hcomplete.2
    · rw [hannounced, List.length_append, List.length_take_of_le hle]
      exact hfits
    · rw [hannounced]
      exact (List.prefix_append (data ++ block.take n) _).length_le
  · rw [← List.append_assoc]
    exact hrest _

/-- A copy that does not fit is of a message that is too long for the buffer. -/
theorem agrees_overrun (hL : LoopRules messenger Loop) (hlong : 2 ≤ data.length)
    (hne : block ≠ []) (hpos : 0 < n) (hle : n ≤ block.length)
    (hover : messengerMaxMsgSize < data.length + n) (hannounced : data.length + n ≤ announced data)
    (hcpSize : ∀ posted, messenger.cpSize ⟨data, (), posted⟩ block = (n : Int)) :
    Agrees Loop two data block reads := by
  intro posted
  have hlength : data.length + n ≤ (data ++ block ++ stream reads).length := by
    rw [List.length_append, List.length_append]
    omega
  have hall : announced (data ++ block ++ stream reads) = announced data := by
    rw [List.append_assoc, announced_append hlong]
  rw [survives_turn hL hne hpos (hcpSize posted), announces_open (by omega) (by omega)
    (.inl (by omega))]
  exact iff_of_false (fun h => by omega) (by omega)

/-- A length shorter than the header is all right only for what ends with its third byte. -/
theorem agrees_stuck (hL : LoopRules messenger Loop) (hlong : 2 ≤ data.length)
    (hstuck : announced data ≤ 2) (hthree : 3 ≤ (data ++ block).length)
    (htwo : (data ++ block ++ stream reads).length = 3 →
      (two = true ↔ block = [] ∧ reads = [])) (hshort : block = [] → data.length = 3) :
    Agrees Loop two data block reads := by
  intro posted
  have hall : announced (data ++ block ++ stream reads) = announced data := by
    rw [List.append_assoc, announced_append hlong]
  have hlength : 3 ≤ (data ++ block ++ stream reads).length :=
    hthree.trans (List.prefix_append _ _).length_le
  rw [survives_stuck hL hlong hstuck, announces_stuck hlength (hall ▸ hstuck)]
  constructor
  · rintro ⟨rfl, rfl⟩
    have hdata := hshort rfl
    have hthird : (data ++ [] ++ stream []).length = 3 := by
      rw [List.append_nil, stream, List.flatMap_nil, List.append_nil, hdata]
    exact ⟨(htwo hthird).mpr ⟨rfl, rfl⟩, hthird⟩
  · rintro ⟨htrue, hthird⟩
    exact (htwo hthird).mp htrue

theorem Ending.turn (h : Ending two data block reads) (hn : 0 < n) {data' : Bytes}
    (hlength : data'.length = 0 ∨ (data'.length = data.length + n ∧
      (n < block.length → data.length + block.length = 3 →
        data.length ≠ 1 ∧ data'.length ≠ 1))) :
    Ending two data' (block.drop n) reads := by
  refine ⟨h.later, fun hreads hne hthird => ?_, fun hreads htwo => ?_⟩
  · have hlt : n < block.length := by
      by_contra hle
      exact hne (List.drop_eq_nil_of_le (not_lt.mp hle))
    have hblock : block ≠ [] := List.ne_nil_of_length_pos (by omega)
    rw [List.length_drop] at hthird
    rcases hlength with hzero | ⟨heq, hone⟩
    · refine iff_of_false (fun htwo => ?_) (by omega)
      have hle := h.block_le hreads htwo
      omega
    · obtain ⟨hdata, hdata'⟩ := hone hlt (by omega)
      rw [h.third hreads hblock (by omega)]
      exact iff_of_false hdata hdata'
  · have hle := h.block_le hreads htwo
    rw [List.length_drop]
    omega

theorem Ending.next {read : Read} (h : two = endsWithTwo (read :: reads)) :
    Ending two data read.bytes reads := by
  have hlast : reads = [] → (two = true ↔ read.bytes.length = 2) := by
    rintro rfl
    rw [h]
    exact decide_eq_true_iff
  refine ⟨fun hne => ?_, fun hreads _ hthird => ?_, fun hreads htwo => ?_⟩
  · rw [h, endsWithTwo, endsWithTwo, List.getLast?_cons_of_ne_nil hne]
  · rw [hlast hreads]
    omega
  · exact ((hlast hreads).mp htwo).le

/-- What has been seen after a turn is the beginning of a message, or nothing. -/
theorem begun_turn {data' : Bytes} (hle : data'.length ≤ messengerMaxMsgSize)
    (h : complete data' = false → data'.length ≤ 2 ∨ data'.length < announced data') :
    Begun (if complete data' then [] else data') := by
  split_ifs with hcomplete
  · exact ⟨Nat.zero_le _, .inl (Nat.zero_le _)⟩
  · exact ⟨hle, h (Bool.eq_false_iff.mpr hcomplete)⟩

theorem complete_eq_false_iff :
    complete data = false ↔ announced data ≠ data.length ∨ data.length ≤ 2 := by
  rw [complete, Bool.and_eq_false_iff, decide_eq_false_iff_not, decide_eq_false_iff_not, not_lt]

/-- Once the length is known, as much is copied as the message lacks. -/
theorem agrees_long (hL : LoopRules messenger Loop) (hbegun : Begun data)
    (hending : Ending two data block reads) (hne : block ≠ []) (hlong : 2 ≤ data.length)
    (ih : ∀ {n data'}, 0 < n → n ≤ block.length → Begun data' →
      Ending two data' (block.drop n) reads → Agrees Loop two data' (block.drop n) reads) :
    Agrees Loop two data block reads := by
  have hblock : 0 < block.length := List.length_pos_iff.mpr hne
  by_cases hstuck : announced data ≤ 2
  · refine agrees_stuck hL hlong hstuck ?_ (fun hthree => ?_) fun hnil => absurd hnil hne
    · rw [List.length_append]
      omega
    · rw [List.length_append, List.length_append] at hthree
      have hreads : reads = [] := stream_eq_nil (by omega)
      rw [hending.third hreads hne (by omega)]
      exact iff_of_false (by omega) fun h => hne h.1
  · have hlt : data.length < announced data := hbegun.2.elim (by omega) id
    obtain ⟨n, hn⟩ : ∃ n, n = min block.length (announced data - data.length) := ⟨_, rfl⟩
    have hcpSize : ∀ posted, messenger.cpSize ⟨data, (), posted⟩ block = (n : Int) :=
      fun posted => (cpSize_of_long hlong).trans (by omega)
    have hle : n ≤ block.length := by omega
    have hlength : (data ++ block.take n).length = data.length + n := by
      rw [List.length_append, List.length_take_of_le hle]
    have hannounced : announced (data ++ block.take n) = announced data :=
      announced_append hlong _
    by_cases hfits : data.length + n ≤ messengerMaxMsgSize
    · refine agrees_turn hL hne (by omega) hle hfits hcpSize ?_
      refine ih (by omega) hle (begun_turn (hlength ▸ hfits) fun h => ?_)
        (hending.turn (by omega) ?_)
      · rw [complete_eq_false_iff] at h
        omega
      · split_ifs
        · exact .inl rfl
        · exact .inr ⟨hlength, by omega⟩
    · exact agrees_overrun hL hlong hne (by omega) hle (not_le.mp hfits) (by omega) hcpSize

/-- Of the length one or two bytes are copied. -/
theorem agrees_short (hL : LoopRules messenger Loop) (hending : Ending two data block reads)
    (hne : block ≠ []) (hshort : data.length < 2)
    (ih : ∀ {n data'}, 0 < n → n ≤ block.length → Begun data' →
      Ending two data' (block.drop n) reads → Agrees Loop two data' (block.drop n) reads) :
    Agrees Loop two data block reads := by
  have hblock : 0 < block.length := List.length_pos_iff.mpr hne
  obtain ⟨n, hn⟩ : ∃ n, n = min 2 block.length := ⟨_, rfl⟩
  have hcpSize : ∀ posted, messenger.cpSize ⟨data, (), posted⟩ block = (n : Int) :=
    fun posted => hn ▸ cpSize_of_short hshort
  have hle : n ≤ block.length := by omega
  have hlength : (data ++ block.take n).length = data.length + n := by
    rw [List.length_append, List.length_take_of_le hle]
  have hmax : data.length + n ≤ messengerMaxMsgSize := by
    unfold messengerMaxMsgSize
    omega
  refine agrees_turn hL hne (by omega) hle hmax hcpSize ?_
  by_cases hstuck : 2 < data.length + n ∧ announced (data ++ block.take n) ≤ 2
  · have hcomplete : complete (data ++ block.take n) = false := by
      rw [complete_eq_false_iff]
      omega
    rw [hcomplete, if_neg Bool.false_ne_true]
    refine agrees_stuck hL (by omega) hstuck.2 ?_ (fun hthree => ?_) fun _ => by omega
    · rw [List.length_append]
      omega
    · rw [List.length_append, List.length_append, List.length_drop] at hthree
      have hreads : reads = [] := stream_eq_nil (by omega)
      rw [hending.third hreads hne (by omega)]
      exact iff_of_true (by omega) ⟨List.drop_eq_nil_of_le (by omega), hreads⟩
  · refine ih (by omega) hle (begun_turn (hlength ▸ hmax) fun h => ?_)
      (hending.turn (by omega) ?_)
    · rw [complete_eq_false_iff] at h
      omega
    · split_ifs
      · exact .inl rfl
      · exact .inr ⟨hlength, by omega⟩

/-- Whatever has been seen of a message, by induction on what is still to be read. -/
theorem agrees (hL : LoopRules messenger Loop) (hbegun : Begun data)
    (hending : Ending two data block reads) : Agrees Loop two data block reads := by
  induction hsize : block.length + (stream reads).length + reads.length
    using Nat.strong_induction_on generalizing data block reads with
  | _ size ih =>
    by_cases hne : block = []
    · subst hne
      cases reads with
      | nil =>
        intro posted
        refine iff_of_true (survives_end hL _) ?_
        rw [stream, List.flatMap_nil, List.append_nil, List.append_nil]
        by_cases hshort : data.length ≤ 2
        · exact announces_short hshort
        · have hlt : data.length < announced data := hbegun.2.resolve_left hshort
          exact (announces_open (by omega) (by omega) (.inr hlt)).mpr hbegun.1
      | cons read reads =>
        intro posted
        have hrest : Agrees Loop two data read.bytes reads := by
          refine ih _ ?_ hbegun (.next (hending.later (List.cons_ne_nil read reads))) rfl
          rw [stream, List.flatMap_cons, List.length_append, List.length_cons,
            List.length_nil] at hsize
          rw [stream]
          omega
        rw [survives_next hL, hrest posted, List.append_nil, stream, stream, List.flatMap_cons,
          List.append_assoc]
    · have hrest : ∀ {n data'}, 0 < n → n ≤ block.length → Begun data' →
          Ending two data' (block.drop n) reads →
            Agrees Loop two data' (block.drop n) reads := by
        intro n data' hpos hle hbegun' hending'
        refine ih _ ?_ hbegun' hending' rfl
        rw [List.length_drop]
        omega
      rcases Nat.lt_or_ge data.length 2 with hshort | hlong
      · exact agrees_short hL hending hne hshort hrest
      · exact agrees_long hL hbegun hending hne hlong hrest

/-- Every read is processed, with positive copies inside the block and the buffer, if and only
if the stream announces what fits; and in the other cases the loop goes on for ever or makes a
copy outside. -/
theorem proceeds_iff_announces (reads : List Read) :
    ((∃ c, Receives messenger (Proceeds messenger) (.init ()) reads c) ↔
      Announces (endsWithTwo reads) (stream reads)) ∧
    ((∃ c, Receives messenger (Ends messenger) (.init ()) reads c) ↔
      Announces (endsWithTwo reads) (stream reads)) := by
  have hreceives : ∀ {Loop}, LoopRules messenger Loop →
      ((∃ c, Receives messenger Loop (.init ()) reads c) ↔
        Announces (endsWithTwo reads) (stream reads)) := by
    intro Loop hL
    have hending : Ending (endsWithTwo reads) [] [] reads :=
      ⟨fun _ => rfl, fun _ hne => absurd rfl hne, fun _ _ => Nat.zero_le 2⟩
    have hbegun : Begun [] := ⟨Nat.zero_le _, .inl (Nat.zero_le _)⟩
    refine Iff.trans ?_ (agrees hL hbegun hending [])
    constructor
    · rintro ⟨c, h⟩
      exact ⟨_, c, hL.nil.mpr rfl, h⟩
    · rintro ⟨c₁, c, hnil, h⟩
      cases hL.nil.mp hnil
      exact ⟨c, h⟩
  exact ⟨hreceives proceeds_rules, hreceives ends_rules⟩

/-- With a length of two announced the loop copies nothing for ever, and with one of one it
copies less than nothing. -/
theorem lengths_not_checked :
    (¬ ∃ c, Receives messenger (Ends messenger) (.init ())
      [⟨[0, 2, 0], false, by decide, by decide⟩] c) ∧
    processBlock messenger 2 (.init ()) [0, 1, 0] = .error .outside := by
  refine ⟨?_, rfl⟩
  rintro ⟨c, c₁, hends, -⟩
  obtain ⟨-, hrest⟩ := (ends_turn (by decide) (by decide)).mp hends
  exact not_ends (by decide) (by decide) (fun _ => rfl) hrest

end Streams

end Nox.Messenger

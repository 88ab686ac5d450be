import Nox.Messenger.Core

/-!
# Binary messages

A `messenger_msg` begins with its length, header included, and its type.  The `messenger`
processor copies up to the length that is announced, once it has the two bytes of it.
-/

namespace Nox.Messenger

section Definitions

/-- `ntohs` of the first two bytes of the message.  While there is only one, the other is
whatever the buffer holds; no message is complete with it. -/
def announced (data : Bytes) : Nat := beNat (data.take 2)

/-- The `messenger` processor, which keeps nothing for a socket. -/
def messenger : MessageProcessor Unit where
  processBlock _ block data :=
    if data.length < 2 then
      if block.length < 2 then (block.length, ()) else (2, ())
    else if (announced data : Int) - data.length - block.length ≥ 0 then (block.length, ())
    else ((announced data : Int) - data.length, ())
  msgComplete _ data := announced data = data.length && 2 < data.length
  forget _ := ()

/-- A message of a type, as long as the buffer has room for. -/
structure MessengerMsg where
  type : UInt8
  body : Bytes
  length_le : 3 + body.length ≤ messengerMaxMsgSize

/-- The bytes of a message, the length first. -/
def MessengerMsg.bytes (m : MessengerMsg) : Bytes :=
  beBytes 2 (3 + m.body.length) ++ m.type :: m.body

/-- The fields of a `Msg_event`, as its handlers see them in the bytes that were posted. -/
structure MsgEvent where
  len : Nat
  length : Nat
  type : UInt8
  body : Bytes
  deriving DecidableEq

def MsgEvent.ofMessage (raw : Bytes) : MsgEvent where
  len := raw.length
  length := announced raw
  type := raw.getD 2 0
  body := raw.drop 3

end Definitions

section Framing

/-! ## Messages are cut where they end -/

/-- A message is as long as it announces. -/
structure WellSized (m : Bytes) : Prop where
  announced_eq : announced m = m.length
  header_le : 3 ≤ m.length
  length_le : m.length ≤ messengerMaxMsgSize

theorem announced_append {data : Bytes} (h : 2 ≤ data.length) (rest : Bytes) :
    announced (data ++ rest) = announced data := by
  rw [announced, List.take_append_of_le_length h, announced]

theorem announced_take {m : Bytes} {n : Nat} (h : 2 ≤ n) : announced (m.take n) = announced m := by
  rw [announced, List.take_take, Nat.min_eq_left h, announced]

theorem MessengerMsg.length_bytes (m : MessengerMsg) : m.bytes.length = 3 + m.body.length := by
  rw [bytes, List.length_append, beBytes_length, List.length_cons]
  omega

theorem MessengerMsg.announced_bytes (m : MessengerMsg) :
    announced m.bytes = 3 + m.body.length := by
  have hle := m.length_le
  unfold messengerMaxMsgSize at hle
  rw [bytes, announced_append (beBytes_length 2 _).ge, announced,
    List.take_of_length_le (beBytes_length 2 _).le, beNat_beBytes_of_lt (by omega)]

theorem MessengerMsg.wellSized (m : MessengerMsg) : WellSized m.bytes where
  announced_eq := m.announced_bytes.trans m.length_bytes.symm
  header_le := m.length_bytes ▸ Nat.le_add_right 3 _
  length_le := m.length_bytes ▸ m.length_le

/-- The event of a message has its type and its body. -/
theorem MsgEvent.ofMessage_bytes (m : MessengerMsg) : MsgEvent.ofMessage m.bytes =
    ⟨3 + m.body.length, 3 + m.body.length, m.type, m.body⟩ := by
  rw [MsgEvent.ofMessage, m.length_bytes, m.announced_bytes]
  rfl

/-- The test that cuts a stream of binary messages. -/
def complete (data : Bytes) : Bool := announced data = data.length && 2 < data.length

theorem complete_take {m : Bytes} (hm : WellSized m) {n : Nat} (hn : n ≤ m.length) :
    complete (m.take n) = decide (n = m.length) := by
  have hheader := hm.header_le
  rw [complete, List.length_take_of_le hn]
  by_cases htwo : 2 < n
  · rw [announced_take htwo.le, hm.announced_eq, decide_eq_true htwo, Bool.and_true]
    exact decide_eq_decide.mpr eq_comm
  · rw [decide_eq_false htwo, Bool.and_false]
    exact (decide_eq_false (by omega)).symm

theorem WellSized.part {m : Bytes} (hm : WellSized m) : Lib.Part complete m where
  ne_nil := List.ne_nil_of_length_pos (Nat.lt_of_lt_of_le (by decide) hm.header_le)
  accepted := by
    have h := complete_take hm le_rfl
    rwa [List.take_length, decide_eq_true rfl] at h
  shortest := by
    intro i _ hlt
    rw [complete_take hm hlt.le]
    exact decide_eq_false hlt.ne

/-- What has been seen, what is left of the block and what comes later are messages, and the
first of them is not complete. -/
def Framing (later : Bytes) (_ : Unit) (cur xs : Bytes) : Prop :=
  ∃ ms : List Bytes, (∀ m ∈ ms, WellSized m) ∧ cur ++ xs ++ later = ms.flatten ∧
    ∀ m ∈ ms.head?, cur.length < m.length

/-- How much of a block is copied when the beginning of a message has been seen. -/
theorem processBlock_take {m xs : Bytes} (hm : WellSized m) {k : Nat} (hk : k < m.length)
    (hxs : xs ≠ []) : ∃ n, 0 < n ∧ n ≤ xs.length ∧ k + n ≤ m.length ∧
      messenger.processBlock () xs (m.take k) = ((n : Int), ()) := by
  have hheader := hm.header_le
  have hpos : 0 < xs.length := List.length_pos_iff.mpr hxs
  dsimp only [messenger]
  rw [List.length_take_of_le hk.le]
  split_ifs with hk₂ hxs₂ hfits
  · exact ⟨xs.length, hpos, le_rfl, by omega, rfl⟩
  · exact ⟨2, by decide, by omega, by omega, rfl⟩
  · rw [announced_take (by omega), hm.announced_eq] at hfits
    exact ⟨xs.length, hpos, le_rfl, by omega, rfl⟩
  · rw [announced_take (by omega), hm.announced_eq] at hfits ⊢
    exact ⟨m.length - k, by omega, by omega, by omega, by rw [Nat.cast_sub hk.le]⟩

theorem cuts_complete (later : Bytes) : Cuts messenger id complete (Framing later) := by
  rintro ⟨⟩ cur xs ⟨ms, hms, hall, hshort⟩ hxs
  cases ms with
  | nil =>
    rw [List.flatten_nil, List.append_assoc] at hall
    exact absurd (List.append_eq_nil_iff.mp (List.append_eq_nil_iff.mp hall).2).1 hxs
  | cons m ms =>
    have hm := hms m List.mem_cons_self
    have hlt : cur.length < m.length := hshort m rfl
    rw [List.flatten_cons] at hall
    have hcur : cur = m.take cur.length := by
      have h := congrArg (List.take cur.length) hall
      rwa [List.append_assoc, List.take_left, List.take_append_of_le_length hlt.le] at h
    obtain ⟨n, hpos, hle, hmle, hprocess⟩ := processBlock_take hm hlt hxs
    have htake : ∀ i ≤ n, cur ++ xs.take i = m.take (cur.length + i) := by
      intro i hi
      have h := congrArg (List.take (cur.length + i)) hall
      rwa [List.append_assoc, List.take_length_add_append,
        List.take_append_of_le_length (by omega), List.take_append_of_le_length (by omega)] at h
    refine ⟨n, (), hpos, hle, ?_, fun i hi hlt => ?_, ?_, ?_⟩
    · rw [List.map_id, List.map_id, hcur]
      exact hprocess
    · rw [htake i hlt.le, complete_take hm (by omega)]
      exact decide_eq_false (by omega)
    · rw [List.map_id]
      rfl
    · have hsplit : cur ++ xs ++ later = m.take (cur.length + n) ++ (xs.drop n ++ later) := by
        rw [← htake n le_rfl, List.append_assoc, List.append_assoc,
          ← List.append_assoc (xs.take n), List.take_append_drop]
      rw [htake n le_rfl, complete_take hm hmle]
      by_cases hend : cur.length + n = m.length
      · rw [decide_eq_true hend, if_pos rfl]
        refine ⟨ms, fun m hm => hms m (List.mem_cons_of_mem _ hm), ?_, fun m' hm' => ?_⟩
        · rw [hend, List.take_length, hall] at hsplit
          exact (List.append_cancel_left hsplit).symm
        · have hheader := (hms m' (List.mem_cons_of_mem m (List.mem_of_mem_head? hm'))).header_le
          exact Nat.lt_of_lt_of_le (by decide) hheader
      · rw [decide_eq_false hend, if_neg Bool.false_ne_true]
        refine ⟨m :: ms, hms, ?_, fun m' hm' => ?_⟩
        · rw [List.append_assoc, ← hsplit, hall, List.flatten_cons]
        · cases hm'
          rw [List.length_take_of_le hmle]
          omega

theorem cutsReads_complete : CutsReads messenger id complete Read.bytes Framing where
  cuts := cuts_complete
  bytes read := List.map_id _
  before := by
    rintro c cur read reads ⟨ms, hms, hall, hshort⟩
    refine ⟨ms, hms, ?_, hshort⟩
    rwa [List.append_nil, List.flatMap_cons, ← List.append_assoc] at hall

/-- However binary messages are cut into reads, they are posted as they were sent, in order. -/
theorem posts_messages (msgs : List MessengerMsg) (reads : List Read)
    (h : stream reads = msgs.flatMap MessengerMsg.bytes) :
    ∃ c, Receives messenger (Ends messenger) (.init ()) reads c ∧ c.received = [] ∧
      c.posted = msgs.map MessengerMsg.bytes ∧
      c.posted.map MsgEvent.ofMessage =
        msgs.map fun m => ⟨3 + m.body.length, 3 + m.body.length, m.type, m.body⟩ := by
  have hsized : ∀ m ∈ msgs.map MessengerMsg.bytes, WellSized m := by
    intro m hm
    obtain ⟨msg, -, rfl⟩ := List.mem_map.mp hm
    exact msg.wellSized
  have hstream : reads.flatMap Read.bytes = (msgs.map MessengerMsg.bytes).flatten := by
    rw [List.flatten_eq_flatMap, List.flatMap_map]
    exact h
  have hcut : Lib.cut complete [] (reads.flatMap Read.bytes) =
      (msgs.map MessengerMsg.bytes, []) :=
    Lib.cut_eq_iff.mpr ⟨by rw [hstream, List.append_nil],
      fun m hm => (hsized m hm).part, Lib.uncut_nil⟩
  have hinv : Framing (reads.flatMap Read.bytes) () [] [] := by
    refine ⟨msgs.map MessengerMsg.bytes, hsized, hstream, fun m hm => ?_⟩
    exact Nat.lt_of_lt_of_le (by decide) (hsized m (List.mem_of_mem_head? hm)).header_le
  obtain ⟨c, hreceives⟩ := cutsReads_complete.receives (c := .init ()) hinv rfl
    (by
      rw [hcut]
      exact fun m hm => (hsized m hm).length_le)
    (by
      rw [hcut]
      exact Nat.zero_le _)
  obtain ⟨hposted, hreceived, -⟩ := cutsReads_complete.of_receives hinv rfl hreceives
  rw [hcut] at hposted hreceived
  have hposted : c.posted = msgs.map MessengerMsg.bytes := by
    rw [hposted, List.map_id_fun, List.map_id]
    rfl
  refine ⟨c, hreceives, hreceived, hposted, ?_⟩
  rw [hposted, List.map_map]
  exact List.map_congr_left fun m _ => MsgEvent.ofMessage_bytes m

/-- Two messages, the first of which is read in two pieces, the rest with the second. -/
theorem posts_messages_split :
    ∃ c, Receives messenger (Ends messenger) (.init ())
      [⟨[0], false, by decide, by decide⟩, ⟨[5, 10, 1, 2, 0, 3], false, by decide, by decide⟩,
        ⟨[1], false, by decide, by decide⟩] c ∧
      c.posted.map MsgEvent.ofMessage = [⟨5, 5, 10, [1, 2]⟩, ⟨3, 3, 1, []⟩] := by
  obtain ⟨c, hreceives, -, -, hevents⟩ :=
    posts_messages [⟨10, [1, 2], by decide⟩, ⟨1, [], by decide⟩]
      [⟨[0], false, by decide, by decide⟩, ⟨[5, 10, 1, 2, 0, 3], false, by decide, by decide⟩,
        ⟨[1], false, by decide, by decide⟩] rfl
  exact ⟨c, hreceives, hevents⟩

end Framing

end Nox.Messenger

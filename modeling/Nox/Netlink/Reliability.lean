import Nox.Netlink.Transactions

/-!
# No transaction waits in vain

Whatever the kernel drops, a transaction that waits for its reply will be woken: its request or the
reply is on the way, or the socket will tell of a loss, or the transaction is about to be
retransmitted (`Reaches.reliable`).  What a call returns is a message of the kernel with the
number of the transaction's request, whole, and no answer to another request.
-/

namespace Nox.Netlink.NlSocket

open Lib

variable {P : Type} {first : UInt32} {s s' : NlSocket P} {r : Running P}
  {t t' : NlTransaction} {id errno : Nat} {block : Bool} {m : Nlmsg}

section Invariant

/-! ## What holds between two calls -/

def todo (s : NlSocket P) : List Nat := s.running.elim [] (·.pc.todo)

def peeked (s : NlSocket P) : Option Nat := s.running.bind (·.pc.peeked)

/-- Something will come for this transaction. -/
def Covered (s : NlSocket P) (id : Nat) : Prop :=
  id ∈ s.pending ∨ (∃ m ∈ s.queue, m.answers = some id) ∨ s.enobufs = true ∨ id ∈ s.todo

/-- The message is one of the kernel's, and answers this request if it is an answer. -/
structure IsFor (first : UInt32) (sent : List Nlmsg) (m : Nlmsg) (id : Nat) : Prop where
  sent : m ∈ sent
  seq : m.seq = seqOf first id
  answers : ∀ id', m.answers = some id' → id' = id

structure Inv (first : UInt32) (s : NlSocket P) : Prop where
  calls : s.calls ≤ 2 ^ 32
  nodup : (s.transactions.map (·.id)).Nodup
  lt : ∀ t ∈ s.transactions, t.id < s.calls
  sized : ∀ m ∈ s.queue, nlmsgHdrlen ≤ m.size
  queued : ∀ m ∈ s.queue, m ∈ s.sent
  answers : ∀ m ∈ s.sent, ∀ id, m.answers = some id → m.seq = seqOf first id ∧ id < s.calls
  pending : ∀ id ∈ s.pending, id < s.calls
  covered : ∀ t ∈ s.transactions, t.status = needReply → s.Covered t.id
  replied : ∀ t ∈ s.transactions, ∀ m, t.reply = some m → IsFor first s.sent m t.id
  outcomes : ∀ o ∈ s.outcomes, ∀ m, o.result = .ok m → IsFor first s.sent m o.id
  awaits : ∀ p id, s.blocked p = some (id, .readable) →
    ∃ t ∈ s.transactions, t.id = id ∧ t.status = needReply
  peeked : ∀ size, s.peeked = some size → ∃ m queue, s.queue = m :: queue ∧ m.size = size

/-- The numbers of the transactions differ. -/
theorem seqOf_inj {id id' : Nat} (hid : id < 2 ^ 32) (hid' : id' < 2 ^ 32)
    (h : seqOf first id = seqOf first id') : id = id' := by
  have heq : UInt32.ofNat id = UInt32.ofNat id' := by
    have hsub := congrArg (· - first) h
    simpa [seqOf, UInt32.add_comm first] using hsub
  have hnat := congrArg UInt32.toNat heq
  rwa [UInt32.toNat_ofNat_of_lt' hid, UInt32.toNat_ofNat_of_lt' hid'] at hnat

theorem inv_init : (init : NlSocket P).Inv first where
  calls := Nat.zero_le _
  nodup := List.nodup_nil
  lt := List.forall_mem_nil _
  sized := List.forall_mem_nil _
  queued := List.forall_mem_nil _
  answers := List.forall_mem_nil _
  pending := List.forall_mem_nil _
  covered := List.forall_mem_nil _
  replied := List.forall_mem_nil _
  outcomes := List.forall_mem_nil _
  awaits := fun _ _ h => absurd h.symm (Option.some_ne_none _)
  peeked := fun _ h => absurd h.symm (Option.some_ne_none _)

theorem mem_put {t u : NlTransaction} (h : u ∈ (s.put t).transactions) :
    u = t ∨ u ∈ s.transactions ∧ u.id ≠ t.id := by
  obtain ⟨v, hv, rfl⟩ := List.mem_map.mp h
  split
  · exact .inl rfl
  · next hne => exact .inr ⟨hv, hne⟩

theorem map_id_put (s : NlSocket P) (t : NlTransaction) :
    (s.put t).transactions.map (·.id) = s.transactions.map (·.id) := by
  unfold put
  rw [List.map_map]
  refine List.map_congr_left fun u _ => ?_
  dsimp only [Function.comp]
  split
  · next heq => exact heq.symm
  · rfl

theorem mem_put_of_ne {t u : NlTransaction} (hu : u ∈ s.transactions) (hne : u.id ≠ t.id) :
    u ∈ (s.put t).transactions := by
  refine List.mem_map.mpr ⟨u, hu, ?_⟩
  rw [if_neg hne]

theorem find_some (h : s.find id = some t) : t ∈ s.transactions ∧ t.id = id := by
  refine ⟨List.mem_of_find?_eq_some h, ?_⟩
  exact of_decide_eq_true (List.find?_some (p := fun t : NlTransaction => decide (t.id = id)) h)

theorem lookup_some {seq : UInt32} (h : s.lookup first seq = some t) :
    t ∈ s.transactions ∧ seqOf first t.id = seq := by
  refine ⟨List.mem_of_find?_eq_some h, ?_⟩
  exact of_decide_eq_true (List.find?_some (p := fun t : NlTransaction => decide (seqOf first t.id = seq)) h)

theorem lookup_none {seq : UInt32} (h : s.lookup first seq = none) {t : NlTransaction}
    (ht : t ∈ s.transactions) : seqOf first t.id ≠ seq := by
  have hall := List.find?_eq_none.mp h t ht
  exact fun heq => hall (decide_eq_true heq)

/-- Two transactions with one number are one. -/
theorem Inv.eq_of_seq (h : s.Inv first) (ht : t ∈ s.transactions) (ht' : t' ∈ s.transactions)
    (heq : seqOf first t.id = seqOf first t'.id) : t = t' := by
  have hlt := Nat.lt_of_lt_of_le (h.lt t ht) h.calls
  have hlt' := Nat.lt_of_lt_of_le (h.lt t' ht') h.calls
  exact List.inj_on_of_nodup_map h.nodup ht ht' (seqOf_inj hlt hlt' heq)

theorem Inv.eq_of_id (h : s.Inv first) (ht : t ∈ s.transactions) (ht' : t' ∈ s.transactions)
    (heq : t.id = t'.id) : t = t' :=
  List.inj_on_of_nodup_map h.nodup ht ht' heq

/-- A message with a transaction's number answers no other. -/
theorem Inv.isFor (h : s.Inv first) (hm : m ∈ s.sent) (ht : t ∈ s.transactions)
    (hseq : seqOf first t.id = m.seq) : IsFor first s.sent m t.id where
  sent := hm
  seq := hseq.symm
  answers id' hid' := by
    obtain ⟨hseq', hlt'⟩ := h.answers m hm id' hid'
    have hlt := Nat.lt_of_lt_of_le (h.lt t ht) h.calls
    exact seqOf_inj (Nat.lt_of_lt_of_le hlt' h.calls) hlt (hseq'.symm.trans hseq.symm)

end Invariant

section Parts

/-! ## Parts of a step -/

/-- The running thread goes on, and leaves nothing to be retransmitted. -/
theorem Inv.run (h : s.Inv first) (running : Option (Running P))
    (htodo : ∀ t ∈ s.transactions, t.status = needReply → t.id ∈ s.todo →
      t.id ∈ s.pending ∨ t.id ∈ running.elim [] (·.pc.todo))
    (hpeeked : ∀ size, running.bind (·.pc.peeked) = some size →
      ∃ m queue, s.queue = m :: queue ∧ m.size = size) :
    { s with running }.Inv first where
  calls := h.calls
  nodup := h.nodup
  lt := h.lt
  sized := h.sized
  queued := h.queued
  answers := h.answers
  pending := h.pending
  covered t ht hstatus := by
    rcases h.covered t ht hstatus with hc | hc | hc | hc
    · exact .inl hc
    · exact .inr (.inl hc)
    · exact .inr (.inr (.inl hc))
    · exact (htodo t ht hstatus hc).imp_right fun hc => .inr (.inr hc)
  replied := h.replied
  outcomes := h.outcomes
  awaits := h.awaits
  peeked := hpeeked

/-- Nothing is to be retransmitted by a thread that is elsewhere. -/
theorem not_mem_todo (htodo : s.todo = []) {Q : Prop} (hid : id ∈ s.todo) : Q := by
  rw [htodo] at hid
  exact absurd hid List.not_mem_nil

theorem Inv.goto (h : s.Inv first) (htodo : s.todo = []) {pc : Pc} (hpeeked : pc.peeked = none) :
    (s.goto r pc).Inv first :=
  h.run (some { r with pc }) (fun _ _ _ hid => not_mem_todo htodo hid)
    fun _ hsize => absurd (hpeeked.symm.trans hsize).symm (Option.some_ne_none _)

theorem Inv.leave (h : s.Inv first) (htodo : s.todo = []) {result : Except Nat Nlmsg}
    (hresult : ∀ m, result = .ok m → IsFor first s.sent m r.id) : (s.leave r result).Inv first := by
  have hrun := h.run none (fun _ _ _ hid => not_mem_todo htodo hid)
    fun _ hsize => absurd hsize.symm (Option.some_ne_none _)
  refine ⟨hrun.calls, hrun.nodup, hrun.lt, hrun.sized, hrun.queued, hrun.answers, hrun.pending,
    hrun.covered, hrun.replied, fun o ho m hm => ?_, hrun.awaits, hrun.peeked⟩
  rcases List.mem_append.mp ho with ho | ho
  · exact hrun.outcomes o ho m hm
  · cases List.mem_singleton.mp ho
    exact hresult m hm

theorem Inv.fail (h : s.Inv first) (htodo : s.todo = []) (error : Nat) (block : Bool) :
    (s.fail r error block).Inv first := by
  unfold NlSocket.fail
  split
  · exact h.goto htodo rfl
  · exact h.leave htodo (by rintro m ⟨⟩)

theorem Inv.broadcast (h : s.Inv first) (id : Nat) : (s.broadcast id).Inv first where
  calls := h.calls
  nodup := h.nodup
  lt := h.lt
  sized := h.sized
  queued := h.queued
  answers := h.answers
  pending := h.pending
  covered := h.covered
  replied := h.replied
  outcomes := h.outcomes
  awaits p id' hp := by
    unfold NlSocket.broadcast at hp
    dsimp only at hp
    split at hp
    · cases hp
    · exact h.awaits p id' hp
  peeked := h.peeked

theorem broadcast_blocked (s : NlSocket P) (id : Nat) (p : P) :
    (s.broadcast id).blocked p ≠ some (id, .readable) := by
  unfold NlSocket.broadcast
  dsimp only
  split
  · rintro ⟨⟩
  · next hne => exact hne

/-- A transaction changes that nobody waits for, or that still waits for its reply. -/
theorem Inv.put (h : s.Inv first) (ht : t ∈ s.transactions) (hid : t'.id = t.id)
    (hcovered : t'.status = needReply → s.Covered t'.id)
    (hreply : ∀ m, t'.reply = some m → IsFor first s.sent m t'.id)
    (hawait : t'.status = needReply ∨ ∀ p, s.blocked p ≠ some (t'.id, .readable)) :
    (s.put t').Inv first where
  calls := h.calls
  nodup := by
    rw [map_id_put]
    exact h.nodup
  lt u hu := by
    rcases mem_put hu with rfl | ⟨hu, -⟩
    · exact hid ▸ h.lt t ht
    · exact h.lt u hu
  sized := h.sized
  queued := h.queued
  answers := h.answers
  pending := h.pending
  covered u hu hstatus := by
    rcases mem_put hu with rfl | ⟨hu, -⟩
    · exact hcovered hstatus
    · exact h.covered u hu hstatus
  replied u hu m hm := by
    rcases mem_put hu with rfl | ⟨hu, -⟩
    · exact hreply m hm
    · exact h.replied u hu m hm
  outcomes := h.outcomes
  awaits p id' hp := by
    obtain ⟨u, hu, rfl, hstatus⟩ := h.awaits p id' hp
    by_cases hut : u.id = t'.id
    · rcases hawait with hawait | hawait
      · refine ⟨t', List.mem_map.mpr ⟨t, ht, ?_⟩, hut.symm, hawait⟩
        rw [if_pos hid.symm]
      · exact absurd (hut ▸ hp) (hawait p)
    · exact ⟨u, mem_put_of_ne hu hut, rfl, hstatus⟩
  peeked := h.peeked

theorem Inv.send (h : s.Inv first) (hlt : id < s.calls) :
    { s with pending := s.pending ++ [id] }.Inv first where
  calls := h.calls
  nodup := h.nodup
  lt := h.lt
  sized := h.sized
  queued := h.queued
  answers := h.answers
  pending id' hid' := by
    rcases List.mem_append.mp hid' with hid' | hid'
    · exact h.pending id' hid'
    · rwa [List.mem_singleton.mp hid']
  covered t ht hstatus := (h.covered t ht hstatus).imp_left fun hid => List.mem_append_left _ hid
  replied := h.replied
  outcomes := h.outcomes
  awaits := h.awaits
  peeked := h.peeked

/-- What a retransmission makes of a transaction. -/
theorem retransmit_cases (t : NlTransaction) (errno : Nat) :
    t.retransmit errno = (t, errno) ∨ t.status ≠ needRetransmit ∧ t.retransmit errno = (t, 0) ∨
      t.status = needRetransmit ∧ errno = 0 ∧
        t.retransmit errno = ({ t with status := needReply }, 0) ∨
      t.status = needRetransmit ∧ errno ≠ 0 ∧
        t.retransmit errno = ({ t with status := errno }, errno) := by
  unfold NlTransaction.retransmit
  by_cases hstatus : t.status = needRetransmit
  · rw [if_pos hstatus]
    by_cases herrno : errno = 0
    · rw [if_pos herrno]
      exact .inr (.inr (.inl ⟨hstatus, herrno, rfl⟩))
    · rw [if_neg herrno]
      by_cases hagain : errno ≠ EAGAIN
      · rw [if_pos hagain]
        exact .inr (.inr (.inr ⟨hstatus, herrno, rfl⟩))
      · rw [if_neg hagain]
        exact .inl rfl
  · rw [if_neg hstatus]
    exact .inr (.inl ⟨hstatus, rfl⟩)

theorem retransmit_id (t : NlTransaction) (errno : Nat) : (t.retransmit errno).1.id = t.id := by
  rcases retransmit_cases t errno with h | ⟨-, h⟩ | ⟨-, -, h⟩ | ⟨-, -, h⟩ <;> rw [h]

theorem retransmit_reply (t : NlTransaction) (errno : Nat) :
    (t.retransmit errno).1.reply = t.reply := by
  rcases retransmit_cases t errno with h | ⟨-, h⟩ | ⟨-, -, h⟩ | ⟨-, -, h⟩ <;> rw [h]

/-- A transaction that waits for its reply has been sent, or did so before. -/
theorem retransmit_needReply {t : NlTransaction} {errno : Nat}
    (h : (t.retransmit errno).1.status = needReply) :
    t.status = needReply ∨ t.status = needRetransmit ∧ (t.retransmit errno).2 = 0 := by
  rcases retransmit_cases t errno with h' | ⟨-, h'⟩ | ⟨hstatus, -, h'⟩ | ⟨-, -, h'⟩
  · rw [h'] at h
    exact .inl h
  · rw [h'] at h
    exact .inl h
  · exact .inr ⟨hstatus, by rw [h']⟩
  · rw [h'] at h
    have hcast : (errno : Int) = needReply := h
    unfold needReply at hcast
    omega

/-- A transaction that nobody waits for is retransmitted. -/
theorem Inv.retransmit (h : s.Inv first) (ht : t ∈ s.transactions)
    (hawait : t.status = needReply ∨ ∀ p, s.blocked p ≠ some (t.id, .readable)) (errno : Nat) :
    (s.retransmit t errno).1.Inv first := by
  have hid := retransmit_id t errno
  have hput (pending : List Nat) (hpending : { s with pending }.Inv first)
      (hcovered : (t.retransmit errno).1.status = needReply →
        ({ s with pending } : NlSocket P).Covered t.id) :
      (({ s with pending } : NlSocket P).put (t.retransmit errno).1).Inv first := by
    refine hpending.put ht hid (hid ▸ hcovered) ?_ ?_
    · intro m hm
      rw [retransmit_reply] at hm
      exact hid ▸ h.replied t ht m hm
    · rcases hawait with hawait | hawait
      · left
        rcases retransmit_cases t errno with h' | ⟨-, h'⟩ | ⟨-, -, h'⟩ | ⟨hstatus, -, -⟩
        · rw [h']
          exact hawait
        · rw [h']
          exact hawait
        · rw [h']
        · rw [hawait] at hstatus
          cases hstatus
      · exact .inr (hid ▸ hawait)
  unfold NlSocket.retransmit
  dsimp only
  split
  · exact hput (s.pending ++ [t.id]) (h.send (h.lt t ht))
      fun _ => .inl (List.mem_append_right _ List.mem_cons_self)
  · next hnot =>
    refine hput s.pending h fun hstatus => ?_
    rcases retransmit_needReply hstatus with hstatus | hstatus
    · exact h.covered t ht hstatus
    · exact absurd hstatus hnot

end Parts

section Steps

/-! ## The steps -/

theorem todo_eq (hr : s.running = some r) : s.todo = r.pc.todo := by
  unfold NlSocket.todo
  rw [hr]
  rfl

theorem todo_none (hr : s.running = none) : s.todo = [] := by
  unfold NlSocket.todo
  rw [hr]
  rfl

/-- Nobody waits to read for a transaction that is not to be replied to. -/
theorem Inv.not_awaited (h : s.Inv first) (ht : t ∈ s.transactions) (hstatus : t.status ≠ needReply)
    (p : P) : s.blocked p ≠ some (t.id, .readable) := by
  intro hp
  obtain ⟨u, hu, hid, hustatus⟩ := h.awaits p t.id hp
  exact hstatus (h.eq_of_id ht hu hid.symm ▸ hustatus)

theorem retransmit_running (s : NlSocket P) (t : NlTransaction) (errno : Nat) :
    (s.retransmit t errno).1.running = s.running := by
  unfold NlSocket.retransmit
  dsimp only
  split <;> rfl

theorem todo_retransmit (s : NlSocket P) (t : NlTransaction) (errno : Nat) :
    (s.retransmit t errno).1.todo = s.todo := by
  unfold NlSocket.todo
  rw [retransmit_running]

theorem Inv.switch (h : s.Inv first) (htodo : s.todo = []) (ht : t ∈ s.transactions)
    (hid : t.id = r.id) (hswitch : s.switch r t errno block = some s') : s'.Inv first := by
  unfold NlSocket.switch at hswitch
  split at hswitch
  · next hstatus =>
    have hawait := h.not_awaited ht (by rw [hstatus]; decide)
    have hsent := h.retransmit ht (.inr hawait) errno
    have htodo' := (todo_retransmit s t errno).trans htodo
    dsimp only at hswitch
    split at hswitch <;> cases hswitch
    · exact hsent.fail htodo' _ _
    · exact hsent.goto htodo' rfl
  split at hswitch
  · cases hswitch
    exact h.goto htodo rfl
  split at hswitch
  · next hretransmit hreply hstatus =>
    split at hswitch
    · cases hswitch
    · next m hm =>
      have hawait := h.not_awaited ht hreply
      have hput : (s.put { t with reply := none }).Inv first :=
        h.put ht rfl (fun hc => absurd hc hreply) (fun _ hc => absurd hc.symm (Option.some_ne_none _))
          (.inr hawait)
      dsimp only at hswitch
      split at hswitch <;> cases hswitch
      · next m' hresult =>
        refine hput.leave htodo fun m'' hm'' => ?_
        cases hm''
        have hfor := h.replied t ht m hm
        have heq : m' = m := by
          unfold Nlmsg.result at hresult
          repeat' split at hresult
          all_goals cases hresult
          all_goals rfl
        rw [heq, ← hid]
        exact hfor
      · exact hput.fail htodo _ _
  · cases hswitch
    exact h.fail htodo _ _

/-- A message is taken from the queue that answers no transaction that waits for one. -/
theorem Inv.pop (h : s.Inv first) (htodo : s.todo = []) {queue : List Nlmsg}
    (hqueue : s.queue = m :: queue)
    (hother : ∀ t ∈ s.transactions, t.status = needReply → m.answers ≠ some t.id) {pc : Pc}
    (hpeeked : pc.peeked = none) : ({ s with queue }.goto r pc).Inv first where
  calls := h.calls
  nodup := h.nodup
  lt := h.lt
  sized m' hm' := h.sized m' (hqueue ▸ List.mem_cons_of_mem m hm')
  queued m' hm' := h.queued m' (hqueue ▸ List.mem_cons_of_mem m hm')
  answers := h.answers
  pending := h.pending
  covered t ht hstatus := by
    rcases h.covered t ht hstatus with hc | ⟨m', hm', hc⟩ | hc | hc
    · exact .inl hc
    · rw [hqueue] at hm'
      rcases List.mem_cons.mp hm' with rfl | hm'
      · exact absurd hc (hother t ht hstatus)
      · exact .inr (.inl ⟨m', hm', hc⟩)
    · exact .inr (.inr (.inl hc))
    · exact not_mem_todo htodo hc
  replied := h.replied
  outcomes := h.outcomes
  awaits := h.awaits
  peeked _ hsize := absurd (hpeeked.symm.trans hsize).symm (Option.some_ne_none _)

theorem Inv.receive (h : s.Inv first) (htodo : s.todo = []) {queue : List Nlmsg}
    (hqueue : s.queue = m :: queue) : ({ s with queue }.receive first r m block).Inv first := by
  have hm : m ∈ s.queue := hqueue ▸ List.mem_cons_self
  have hsized : ¬m.size < nlmsgHdrlen := Nat.not_lt.mpr (h.sized m hm)
  unfold NlSocket.receive
  rw [if_neg hsized]
  split
  · next hnone =>
    refine h.pop htodo hqueue (fun t ht _ hanswers => ?_) rfl
    exact lookup_none (s := s) hnone ht (h.answers m (h.queued m hm) t.id hanswers).1.symm
  · next t hsome =>
    obtain ⟨ht, hseq⟩ := lookup_some (s := s) hsome
    -- another transaction has another number
    have hother : ∀ u ∈ s.transactions, m.answers = some u.id → u = t := by
      intro u hu hanswers
      have huseq := (h.answers m (h.queued m hm) u.id hanswers).1
      exact h.eq_of_seq hu ht (huseq.symm.trans hseq.symm)
    split
    · have hdone : ((s.broadcast t.id).put { t with status := 0, reply := some m }).Inv first := by
        refine (h.broadcast t.id).put ht rfl (by rintro ⟨⟩) ?_ (.inr (broadcast_blocked s t.id))
        intro m' hm'
        cases hm'
        exact h.isFor (t := t) (h.queued m hm) ht hseq
      refine hdone.pop htodo hqueue (fun u hu hstatus hanswers => ?_) rfl
      rcases mem_put hu with rfl | ⟨hu, hne⟩
      · cases hstatus
      · have hid : u.id = t.id := congrArg NlTransaction.id (hother u hu hanswers)
        exact hne hid
    · next hnonneg =>
      refine h.pop htodo hqueue (fun u hu hstatus hanswers => ?_) rfl
      rw [← hother u hu hanswers, hstatus] at hnonneg
      exact hnonneg (by decide)

/-- A call of `recv` finds the first message, if it finds one. -/
theorem Inv.recv (h : s.Inv first) (htodo : s.todo = []) {order : List Nat} {back : Option Nat}
    {found : Nlmsg → List Nlmsg → Option (NlSocket P)}
    (hback : ∀ size, back = some size → ∃ m queue, s.queue = m :: queue ∧ m.size = size)
    (hfound : ∀ m queue, s.queue = m :: queue → found m queue = some s' → s'.Inv first)
    (hrecv : s.recv r errno block order back found = some s') : s'.Inv first := by
  unfold NlSocket.recv at hrecv
  split at hrecv
  · split at hrecv
    · next horder =>
      cases hrecv
      -- all transactions are gone through, whatever has been lost
      have hall : ∀ t ∈ s.transactions, t.id ∈ order := fun t ht =>
        horder.mem_iff.mpr (List.mem_map_of_mem ht)
      refine ⟨h.calls, h.nodup, h.lt, h.sized, h.queued, h.answers, h.pending, fun t ht _ => ?_,
        h.replied, h.outcomes, h.awaits, hback⟩
      exact .inr (.inr (.inr (hall t ht)))
    · cases hrecv
  split at hrecv
  · cases hrecv
    exact h.fail htodo _ _
  split at hrecv
  · cases hrecv
    exact h.fail htodo _ _
  · next m queue hqueue => exact hfound m queue hqueue hrecv

theorem resend_running (s : NlSocket P) (id errno : Nat) :
    (s.resend id errno).running = s.running := by
  unfold NlSocket.resend
  split
  · rfl
  split
  · exact retransmit_running _ _ _
  · rfl

theorem mem_retransmit {u : NlTransaction} (h : u ∈ (s.retransmit t errno).1.transactions) :
    u = (t.retransmit errno).1 ∨ u ∈ s.transactions ∧ u.id ≠ t.id := by
  rw [← retransmit_id t errno]
  unfold NlSocket.retransmit at h
  dsimp only at h
  split at h <;> exact mem_put h

/-- A transaction that is gone through waits for its reply only if it has been sent again. -/
theorem Inv.resend (h : s.Inv first) (id errno : Nat) :
    (s.resend id errno).Inv first ∧ ∀ t ∈ (s.resend id errno).transactions, t.id = id →
      t.status = needReply → id ∈ (s.resend id errno).pending := by
  unfold NlSocket.resend
  split
  · next hnone =>
    refine ⟨h, fun t ht hid _ => ?_⟩
    have hall := List.find?_eq_none.mp hnone t ht
    exact absurd (decide_eq_true hid) hall
  next t hsome =>
  obtain ⟨ht, rfl⟩ := find_some hsome
  split
  · next hstatus =>
    dsimp only
    -- the thread that waits is woken before the transaction changes
    have hmarked : ((s.broadcast t.id).put { t with status := needRetransmit }).Inv first := by
      refine (h.broadcast t.id).put ht rfl (by rintro ⟨⟩) (h.replied t ht) (.inr ?_)
      exact broadcast_blocked s t.id
    have hmem : { t with status := needRetransmit } ∈
        ((s.broadcast t.id).put { t with status := needRetransmit }).transactions := by
      refine List.mem_map.mpr ⟨t, ht, ?_⟩
      rw [if_pos rfl]
    have hsent := hmarked.retransmit hmem (.inr (broadcast_blocked s t.id)) errno
    have heq : ((s.put { t with status := needRetransmit }).retransmit
        { t with status := needRetransmit } errno).1.broadcast t.id =
        (((s.broadcast t.id).put { t with status := needRetransmit }).retransmit
          { t with status := needRetransmit } errno).1 := by
      unfold NlSocket.retransmit
      dsimp only
      split <;> rfl
    rw [heq]
    refine ⟨hsent, fun u hu hid hustatus => ?_⟩
    rcases mem_retransmit hu with rfl | ⟨-, hne⟩
    · rcases retransmit_needReply hustatus with hc | ⟨-, hzero⟩
      · cases hc
      · unfold NlSocket.retransmit
        dsimp only
        rw [if_pos ⟨rfl, hzero⟩]
        exact List.mem_append_right _ List.mem_cons_self
    · exact absurd hid hne
  · next hstatus =>
    refine ⟨h, fun u hu hid hustatus => ?_⟩
    rw [h.eq_of_id hu ht hid] at hustatus
    exact absurd hustatus hstatus

theorem put_retransmit_mem (ht : t ∈ s.transactions) (errno : Nat) :
    (t.retransmit errno).1 ∈ (s.retransmit t errno).1.transactions := by
  have hput : (t.retransmit errno).1 ∈ (s.put (t.retransmit errno).1).transactions := by
    refine List.mem_map.mpr ⟨t, ht, ?_⟩
    rw [if_pos (retransmit_id t errno).symm]
  unfold NlSocket.retransmit
  dsimp only
  split <;> exact hput

theorem Inv.nextSeq (h : s.Inv first) (hcalls : s.calls < 2 ^ 32) :
    { s with calls := s.calls + 1 }.Inv first where
  calls := hcalls
  nodup := h.nodup
  lt t ht := Nat.lt_succ_of_lt (h.lt t ht)
  sized := h.sized
  queued := h.queued
  answers m hm id hid :=
    ⟨(h.answers m hm id hid).1, Nat.lt_succ_of_lt (h.answers m hm id hid).2⟩
  pending id hid := Nat.lt_succ_of_lt (h.pending id hid)
  covered := h.covered
  replied := h.replied
  outcomes := h.outcomes
  awaits := h.awaits
  peeked := h.peeked

theorem Inv.construct (h : s.Inv first) (hid : id < s.calls)
    (hfree : s.lookup first (seqOf first id) = none) :
    ({ s with transactions := s.transactions ++ [⟨id, needRetransmit, none⟩] } : NlSocket P).Inv
      first := by
  have hmem : ∀ t, t ∈ s.transactions ++ [⟨id, needRetransmit, none⟩] →
      t ∈ s.transactions ∨ t = ⟨id, needRetransmit, none⟩ :=
    fun t ht => (List.mem_append.mp ht).imp_right List.mem_singleton.mp
  refine ⟨h.calls, ?_, fun t ht => ?_, h.sized, h.queued, h.answers, h.pending,
    fun t ht hstatus => ?_, fun t ht m hm => ?_, h.outcomes, fun p id hp => ?_, h.peeked⟩
  · rw [List.map_append]
    refine List.nodup_append.mpr ⟨h.nodup, List.nodup_singleton _, fun id hid id' hid' => ?_⟩
    obtain ⟨t, ht, rfl⟩ := List.mem_map.mp hid
    rw [List.mem_singleton.mp hid']
    rintro rfl
    exact absurd (decide_eq_true rfl) (List.find?_eq_none.mp hfree t ht)
  · rcases hmem t ht with ht | rfl
    · exact h.lt t ht
    · exact hid
  · rcases hmem t ht with ht | rfl
    · exact h.covered t ht hstatus
    · cases hstatus
  · rcases hmem t ht with ht | rfl
    · exact h.replied t ht m hm
    · cases hm
  · obtain ⟨t, ht, hid, hstatus⟩ := h.awaits p id hp
    exact ⟨t, List.mem_append_left _ ht, hid, hstatus⟩

theorem Inv.destruct (h : s.Inv first) (hfree : ∀ p await, s.blocked p ≠ some (id, await)) :
    { s with transactions := s.transactions.filter (·.id ≠ id) }.Inv first where
  calls := h.calls
  nodup := h.nodup.sublist (List.filter_sublist.map _)
  lt t ht := h.lt t (List.mem_of_mem_filter ht)
  sized := h.sized
  queued := h.queued
  answers := h.answers
  pending := h.pending
  covered t ht := h.covered t (List.mem_of_mem_filter ht)
  replied t ht := h.replied t (List.mem_of_mem_filter ht)
  outcomes := h.outcomes
  awaits p id' hp := by
    obtain ⟨t, ht, hid, hstatus⟩ := h.awaits p id' hp
    refine ⟨t, List.mem_filter.mpr ⟨ht, decide_eq_true ?_⟩, hid, hstatus⟩
    rintro rfl
    exact hfree p .readable (hid ▸ hp)
  peeked := h.peeked

/-- Threads are woken. -/
theorem Inv.wake (h : s.Inv first) {blocked : P → Option (Nat × Await)}
    (hblocked : ∀ p id, blocked p = some (id, .readable) → s.blocked p = some (id, .readable)) :
    { s with blocked }.Inv first where
  calls := h.calls
  nodup := h.nodup
  lt := h.lt
  sized := h.sized
  queued := h.queued
  answers := h.answers
  pending := h.pending
  covered := h.covered
  replied := h.replied
  outcomes := h.outcomes
  awaits p id hp := h.awaits p id (hblocked p id hp)
  peeked := h.peeked

/-- The kernel queues a message, and has less to answer if it is the last for a request. -/
theorem Inv.arrive (h : s.Inv first) (hsize : nlmsgHdrlen ≤ m.size)
    (hanswers : ∀ id, m.answers = some id → m.seq = seqOf first id ∧ id < s.calls)
    {pending : List Nat} (hsub : ∀ id ∈ pending, id ∈ s.pending)
    (hpending : ∀ id ∈ s.pending, id ∈ pending ∨ m.answers = some id) :
    { s with pending, queue := s.queue ++ [m], sent := s.sent ++ [m] }.Inv first where
  calls := h.calls
  nodup := h.nodup
  lt := h.lt
  sized m' hm' := by
    rcases List.mem_append.mp hm' with hm' | hm'
    · exact h.sized m' hm'
    · rwa [List.mem_singleton.mp hm']
  queued m' hm' := by
    rcases List.mem_append.mp hm' with hm' | hm'
    · exact List.mem_append_left _ (h.queued m' hm')
    · exact List.mem_append_right _ hm'
  answers m' hm' := by
    rcases List.mem_append.mp hm' with hm' | hm'
    · exact h.answers m' hm'
    · rw [List.mem_singleton.mp hm']
      exact hanswers
  pending id hid := h.pending id (hsub id hid)
  covered t ht hstatus := by
    have hlast : m ∈ s.queue ++ [m] := List.mem_append_right _ List.mem_cons_self
    rcases h.covered t ht hstatus with hc | ⟨m', hm', hc⟩ | hc | hc
    · rcases hpending t.id hc with hc | hc
      · exact .inl hc
      · exact .inr (.inl ⟨m, hlast, hc⟩)
    · exact .inr (.inl ⟨m', List.mem_append_left _ hm', hc⟩)
    · exact .inr (.inr (.inl hc))
    · exact .inr (.inr (.inr hc))
  replied t ht m' hm' := by
    have hfor := h.replied t ht m' hm'
    exact ⟨List.mem_append_left _ hfor.sent, hfor.seq, hfor.answers⟩
  outcomes o ho m' hm' := by
    have hfor := h.outcomes o ho m' hm'
    exact ⟨List.mem_append_left _ hfor.sent, hfor.seq, hfor.answers⟩
  awaits := h.awaits
  peeked size hpeek := by
    obtain ⟨m', queue, hqueue, hm'⟩ := h.peeked size hpeek
    exact ⟨m', queue ++ [m], by rw [hqueue]; rfl, hm'⟩

/-- The kernel drops something, and tells so. -/
theorem Inv.lose (h : s.Inv first) {pending : List Nat} (hsub : ∀ id ∈ pending, id ∈ s.pending) :
    { s with pending, enobufs := true }.Inv first where
  calls := h.calls
  nodup := h.nodup
  lt := h.lt
  sized := h.sized
  queued := h.queued
  answers := h.answers
  pending id hid := h.pending id (hsub id hid)
  covered _ _ _ := .inr (.inr (.inl rfl))
  replied := h.replied
  outcomes := h.outcomes
  awaits := h.awaits
  peeked := h.peeked

theorem Inv.call (h : s.Inv first) (hr : s.running = none) (r : Running P)
    (hpeeked : r.pc.peeked = none) : { s with running := some r }.Inv first :=
  h.run (some r) (fun _ _ _ hid => not_mem_todo (todo_none hr) hid)
    fun _ hsize => absurd (hpeeked.symm.trans hsize).symm (Option.some_ne_none _)

variable [DecidableEq P]

theorem Inv.suspend (h : s.Inv first) (htodo : s.todo = []) {await : Await}
    (hawait : await = .readable → ∃ t ∈ s.transactions, t.id = r.id ∧ t.status = needReply) :
    (s.suspend r await).Inv first := by
  have hrun := h.run none (fun _ _ _ hid => not_mem_todo htodo hid)
    fun _ hsize => absurd hsize.symm (Option.some_ne_none _)
  refine ⟨hrun.calls, hrun.nodup, hrun.lt, hrun.sized, hrun.queued, hrun.answers, hrun.pending,
    hrun.covered, hrun.replied, hrun.outcomes, fun p id hp => ?_, hrun.peeked⟩
  change Function.update s.blocked r.thread (some (r.id, await)) p = some (id, .readable) at hp
  rw [Function.update_apply] at hp
  split at hp
  · obtain ⟨rfl, rfl⟩ := Prod.mk.inj (Option.some.inj hp)
    exact hawait rfl
  · exact h.awaits p id hp

theorem Inv.transactWait (h : s.Inv first) (htodo : s.todo = []) (ht : t ∈ s.transactions)
    (hid : t.id = r.id) (errno : Nat) : (s.transactWait r t errno).Inv first := by
  have hsent : (s.retransmit t errno).1.Inv first := by
    refine h.retransmit ht ?_ errno
    by_cases hstatus : t.status = needReply
    · exact .inl hstatus
    · exact .inr (h.not_awaited ht hstatus)
  have htodo' := (todo_retransmit s t errno).trans htodo
  unfold NlSocket.transactWait
  dsimp only
  split
  · refine hsent.suspend htodo' fun hawait => ?_
    split at hawait <;> cases hawait
  · refine hsent.suspend htodo' fun hawait => ?_
    split at hawait
    · next hstatus =>
      exact ⟨_, put_retransmit_mem ht errno, (retransmit_id t errno).trans hid, hstatus⟩
    · cases hawait

theorem Inv.proceed (h : s.Inv first) (hr : s.running = some r) {order : List Nat}
    (hproceed : s.proceed first r errno block order = some s') : s'.Inv first := by
  have htodo := todo_eq hr
  have hpeeked : ∀ size, r.pc.peeked = some size → ∃ m queue, s.queue = m :: queue ∧ m.size = size := by
    intro size hsize
    refine h.peeked size ?_
    unfold NlSocket.peeked
    rw [hr]
    exact hsize
  unfold NlSocket.proceed at hproceed
  split at hproceed
  · next hpc =>
    rw [hpc] at htodo
    obtain ⟨t, ht, hswitch⟩ := Option.bind_eq_some_iff.mp hproceed
    exact h.switch htodo (find_some ht).1 (find_some ht).2 hswitch
  · next hpc =>
    rw [hpc] at htodo
    refine h.recv htodo (fun _ hsize => absurd hsize.symm (Option.some_ne_none _)) ?_ hproceed
    rintro m queue hqueue hfound
    cases hfound
    refine h.run _ (fun _ _ _ hid => not_mem_todo htodo hid) fun size hsize => ?_
    split at hsize
    · cases hsize
    · cases hsize
      exact ⟨m, queue, hqueue, rfl⟩
  · next size hpc =>
    rw [hpc] at htodo hpeeked
    obtain ⟨m₀, queue₀, hqueue₀, hsize₀⟩ := hpeeked size rfl
    refine h.recv htodo ?_ ?_ hproceed
    · rintro _ ⟨⟩
      exact ⟨m₀, queue₀, hqueue₀, hsize₀⟩
    · rintro m queue hqueue hfound
      cases hfound
      -- it is the message that the first call has told of
      have hm : m = m₀ := (List.cons_eq_cons.mp (hqueue.symm.trans hqueue₀)).1
      have hwhole : ({ m with size := min size m.size } : Nlmsg) = m := by
        rw [hm, hsize₀, Nat.min_self]
        rw [← hsize₀]
      rw [hwhole]
      exact h.receive htodo hqueue
  · next hpc =>
    rw [hpc] at htodo
    cases hproceed
    exact h.goto htodo rfl
  · next size hpc =>
    rw [hpc] at htodo hpeeked
    cases hproceed
    exact h.run _ (fun _ _ _ hid => not_mem_todo htodo hid) hpeeked
  · next id todo back hpc =>
    rw [hpc] at htodo hpeeked
    cases hproceed
    obtain ⟨hsent, hpending⟩ := h.resend id errno
    have hrunning := resend_running s id errno
    refine hsent.run _ (fun t ht hstatus hid => ?_) fun size hsize => ?_
    · unfold NlSocket.todo at hid htodo
      rw [hrunning, htodo] at hid
      rcases List.mem_cons.mp hid with hid | hid
      · exact .inl (hid ▸ hpending t ht hid hstatus)
      · exact .inr hid
    · refine hsent.peeked size ?_
      unfold NlSocket.peeked
      rw [hrunning, hr]
      change r.pc.peeked = some size
      rw [hpc]
      exact hsize
  · next hpc =>
    rw [hpc] at htodo
    obtain ⟨t, ht, rfl⟩ := Option.map_eq_some_iff.mp hproceed
    exact h.transactWait htodo (find_some ht).1 (find_some ht).2 errno

theorem Inv.step {o : NlOp P} (h : s.Inv first) (hvalid : s.Valid o)
    (hstep : s.step first o = some s') : s'.Inv first := by
  cases o with
  | nextSeq =>
    simp only [NlSocket.step] at hstep
    split at hstep <;> cases hstep
    exact h.nextSeq hvalid
  | construct id =>
    simp only [NlSocket.step] at hstep
    split at hstep <;> cases hstep
    next hfree => exact h.construct hfree.2.1 (Option.isNone_iff_eq_none.mp hfree.2.2)
  | destruct id =>
    simp only [NlSocket.step] at hstep
    split at hstep <;> cases hstep
    exact h.destruct hvalid
  | transact p id =>
    simp only [NlSocket.step] at hstep
    split at hstep <;> cases hstep
    next hfree => exact h.call (Option.isNone_iff_eq_none.mp hfree.1) _ rfl
  | transactWait p id =>
    simp only [NlSocket.step] at hstep
    split at hstep <;> cases hstep
    next hfree => exact h.call (Option.isNone_iff_eq_none.mp hfree.1) _ rfl
  | resume p =>
    simp only [NlSocket.step] at hstep
    split at hstep
    · next hrunning hblocked =>
      cases hstep
      have hwake : { s with blocked := Function.update s.blocked p none }.Inv first := by
        refine h.wake fun q id hq => ?_
        rw [Function.update_apply] at hq
        split at hq
        · cases hq
        · exact hq
      exact hwake.call hrunning _ rfl
    · cases hstep
  | readable =>
    simp only [NlSocket.step] at hstep
    split at hstep <;> cases hstep
    refine h.wake fun p id hp => ?_
    obtain ⟨b, hb, heq⟩ := Option.map_eq_some_iff.mp hp
    split at heq
    · cases heq
    · rw [hb, heq]
  | writable =>
    simp only [NlSocket.step] at hstep
    split at hstep <;> cases hstep
    refine h.wake fun p id hp => ?_
    obtain ⟨b, hb, heq⟩ := Option.map_eq_some_iff.mp hp
    split at heq
    · cases heq
    · rw [hb, heq]
  | proceed errno block order =>
    obtain ⟨r, hr, hproceed⟩ := Option.bind_eq_some_iff.mp hstep
    exact h.proceed hr hproceed
  | answer id m last =>
    simp only [NlSocket.step] at hstep
    split at hstep <;> cases hstep
    next hid =>
    refine h.arrive (m := { m with seq := seqOf first id, answers := some id }) hvalid ?_ ?_ ?_
    · rintro _ ⟨⟩
      exact ⟨rfl, h.pending id hid⟩
    · intro id' hid'
      split at hid'
      · exact List.mem_of_mem_erase hid'
      · exact hid'
    · intro id' hid'
      by_cases heq : id' = id
      · exact .inr (congrArg some heq.symm)
      · left
        split
        · exact (List.mem_erase_of_ne heq).mpr hid'
        · exact hid'
  | drop id =>
    simp only [NlSocket.step] at hstep
    split at hstep <;> cases hstep
    exact h.lose fun id' hid' => List.mem_of_mem_erase hid'
  | notify m =>
    cases hstep
    refine h.arrive (m := { m with answers := none }) hvalid ?_ (fun _ hid => hid)
      fun _ hid => .inl hid
    rintro _ ⟨⟩
  | dropNotice =>
    cases hstep
    exact h.lose fun _ hid => hid

end Steps

section Runs

/-! ## Runs -/

variable [DecidableEq P]

theorem Reaches.inv (h : Reaches (step first) Valid init s) : s.Inv first :=
  h.invariant inv_init fun _ _ _ hinv hvalid hstep => hinv.step hvalid hstep

/-- A socket whose transactions are reliable though the kernel's answers are not. -/
structure Reliable (first : UInt32) (s : NlSocket P) : Prop where
  /-- The request of a transaction that waits for its reply has not been answered, or the answer is
  queued, or the socket tells of a loss, or the transaction is about to be sent again. -/
  covered : ∀ t ∈ s.transactions, t.status = needReply → s.Covered t.id
  /-- A thread waits to read only for such a transaction: who completes it wakes the thread. -/
  awaited : ∀ p id, s.blocked p = some (id, .readable) →
    ∃ t ∈ s.transactions, t.id = id ∧ t.status = needReply
  /-- Where all requests have been answered and there is nothing to read, nobody waits to. -/
  awake : s.running = none → s.pending = [] → s.queue = [] → s.enobufs = false →
    ∀ p id, s.blocked p ≠ some (id, .readable)
  /-- What a call returns is a whole message of the kernel with the number of its request, and
  answers no other request. -/
  replied : ∀ o ∈ s.outcomes, ∀ m, o.result = .ok m → IsFor first s.sent m o.id

/-- Whatever is lost. -/
theorem Reaches.reliable (h : Reaches (step first) Valid init s) : s.Reliable first := by
  have hinv := Reaches.inv h
  refine ⟨hinv.covered, hinv.awaits, fun hrunning hpending hqueue henobufs p id hp => ?_,
    hinv.outcomes⟩
  obtain ⟨t, ht, -, hstatus⟩ := hinv.awaits p id hp
  rcases hinv.covered t ht hstatus with hc | ⟨m, hm, -⟩ | hc | hc
  · rw [hpending] at hc
    exact List.not_mem_nil hc
  · rw [hqueue] at hm
    exact List.not_mem_nil hm
  · exact Bool.false_ne_true (henobufs.symm.trans hc)
  · exact not_mem_todo (todo_none hrunning) hc

/-- The kernel has dropped the reply to the one request. -/
theorem reliable_dropped : ∃ s : NlSocket Unit, s.Reliable 7 ∧ s.enobufs = true := by
  have hinit : Reaches (step 7) Valid init (init : NlSocket Unit) := .init
  have hrequest := hinit.step (a := NlOp.nextSeq) (Nat.zero_lt_succ _) rfl
  have hconstruct := hrequest.step (a := NlOp.construct 0) trivial rfl
  have htransact := hconstruct.step (a := NlOp.transact () 0) rfl rfl
  have hsend := htransact.step (a := NlOp.proceed 0 true []) trivial rfl
  have hdrop := hsend.step (a := NlOp.drop 0) trivial rfl
  exact ⟨_, Reaches.reliable hdrop, rfl⟩

end Runs

end Nox.Netlink.NlSocket

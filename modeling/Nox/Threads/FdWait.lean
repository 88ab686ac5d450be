import Nox.Threads.Waits

/-!
# Waiting for file descriptors

A group polls the descriptors that its threads wait for.  `pollfds` has them in no particular
order: an entry is removed by putting the last one in its place, also while the results of a poll
are gone through.  `fd_waiters` tells of each descriptor where its entry is.  The two agree after
any calls, and a poll wakes who it should (`fds_ready`).
-/

namespace Nox.Threads

section Definitions

/-! ## Events -/

/-- `short` masks of `poll` -/
abbrev Mask := BitVec 16

def pollin : Mask := 1
def pollout : Mask := 4
def pollerr : Mask := 8
def pollhup : Mask := 16
def pollnval : Mask := 32

def errMask : Mask := pollerr ||| pollhup ||| pollnval
def inMask : Mask := pollin ||| errMask
def outMask : Mask := pollout ||| errMask

/-- `enum co_fd_wait_type` -/
inductive FdWaitType
  | read
  | write
  deriving DecidableEq, Repr

def FdWaitType.bit : FdWaitType → Mask
  | read => pollin
  | write => pollout

def FdWaitType.mask : FdWaitType → Mask
  | read => inMask
  | write => outMask

structure Pollfd where
  fd : Nat
  events : Mask
  revents : Mask
  deriving DecidableEq

/-- The events that are still waited for when `revents` have occurred. -/
def clear (events revents : Mask) : Mask :=
  let events := if revents &&& inMask ≠ 0 then events &&& ~~~pollin else events
  if revents &&& outMask ≠ 0 then events &&& ~~~pollout else events

/-! ## The descriptors of a group -/

/-- What a group has to do with descriptors: the `pollfd_idx` of its `fd_waiters`, nothing standing
for -1, its `pollfds`, and the queues of the descriptors. -/
structure FdGroup (T V : Type) where
  waiters : List (Option Nat)
  pollfds : List Pollfd
  waits : Waits T (Nat × FdWaitType) V

/-- A waiter that is woken, with what it is told. -/
abbrev FdWake (T : Type) := (T × Nat) × Mask

namespace FdGroup

variable {T V : Type} [DecidableEq T] [DecidableEq V]

def init (vars : V → Int) : FdGroup T V := ⟨[], [], .init vars⟩

/-- The `pollfd_idx` of a descriptor. -/
def idx (s : FdGroup T V) (fd : Nat) : Option Nat := s.waiters[fd]?.join

/-- `co_fd_wait`; none where it leaves a vector. -/
def coFdWait (s : FdGroup T V) (t : T) (fd : Nat) (type : FdWaitType) (revents : Option V) :
    Option (FdGroup T V) := do
  let waiters := s.waiters ++ List.replicate (fd + 1 - s.waiters.length) none
  let waits := s.waits.wait t (fd, type) revents
  match ← waiters[fd]? with
  | some i =>
    let pfd ← s.pollfds[i]?
    return ⟨waiters, s.pollfds.set i { pfd with events := pfd.events ||| type.bit }, waits⟩
  | none =>
    return ⟨waiters.set fd (some s.pollfds.length), s.pollfds ++ [⟨fd, 0 ||| type.bit, 0⟩], waits⟩

/-- `remove_pollfd`; the last entry takes the place of the one that is removed. -/
def removePollfd (s : FdGroup T V) (fd : Nat) : Option (FdGroup T V) := do
  let i ← s.idx fd
  let back ← s.pollfds.getLast?
  if i < s.pollfds.length ∧ back.fd < s.waiters.length then
    if i + 1 = s.pollfds.length then
      some { s with pollfds := s.pollfds.dropLast, waiters := s.waiters.set fd none }
    else
      some { s with
        pollfds := (s.pollfds.set i back).dropLast
        waiters := (s.waiters.set back.fd (some i)).set fd none }
  else none

/-- `co_fd_closed`; of a negative number there is nothing to do. -/
def coFdClosed (s : FdGroup T V) (fd : Int) : Option (FdGroup T V) :=
  if fd < 0 ∨ fd.toNat ≥ s.waiters.length then some s
  else
    match s.idx fd.toNat with
    | none => some s
    | some _ =>
      let waits := s.waits.exec (.wakeAll (fd.toNat, .read) (pollhup ||| pollnval ||| pollin).toNat)
      let waits := waits.exec (.wakeAll (fd.toNat, .write) (pollhup ||| pollnval ||| pollout).toNat)
      { s with waits }.removePollfd fd.toNat

end FdGroup

variable {T V : Type} [DecidableEq T] [DecidableEq V]

/-- The waiters of a type that an entry wakes. -/
def Pollfd.wakesOf (p : Pollfd) (w : Waits T (Nat × FdWaitType) V) (type : FdWaitType) :
    List (FdWake T) :=
  if p.revents &&& type.mask ≠ 0 then
    (w.queue (p.fd, type)).map fun r => (r, p.revents &&& type.mask)
  else []

def Pollfd.wakeType (p : Pollfd) (w : Waits T (Nat × FdWaitType) V) (type : FdWaitType) :
    Waits T (Nat × FdWaitType) V :=
  if p.revents &&& type.mask ≠ 0 then
    w.exec (.wakeAll (p.fd, type) (p.revents &&& type.mask).toNat)
  else w

/-- The queues when an entry has woken its waiters. -/
def Pollfd.wake (w : Waits T (Nat × FdWaitType) V) (p : Pollfd) : Waits T (Nat × FdWaitType) V :=
  p.wakeType (p.wakeType w .read) .write

/-- The waiters that an entry wakes, readers first. -/
def Pollfd.wakes (w : Waits T (Nat × FdWaitType) V) (p : Pollfd) : List (FdWake T) :=
  p.wakesOf w .read ++ p.wakesOf (p.wakeType w .read) .write

namespace FdGroup

/-- What is done with an entry whose `revents` are not zero, and whether it stays; none where a
vector is left. -/
def visit (s : FdGroup T V) (i : Nat) (pfd : Pollfd) : Option (FdGroup T V × Bool) :=
  if pfd.fd < s.waiters.length then
    let events := clear pfd.events pfd.revents
    let s := { s with waits := pfd.wake s.waits, pollfds := s.pollfds.set i { pfd with events } }
    if events = 0 then (s.removePollfd pfd.fd).map (·, false) else some (s, true)
  else none

omit [DecidableEq T] [DecidableEq V] in
theorem length_removePollfd {s s' : FdGroup T V} {fd : Nat} (h : s.removePollfd fd = some s') :
    s'.pollfds.length + 1 = s.pollfds.length := by
  unfold removePollfd at h
  obtain ⟨i, -, h⟩ := Option.bind_eq_some_iff.mp h
  obtain ⟨back, -, h⟩ := Option.bind_eq_some_iff.mp h
  split at h
  · next hinside =>
    split at h
    · cases h
      dsimp only
      rw [List.length_dropLast]
      omega
    · cases h
      dsimp only
      rw [List.length_dropLast, List.length_set]
      omega
  · cases h

/-- An entry less is left to go through. -/
theorem visit_lt {s s' : FdGroup T V} {i : Nat} {pfd : Pollfd} {stays : Bool}
    (h : s.visit i pfd = some (s', stays)) (hi : i < s.pollfds.length) :
    s'.pollfds.length - (if stays then i + 1 else i) < s.pollfds.length - i := by
  unfold visit at h
  split at h
  · dsimp only at h
    split at h
    · obtain ⟨s₁, hremove, heq⟩ := Option.map_eq_some_iff.mp h
      cases heq
      have hlength := length_removePollfd hremove
      dsimp only at hlength
      rw [List.length_set] at hlength
      simp only [Bool.false_eq_true, if_false]
      omega
    · cases h
      simp only [List.length_set, if_true]
      omega
  · cases h

/-- The loop of `process_poll_results`: the entries that it visits, and who is woken. -/
def processLoop (s : FdGroup T V) (nEvents i : Nat) :
    Option (FdGroup T V × List Pollfd × List (FdWake T)) :=
  if nEvents = 0 then some (s, [], [])
  else
    match _hget : s.pollfds[i]? with
    | none => some (s, [], [])
    | some pfd =>
      if pfd.revents = 0 then processLoop s nEvents (i + 1)
      else
        match _hvisit : s.visit i pfd with
        | none => none
        | some (s', stays) =>
          (processLoop s' (nEvents - 1) (if stays then i + 1 else i)).map fun r =>
            (r.1, pfd :: r.2.1, pfd.wakes s.waits ++ r.2.2)
termination_by s.pollfds.length - i
decreasing_by
  · have hi := (List.getElem?_eq_some_iff.mp ‹s.pollfds[i]? = some _›).1
    omega
  · exact visit_lt ‹_› (List.getElem?_eq_some_iff.mp ‹s.pollfds[i]? = some _›).1

/-- The descriptors with what `poll` returns for them. -/
def polled (s : FdGroup T V) (revents : Nat → Mask) : FdGroup T V :=
  { s with pollfds := s.pollfds.map fun p => { p with revents := revents p.fd } }

/-- `process_poll_results`, with the number that `poll` returns. -/
def processPollResults (s : FdGroup T V) : Option (FdGroup T V × List Pollfd × List (FdWake T)) :=
  s.processLoop (s.pollfds.countP fun p => p.revents ≠ 0) 0

end FdGroup

/-- What happens with descriptors.  A thread that has been woken cancels its waits. -/
inductive FdOp (T V : Type)
  | wait (t : T) (fd : Nat) (type : FdWaitType) (revents : Option V)
  | closed (fd : Int)
  | cancel (t : T)
  | poll (revents : Nat → Mask)

def FdGroup.step (s : FdGroup T V) : FdOp T V → Option (FdGroup T V)
  | .wait t fd type revents => s.coFdWait t fd type revents
  | .closed fd => s.coFdClosed fd
  | .cancel t => some { s with waits := s.waits.exec (.cancel t) }
  | .poll revents => ((s.polled revents).processPollResults).map (·.1)

def FdGroup.run (s : FdGroup T V) (ops : List (FdOp T V)) : Option (FdGroup T V) :=
  ops.foldlM FdGroup.step s

end Definitions

section Index

/-! ## The index map -/

/-- The waiters tell where each descriptor is, which is there once. -/
structure Exact (waiters : List (Option Nat)) (fds : List Nat) : Prop where
  nodup : fds.Nodup
  idx : ∀ fd i : Nat, waiters[fd]?.join = some i ↔ fds[i]? = some fd

variable {w : List (Option Nat)} {fds M : List Nat} {fd b i : Nat}

theorem join_set (h : fd < w.length) (x : Option Nat) (fd' : Nat) :
    (w.set fd x)[fd']?.join = if fd' = fd then x else w[fd']?.join := by
  by_cases heq : fd' = fd
  · rw [heq, if_pos rfl, List.getElem?_set_self h]
    rfl
  · rw [if_neg heq, List.getElem?_set_ne (Ne.symm heq)]

theorem Exact.lt (h : Exact w fds) (hmem : fd ∈ fds) : fd < w.length := by
  obtain ⟨i, hi⟩ := List.mem_iff_getElem?.mp hmem
  have hidx := (h.idx fd i).mpr hi
  by_contra hge
  rw [List.getElem?_eq_none (Nat.le_of_not_lt hge)] at hidx
  cases hidx

/-- Waiters without an entry are added. -/
theorem Exact.grow (h : Exact w fds) (k : Nat) : Exact (w ++ List.replicate k none) fds where
  nodup := h.nodup
  idx := fun fd i => by
    rw [← h.idx fd i]
    by_cases hlt : fd < w.length
    · rw [List.getElem?_append_left hlt]
    · have hnone : w[fd]?.join = none := by
        rw [List.getElem?_eq_none (Nat.le_of_not_lt hlt)]
        rfl
      have hjoin : (w ++ List.replicate k none)[fd]?.join = none := by
        rw [List.getElem?_append_right (Nat.le_of_not_lt hlt), List.getElem?_replicate]
        split <;> rfl
      rw [hnone, hjoin]

theorem Exact.not_mem (h : Exact w fds) (hnone : w[fd]?.join = none) : fd ∉ fds := by
  intro hmem
  obtain ⟨i, hi⟩ := List.mem_iff_getElem?.mp hmem
  have hidx := (h.idx fd i).mpr hi
  rw [hnone] at hidx
  cases hidx

/-- A descriptor that has no entry gets the last one. -/
theorem Exact.append (h : Exact w fds) (hlt : fd < w.length) (hnone : w[fd]?.join = none) :
    Exact (w.set fd (some fds.length)) (fds ++ [fd]) where
  nodup := by
    refine List.nodup_append.mpr ⟨h.nodup, List.nodup_singleton fd, ?_⟩
    rintro a ha c hc rfl
    exact h.not_mem hnone (List.mem_singleton.mp hc ▸ ha)
  idx := fun fd' i => by
    rw [join_set hlt]
    have hfresh := h.not_mem hnone
    rcases Nat.lt_trichotomy i fds.length with hi | rfl | hi
    · rw [List.getElem?_append_left hi]
      split
      · next heq =>
        refine iff_of_false (fun hs => ?_) fun hs => hfresh ?_
        · cases hs
          exact Nat.lt_irrefl _ hi
        · exact heq ▸ List.mem_of_getElem? hs
      · exact h.idx fd' i
    · rw [List.getElem?_concat_length]
      split
      · next heq => simp [heq]
      · next hne =>
        refine iff_of_false (fun hs => ?_) fun hs => hne (Option.some.inj hs).symm
        have hsome := (h.idx fd' fds.length).mp hs
        rw [List.getElem?_eq_none (Nat.le_refl _)] at hsome
        cases hsome
    · have hlast : (fds ++ [fd])[i]? = none :=
        List.getElem?_eq_none (by rw [List.length_append, List.length_singleton]; omega)
      rw [hlast]
      split
      · refine iff_of_false (fun hs => ?_) nofun
        cases hs
        exact Nat.lt_irrefl _ hi
      · rw [h.idx fd' i, List.getElem?_eq_none (Nat.le_of_lt hi)]

/-- The last entry is removed. -/
theorem Exact.removeLast (h : Exact w (M ++ [b])) : Exact (w.set b none) M where
  nodup := (List.nodup_append.mp h.nodup).1
  idx := fun fd i => by
    have hb : b ∉ M := fun hmem =>
      (List.nodup_append.mp h.nodup).2.2 b hmem b List.mem_cons_self rfl
    rw [join_set (h.lt (List.mem_append_right _ List.mem_cons_self))]
    split
    · next heq => exact iff_of_false nofun fun hs => hb (heq ▸ List.mem_of_getElem? hs)
    · next hne =>
      rw [h.idx fd i]
      by_cases hi : i < M.length
      · rw [List.getElem?_append_left hi]
      · rw [List.getElem?_append_right (Nat.le_of_not_lt hi),
          List.getElem?_eq_none (Nat.le_of_not_lt hi)]
        refine iff_of_false (fun hs => ?_) nofun
        exact hne (List.mem_singleton.mp (List.mem_of_getElem? hs))

/-- The last entry takes the place of another. -/
theorem Exact.replace (h : Exact w (M ++ [b])) (hi : M[i]? = some fd) :
    Exact ((w.set b (some i)).set fd none) (M.set i b) where
  nodup := by
    obtain ⟨hM, -, hb⟩ := List.nodup_append.mp h.nodup
    have hnot : b ∉ M := fun hmem => hb b hmem b List.mem_cons_self rfl
    exact hM.set hnot
  idx := fun fd' j => by
    obtain ⟨hM, -, hb⟩ := List.nodup_append.mp h.nodup
    have hnot : b ∉ M := fun hmem => hb b hmem b List.mem_cons_self rfl
    have hlt := (List.getElem?_eq_some_iff.mp hi).1
    have hfd : fd < w.length := h.lt (List.mem_append_left _ (List.mem_of_getElem? hi))
    have hblt : b < w.length := h.lt (List.mem_append_right _ List.mem_cons_self)
    rw [join_set (by rw [List.length_set]; exact hfd), join_set hblt, List.getElem?_set]
    -- the entry at `j` after the removal
    by_cases hji : i = j
    · subst hji
      rw [if_pos rfl, if_pos hlt]
      by_cases hfd' : fd' = fd
      · rw [if_pos hfd']
        refine iff_of_false nofun fun hs => hnot ?_
        rw [Option.some.inj hs, hfd']
        exact List.mem_of_getElem? hi
      · rw [if_neg hfd']
        by_cases hb' : fd' = b
        · simp [hb']
        · rw [if_neg hb', h.idx, List.getElem?_append_left hlt, hi]
          refine iff_of_false (fun hs => hfd' ?_) fun hs => hb' ?_
          · exact (Option.some.inj hs).symm
          · exact (Option.some.inj hs).symm
    · rw [if_neg hji]
      by_cases hfd' : fd' = fd
      · rw [if_pos hfd', hfd']
        refine iff_of_false nofun fun hs => hji ?_
        exact (List.getElem?_inj hlt hM).mp (hi.trans hs.symm)
      · rw [if_neg hfd']
        by_cases hb' : fd' = b
        · rw [if_pos hb', hb']
          refine iff_of_false (fun hs => hji (Option.some.inj hs)) fun hs => hnot ?_
          exact List.mem_of_getElem? hs
        · rw [if_neg hb', h.idx]
          by_cases hj : j < M.length
          · rw [List.getElem?_append_left hj]
          · rw [List.getElem?_append_right (Nat.le_of_not_lt hj),
              List.getElem?_eq_none (Nat.le_of_not_lt hj)]
            refine iff_of_false (fun hs => hb' ?_) nofun
            exact List.mem_singleton.mp (List.mem_of_getElem? hs)

end Index

section Results

/-! ## The loop over the results -/

variable {T V : Type} [DecidableEq T] [DecidableEq V]
variable {s s' : FdGroup T V} {A rest : List Pollfd} {p : Pollfd} {n i : Nat}

/-- The descriptors that are polled. -/
def FdGroup.fds (s : FdGroup T V) : List Nat := s.pollfds.map (·.fd)

/-- The entries behind one that is removed, as they follow then. -/
def rotate (rest : List Pollfd) : List Pollfd := rest.getLast?.toList ++ rest.dropLast

theorem rotate_concat (r : List Pollfd) (b : Pollfd) : rotate (r ++ [b]) = b :: r := by
  simp [rotate]

theorem rotate_perm (rest : List Pollfd) : (rotate rest).Perm rest := by
  rcases rest.eq_nil_or_concat with rfl | ⟨r, b, rfl⟩
  · exact List.Perm.refl _
  · rw [List.concat_eq_append, rotate_concat]
    exact (List.perm_append_singleton b r).symm

omit [DecidableEq T] [DecidableEq V] in
/-- An entry is removed, and the index map follows. -/
theorem FdGroup.removePollfd_spec (hexact : Exact s.waiters s.fds)
    (hp : s.pollfds = A ++ p :: rest) :
    ∃ waiters, s.removePollfd p.fd = some { s with waiters, pollfds := A ++ rotate rest } ∧
      Exact waiters ((A ++ rotate rest).map (·.fd)) := by
  have hget : s.fds[A.length]? = some p.fd := by simp [fds, hp]
  have hidx : s.idx p.fd = some A.length := (hexact.idx p.fd A.length).mpr hget
  have hlt : p.fd < s.waiters.length := hexact.lt (List.mem_of_getElem? hget)
  unfold removePollfd
  rw [hidx]
  rcases rest.eq_nil_or_concat with rfl | ⟨r, b, rfl⟩
  · have hlast : s.pollfds.getLast? = some p := by simp [hp]
    refine ⟨s.waiters.set p.fd none, ?_, ?_⟩
    · rw [hlast]
      simp [hp, hlt, rotate]
    · have hfds : s.fds = A.map (·.fd) ++ [p.fd] := by simp [fds, hp]
      have hremoved := (hfds ▸ hexact).removeLast
      simpa [rotate] using hremoved
  · rw [List.concat_eq_append] at hp ⊢
    have hlast : s.pollfds.getLast? = some b := by
      have happend : A ++ p :: (r ++ [b]) = (A ++ p :: r) ++ [b] := by simp
      rw [hp, happend, List.getLast?_concat]
    have hfds : s.fds = (A ++ p :: r).map (·.fd) ++ [b.fd] := by simp [fds, hp]
    have hblt : b.fd < s.waiters.length :=
      hexact.lt (hfds ▸ List.mem_append_right _ List.mem_cons_self)
    have hmoved : (s.pollfds.set A.length b).dropLast = A ++ b :: r := by
      have happend : A ++ b :: (r ++ [b]) = (A ++ b :: r) ++ [b] := by simp
      rw [hp, List.set_append_right _ _ (Nat.le_refl _), Nat.sub_self, List.set_cons_zero, happend,
        List.dropLast_concat]
    refine ⟨(s.waiters.set b.fd (some A.length)).set p.fd none, ?_, ?_⟩
    · rw [hlast]
      simp only [Option.bind_eq_bind, Option.bind_some, hmoved, rotate_concat]
      rw [if_pos ⟨by simp [hp], hblt⟩, if_neg (by simp [hp])]
    · have hi : ((A ++ p :: r).map (·.fd))[A.length]? = some p.fd := by simp
      have hreplaced := (hfds ▸ hexact).replace hi
      rw [rotate_concat]
      simpa using hreplaced

theorem FdGroup.processLoop_zero : s.processLoop 0 i = some (s, [], []) := by
  rw [processLoop, if_pos rfl]

theorem FdGroup.processLoop_skip (hn : n ≠ 0) (hi : s.pollfds[i]? = some p)
    (hzero : p.revents = 0) : s.processLoop n i = s.processLoop n (i + 1) := by
  conv_lhs => rw [processLoop]
  rw [if_neg hn]
  split
  · next hget =>
    rw [hi] at hget
    cases hget
  · next pfd hget =>
    rw [hi] at hget
    cases hget
    rw [if_pos hzero]

theorem FdGroup.processLoop_visit {stays : Bool} (hn : n ≠ 0) (hi : s.pollfds[i]? = some p)
    (hzero : p.revents ≠ 0) (hvisit : s.visit i p = some (s', stays)) :
    s.processLoop n i = (s'.processLoop (n - 1) (if stays then i + 1 else i)).map fun r =>
      (r.1, p :: r.2.1, p.wakes s.waits ++ r.2.2) := by
  conv_lhs => rw [processLoop]
  rw [if_neg hn]
  split
  · next hget =>
    rw [hi] at hget
    cases hget
  · next pfd hget =>
    rw [hi] at hget
    cases hget
    rw [if_neg hzero]
    split
    · next hnone =>
      rw [hvisit] at hnone
      cases hnone
    · next hsome =>
      rw [hvisit] at hsome
      cases hsome
      rfl

/-- The entry that is there after its results, if it stays. -/
def Pollfd.kept (p : Pollfd) : Option Pollfd :=
  if clear p.events p.revents = 0 then none else some { p with events := clear p.events p.revents }

/-- Who is woken when these are visited one after the other. -/
def wokenBy (w : Waits T (Nat × FdWaitType) V) : List Pollfd → List (FdWake T)
  | [] => []
  | p :: ps => p.wakes w ++ wokenBy (p.wake w) ps

/-- An entry is visited: it stays, or those behind it are rotated. -/
theorem FdGroup.visit_spec (hexact : Exact s.waiters s.fds) (hp : s.pollfds = A ++ p :: rest) :
    ∃ s' stays, s.visit A.length p = some (s', stays) ∧ Exact s'.waiters s'.fds ∧
      s'.waits = p.wake s.waits ∧ s'.pollfds = A ++ p.kept.toList ++
        (if stays then rest else rotate rest) ∧ stays = p.kept.isSome := by
  have hget : s.fds[A.length]? = some p.fd := by simp [fds, hp]
  have hlt : p.fd < s.waiters.length := hexact.lt (List.mem_of_getElem? hget)
  have hset : s.pollfds.set A.length { p with events := clear p.events p.revents } =
      A ++ { p with events := clear p.events p.revents } :: rest := by
    rw [hp, List.set_append_right _ _ (Nat.le_refl _), Nat.sub_self, List.set_cons_zero]
  unfold visit
  rw [if_pos hlt]
  dsimp only
  rw [hset]
  by_cases hclear : clear p.events p.revents = 0
  · have hkept : p.kept = none := if_pos hclear
    obtain ⟨waiters, hremove, hexact'⟩ := removePollfd_spec
      (s := { s with
        waits := p.wake s.waits
        pollfds := A ++ { p with events := clear p.events p.revents } :: rest })
      (by simpa [fds, hp] using hexact) rfl
    dsimp only at hremove
    rw [if_pos hclear, hremove, hkept]
    refine ⟨_, false, rfl, hexact', rfl, ?_, rfl⟩
    rw [Option.toList_none, List.append_nil]
    rfl
  · have hkept : p.kept = some { p with events := clear p.events p.revents } := if_neg hclear
    rw [if_neg hclear, hkept]
    refine ⟨_, true, rfl, ?_, rfl, ?_, rfl⟩
    · simpa [fds, hp] using hexact
    · simp

/-- The loop visits the entries of `rest` that have results, once each. -/
theorem FdGroup.processLoop_spec (k : Nat) {s : FdGroup T V} {A rest : List Pollfd}
    (hk : rest.length = k) (hexact : Exact s.waiters s.fds) (hp : s.pollfds = A ++ rest) :
    ∃ s' visited, s.processLoop (rest.countP fun p => p.revents ≠ 0) A.length =
        some (s', visited, wokenBy s.waits visited) ∧
      visited.Perm (rest.filter fun p => p.revents ≠ 0) ∧ Exact s'.waiters s'.fds ∧
      s'.waits = visited.foldl Pollfd.wake s.waits ∧
      s'.pollfds.Perm (A ++ rest.filterMap fun p => if p.revents = 0 then some p else p.kept) := by
  induction k generalizing s A rest with
  | zero =>
    rw [List.length_eq_zero_iff.mp hk] at hp ⊢
    refine ⟨s, [], processLoop_zero, List.Perm.refl _, hexact, rfl, ?_⟩
    rw [hp]
    exact List.Perm.refl _
  | succ k ih =>
    by_cases hcount : (rest.countP fun p => p.revents ≠ 0) = 0
    · -- the rest has no results, and the loop ends
      rw [hcount]
      have hnone : ∀ p ∈ rest, p.revents = 0 := fun p hmem => by
        simpa using List.countP_eq_zero.mp hcount p hmem
      refine ⟨s, [], processLoop_zero, ?_, hexact, rfl, ?_⟩
      · rw [List.filter_eq_nil_iff.mpr fun p hmem => by simp [hnone p hmem]]
      · have hkept : rest.filterMap (fun p => if p.revents = 0 then some p else p.kept) = rest := by
          rw [List.filterMap_congr fun p hmem => if_pos (hnone p hmem), List.filterMap_some]
        rw [hkept, hp]
    · cases rest with
      | nil => cases hk
      | cons p rest =>
        have hget : s.pollfds[A.length]? = some p := by simp [hp]
        by_cases hzero : p.revents = 0
        · have hcons : ((p :: rest).countP fun p => p.revents ≠ 0) =
              rest.countP fun p => p.revents ≠ 0 := List.countP_cons_of_neg (by simp [hzero])
          have hp' : s.pollfds = (A ++ [p]) ++ rest := by simp [hp]
          obtain ⟨s', visited, hloop, hperm, hexact', hwaits, hpollfds⟩ :=
            ih (Nat.succ.inj hk) hexact hp'
          rw [List.length_append, List.length_singleton] at hloop
          refine ⟨s', visited, ?_, ?_, hexact', hwaits, ?_⟩
          · rw [processLoop_skip hcount hget hzero, hcons]
            exact hloop
          · rw [List.filter_cons_of_neg (by simp [hzero])]
            exact hperm
          · rw [List.filterMap_cons, if_pos hzero]
            simpa using hpollfds
        · have hcons : ((p :: rest).countP fun p => p.revents ≠ 0) =
              (rest.countP fun p => p.revents ≠ 0) + 1 :=
            List.countP_cons_of_pos (decide_eq_true hzero)
          obtain ⟨s₁, stays, hvisit, hexact₁, hwaits₁, hpollfds₁, hstays⟩ := visit_spec hexact hp
          have hrest : (if stays then rest else rotate rest).Perm rest := by
            cases stays with
            | true => exact List.Perm.refl _
            | false => exact rotate_perm rest
          have hindex : (if stays then A.length + 1 else A.length) =
              (A ++ p.kept.toList).length := by
            rw [hstays]
            cases p.kept <;> simp
          obtain ⟨s', visited, hloop, hperm, hexact', hwaits, hpollfds⟩ :=
            ih (hrest.length_eq.trans (Nat.succ.inj hk)) hexact₁ hpollfds₁
          rw [hrest.countP_eq] at hloop
          refine ⟨s', p :: visited, ?_, ?_, hexact', ?_, ?_⟩
          · rw [processLoop_visit hcount hget hzero hvisit, hcons, Nat.add_sub_cancel, hindex,
              hloop, hwaits₁]
            rfl
          · rw [List.filter_cons_of_pos (p := fun p : Pollfd => decide (p.revents ≠ 0))
              (decide_eq_true hzero)]
            exact (hperm.trans (hrest.filter _)).cons p
          · rw [hwaits, hwaits₁]
            rfl
          · refine hpollfds.trans ?_
            rw [List.filterMap_cons, if_neg hzero]
            have htail := hrest.filterMap fun p => if p.revents = 0 then some p else p.kept
            cases p.kept with
            | none => simpa using htail.append_left A
            | some q => simpa using (htail.cons q).append_left A

end Results

section Queues

/-! ## Who is woken -/

variable {T V : Type} [DecidableEq T] [DecidableEq V]
variable {w : Waits T (Nat × FdWaitType) V} {p : Pollfd} {ps : List Pollfd} {r : T × Nat}

theorem mask_and_zero (e : Mask) : e &&& 0 = 0 := BitVec.and_zero

/-- Results end the waits that they wake, and no others. -/
theorem clear_and_bit (e m : Mask) (type : FdWaitType) :
    clear e m &&& type.bit = if m &&& type.mask ≠ 0 then 0 else e &&& type.bit := by
  have hin : ~~~pollin &&& pollin = 0 := by decide
  have hout : ~~~pollout &&& pollout = 0 := by decide
  have hinout : ~~~pollin &&& pollout = pollout := by decide
  have houtin : ~~~pollout &&& pollin = pollin := by decide
  unfold clear
  cases type with
  | read =>
    change _ &&& pollin = if m &&& inMask ≠ 0 then 0 else e &&& pollin
    dsimp only
    split
    · rw [BitVec.and_assoc, houtin]
      split
      · rw [BitVec.and_assoc, hin, mask_and_zero]
      · rfl
    · split
      · rw [BitVec.and_assoc, hin, mask_and_zero]
      · rfl
  | write =>
    change _ &&& pollout = if m &&& outMask ≠ 0 then 0 else e &&& pollout
    dsimp only
    split
    · rw [BitVec.and_assoc, hout, mask_and_zero]
    · split
      · rw [BitVec.and_assoc, hinout]
      · rfl

theorem clear_zero (e : Mask) : clear e 0 = e := by
  have hzero (m : Mask) : ¬0 &&& m ≠ 0 := fun h => h BitVec.zero_and
  unfold clear
  dsimp only
  rw [if_neg (hzero _), if_neg (hzero _)]

theorem Pollfd.queue_wakeType (type : FdWaitType) :
    (p.wakeType w type).queue = if p.revents &&& type.mask ≠ 0 then
      Function.update w.queue (p.fd, type) [] else w.queue := by
  unfold wakeType
  split
  · exact Waits.queue_wakeAll w _ _
  · rfl

/-- An entry empties the queues of its descriptor that its results wake. -/
theorem Pollfd.queue_wake (fd : Nat) (type : FdWaitType) : (p.wake w).queue (fd, type) =
    if p.fd = fd ∧ p.revents &&& type.mask ≠ 0 then [] else w.queue (fd, type) := by
  have hone (type' : FdWaitType) (w' : Waits T (Nat × FdWaitType) V) :
      (p.wakeType w' type').queue (fd, type) =
        if p.fd = fd ∧ type' = type ∧ p.revents &&& type'.mask ≠ 0 then []
        else w'.queue (fd, type) := by
    rw [queue_wakeType]
    by_cases hmask : p.revents &&& type'.mask ≠ 0
    · rw [if_pos hmask]
      by_cases heq : p.fd = fd ∧ type' = type
      · rw [if_pos ⟨heq.1, heq.2, hmask⟩, heq.1, heq.2, Function.update_self]
      · rw [if_neg fun h => heq ⟨h.1, h.2.1⟩, Function.update_of_ne]
        rintro hpair
        cases hpair
        exact heq ⟨rfl, rfl⟩
    · rw [if_neg hmask, if_neg fun h => hmask h.2.2]
  unfold wake
  rw [hone, hone]
  cases type <;> simp

omit [DecidableEq T] [DecidableEq V] in
theorem Pollfd.mem_wakesOf {m : Mask} {type : FdWaitType} : (r, m) ∈ p.wakesOf w type ↔
    p.revents &&& type.mask ≠ 0 ∧ m = p.revents &&& type.mask ∧ r ∈ w.queue (p.fd, type) := by
  unfold wakesOf
  split
  · next hmask =>
    simp only [List.mem_map, Prod.mk.injEq]
    constructor
    · rintro ⟨r', hmem, rfl, rfl⟩
      exact ⟨hmask, rfl, hmem⟩
    · rintro ⟨-, rfl, hmem⟩
      exact ⟨r, hmem, rfl, rfl⟩
  · next hmask => exact iff_of_false List.not_mem_nil fun h => hmask h.1

/-- The readers are not among the waiters for writing. -/
theorem Pollfd.queue_wakeType_read (fd : Nat) :
    (p.wakeType w .read).queue (fd, .write) = w.queue (fd, .write) := by
  rw [queue_wakeType]
  split
  · exact Function.update_of_ne (by simp) _ _
  · rfl

theorem Pollfd.mem_wakes {m : Mask} : (r, m) ∈ p.wakes w ↔
    ∃ type, p.revents &&& type.mask ≠ 0 ∧ m = p.revents &&& type.mask ∧
      r ∈ w.queue (p.fd, type) := by
  unfold wakes
  rw [List.mem_append, mem_wakesOf, mem_wakesOf, queue_wakeType_read]
  constructor
  · rintro (h | h)
    · exact ⟨_, h⟩
    · exact ⟨_, h⟩
  · rintro ⟨type, h⟩
    cases type with
    | read => exact Or.inl h
    | write => exact Or.inr h

theorem Pollfd.sound_wake (hsound : w.Sound) : (p.wake w).Sound := by
  have hone (type : FdWaitType) {w : Waits T (Nat × FdWaitType) V} (hsound : w.Sound) :
      (p.wakeType w type).Sound := by
    unfold wakeType
    split
    · exact hsound.exec _
    · exact hsound
  exact hone .write (hone .read hsound)

theorem sound_wakes (hsound : w.Sound) : (ps.foldl Pollfd.wake w).Sound := by
  induction ps generalizing w with
  | nil => exact hsound
  | cons p ps ih => exact ih (Pollfd.sound_wake hsound)

theorem queue_wakes (fd : Nat) (type : FdWaitType) :
    (ps.foldl Pollfd.wake w).queue (fd, type) =
      if ∃ p ∈ ps, p.fd = fd ∧ p.revents &&& type.mask ≠ 0 then [] else w.queue (fd, type) := by
  induction ps generalizing w with
  | nil => simp
  | cons p ps ih =>
    rw [List.foldl_cons, ih, Pollfd.queue_wake]
    by_cases hp : p.fd = fd ∧ p.revents &&& type.mask ≠ 0
    · rw [if_pos hp, ite_self]
      exact (if_pos ⟨p, List.mem_cons_self, hp⟩).symm
    · simp only [List.mem_cons, exists_eq_or_imp, hp, false_or, if_false]

theorem mem_wokenBy (hnodup : (ps.map (·.fd)).Nodup) {m : Mask} : (r, m) ∈ wokenBy w ps ↔
    ∃ p ∈ ps, ∃ type, p.revents &&& type.mask ≠ 0 ∧ m = p.revents &&& type.mask ∧
      r ∈ w.queue (p.fd, type) := by
  induction ps generalizing w with
  | nil => simp [wokenBy]
  | cons p ps ih =>
    rw [List.map_cons, List.nodup_cons] at hnodup
    -- the queues of the entries that follow are as before
    have hother : ∀ q ∈ ps, ∀ type, (p.wake w).queue (q.fd, type) = w.queue (q.fd, type) := by
      intro q hq type
      rw [Pollfd.queue_wake, if_neg]
      exact fun h => hnodup.1 (h.1 ▸ List.mem_map_of_mem hq)
    rw [wokenBy, List.mem_append, Pollfd.mem_wakes, ih hnodup.2]
    simp only [List.mem_cons, exists_eq_or_imp]
    refine or_congr Iff.rfl (exists_congr fun q => and_congr_right fun hq => ?_)
    exact exists_congr fun type => by rw [hother q hq type]

omit [DecidableEq T] [DecidableEq V] in
theorem Pollfd.nodup_wakesOf (hsound : w.Sound) (type : FdWaitType) :
    ((p.wakesOf w type).map (·.1)).Nodup := by
  unfold wakesOf
  split
  · rw [List.map_map, Function.comp_def, List.map_id']
    exact hsound.nodup _
  · exact List.nodup_nil

/-- Nobody is woken twice. -/
theorem nodup_wokenBy (hsound : w.Sound) (hnodup : (ps.map (·.fd)).Nodup) :
    ((wokenBy w ps).map (·.1)).Nodup := by
  induction ps generalizing w with
  | nil => exact List.nodup_nil
  | cons p ps ih =>
    have hsound' := Pollfd.sound_wake (p := p) hsound
    -- waiters of different queues are different
    have hdiffer {r : T × Nat} {q q' : Nat × FdWaitType} (hr : r ∈ w.queue q)
        (hr' : r ∈ w.queue q') : q = q' :=
      ((hsound.mem_iff q r).mp hr).eq ((hsound.mem_iff q' r).mp hr')
    have hfst {l : List (FdWake T)} {r : T × Nat} (h : r ∈ l.map (·.1)) : ∃ m, (r, m) ∈ l := by
      obtain ⟨⟨_, m⟩, hmem, rfl⟩ := List.mem_map.mp h
      exact ⟨m, hmem⟩
    rw [List.map_cons, List.nodup_cons] at hnodup
    rw [wokenBy, List.map_append]
    refine List.nodup_append.mpr ⟨?_, ih hsound' hnodup.2, ?_⟩
    · unfold Pollfd.wakes
      rw [List.map_append]
      refine List.nodup_append.mpr ⟨Pollfd.nodup_wakesOf hsound _, ?_, ?_⟩
      · refine Pollfd.nodup_wakesOf ?_ _
        unfold Pollfd.wakeType
        split
        · exact hsound.exec _
        · exact hsound
      · rintro r hr r' hr' rfl
        obtain ⟨m, hr⟩ := hfst hr
        obtain ⟨m', hr'⟩ := hfst hr'
        have hread := (Pollfd.mem_wakesOf.mp hr).2.2
        have hwrite := (Pollfd.mem_wakesOf.mp hr').2.2
        rw [Pollfd.queue_wakeType_read] at hwrite
        cases hdiffer hread hwrite
    · rintro r hr r' hr' rfl
      obtain ⟨m, hr⟩ := hfst hr
      obtain ⟨m', hr'⟩ := hfst hr'
      obtain ⟨type, -, -, hfirst⟩ := Pollfd.mem_wakes.mp hr
      obtain ⟨q, hq, type', -, -, hlater⟩ := (mem_wokenBy hnodup.2).mp hr'
      have hne : ¬p.fd = q.fd := fun heq => hnodup.1 (heq ▸ List.mem_map_of_mem hq)
      rw [Pollfd.queue_wake, if_neg fun h => hne h.1] at hlater
      exact hne (congrArg Prod.fst (hdiffer hfirst hlater))

end Queues

section Runs

/-! ## Runs -/

variable {T V : Type} [DecidableEq T] [DecidableEq V]
variable {s s' : FdGroup T V} {pending : Nat → Mask}

/-- The events that each descriptor is waited for, 0 where it is not: what the calls make of
them. -/
def FdOp.pends (events : Nat → Mask) : FdOp T V → Nat → Mask
  | .wait _ fd type _ => Function.update events fd (events fd ||| type.bit)
  | .closed fd => if fd < 0 then events else Function.update events fd.toNat 0
  | .cancel _ => events
  | .poll revents => fun fd => clear (events fd) (revents fd)

/-- The descriptors that are waited for are polled for what is pending, each at one index, which
its waiter has; and whoever waits, waits for something pending. -/
structure Registered (s : FdGroup T V) (pending : Nat → Mask) : Prop where
  exact : Exact s.waiters s.fds
  polls : ∀ fd, fd ∈ s.fds ↔ pending fd ≠ 0
  events : ∀ p ∈ s.pollfds, p.events = pending p.fd
  sound : s.waits.Sound
  waiting : ∀ fd type, s.waits.queue (fd, type) ≠ [] → pending fd &&& type.bit ≠ 0

/-- What a poll should do: `visited` are the entries that have results, and `woken` those who
wait for one of them. -/
structure Processed (s s' : FdGroup T V) (pending revents : Nat → Mask) (visited : List Pollfd)
    (woken : List (FdWake T)) : Prop where
  visited_nodup : (visited.map (·.fd)).Nodup
  mem_visited : ∀ fd, fd ∈ visited.map (·.fd) ↔ pending fd ≠ 0 ∧ revents fd ≠ 0
  woken_nodup : (woken.map (·.1)).Nodup
  mem_woken : ∀ r m, (r, m) ∈ woken ↔ ∃ fd type, revents fd &&& type.mask ≠ 0 ∧
    m = revents fd &&& type.mask ∧ r ∈ s.waits.queue (fd, type)
  queue : ∀ fd type, s'.waits.queue (fd, type) =
    if revents fd &&& type.mask ≠ 0 then [] else s.waits.queue (fd, type)

theorem mask_zero_and (m : Mask) : 0 &&& m = 0 := BitVec.zero_and

theorem clear_of_zero (m : Mask) : clear 0 m = 0 := by
  unfold clear
  dsimp only
  split <;> split <;> simp only [mask_zero_and]

omit [DecidableEq T] [DecidableEq V] in
theorem Registered.queue_nil (h : Registered s pending) {fd : Nat} (hfd : pending fd = 0)
    (type : FdWaitType) : s.waits.queue (fd, type) = [] := by
  by_contra hne
  have hbit := h.waiting fd type hne
  rw [hfd, mask_zero_and] at hbit
  exact hbit rfl

omit [DecidableEq T] [DecidableEq V] in
/-- The entry of a descriptor that has something pending. -/
theorem Registered.entry (h : Registered s pending) {fd : Nat} (hfd : pending fd ≠ 0) :
    ∃ p ∈ s.pollfds, p.fd = fd :=
  List.mem_map.mp ((h.polls fd).mpr hfd)

omit [DecidableEq T] [DecidableEq V] in
theorem registered_init (vars : V → Int) : Registered (.init vars : FdGroup T V) fun _ => 0 where
  exact := ⟨List.nodup_nil, fun fd i => by simp [FdGroup.init, FdGroup.fds]⟩
  polls := fun fd => by simp [FdGroup.init, FdGroup.fds]
  events := fun p hp => nomatch hp
  sound := Waits.sound_init vars
  waiting := fun fd type hne => absurd rfl hne

/-- Whoever is on a queue after a wait has waited there. -/
theorem queue_wait {w : Waits T (Nat × FdWaitType) V} (hsound : w.Sound) {t : T}
    {q q' : Nat × FdWaitType} {v : Option V} {r : T × Nat} (hr : r ∈ (w.wait t q v).queue q') :
    q' = q ∨ r ∈ w.queue q' := by
  obtain ⟨e, he, hq⟩ := ((hsound.wait t q v).mem_iff q' r).mp hr
  have hon : (w.addEvent t ⟨some q, t, v⟩).On q' r := ⟨e, by
    rw [← Waits.events_setVar v 0]
    exact he, hq⟩
  rcases Waits.on_addEvent.mp hon with hold | ⟨-, hnew⟩
  · exact Or.inr ((hsound.mem_iff q' r).mpr hold)
  · exact Or.inl (Option.some.inj hnew).symm

theorem or_and_ne_zero {e b : Mask} (m : Mask) (h : e &&& m ≠ 0 ∨ b &&& m ≠ 0) :
    (e ||| b) &&& m ≠ 0 := by
  intro hzero
  rw [BitVec.and_or_distrib_right] at hzero
  obtain ⟨he, hb⟩ := BitVec.or_eq_zero_iff.mp hzero
  exact h.elim (· he) (· hb)

theorem bit_ne_zero (type : FdWaitType) : type.bit ≠ 0 := by
  cases type <;> decide

theorem or_bit_ne_zero (e : Mask) (type : FdWaitType) : e ||| type.bit ≠ 0 := fun h =>
  bit_ne_zero type (BitVec.or_eq_zero_iff.mp h).2

theorem update_or_bit_ne_zero (fd fd' : Nat) (type : FdWaitType) :
    Function.update pending fd (pending fd ||| type.bit) fd' ≠ 0 ↔
      pending fd' ≠ 0 ∨ fd' = fd := by
  by_cases heq : fd' = fd
  · subst heq
    rw [Function.update_self]
    exact iff_of_true (or_bit_ne_zero _ _) (Or.inr rfl)
  · rw [Function.update_of_ne heq]
    exact (or_iff_left heq).symm

/-- Whoever waits after a wait, waits for something pending. -/
theorem Registered.waiting_wait (h : Registered s pending) (t : T) (fd : Nat) (type : FdWaitType)
    (v : Option V) (fd' : Nat) (type' : FdWaitType)
    (hne : (s.waits.wait t (fd, type) v).queue (fd', type') ≠ []) :
    Function.update pending fd (pending fd ||| type.bit) fd' &&& type'.bit ≠ 0 := by
  obtain ⟨r, hr⟩ := List.exists_mem_of_ne_nil _ hne
  rcases queue_wait h.sound hr with heq | hold
  · cases heq
    rw [Function.update_self]
    exact or_and_ne_zero _ (Or.inr (by rw [BitVec.and_self]; exact bit_ne_zero type))
  · have hbit := h.waiting fd' type' (List.ne_nil_of_mem hold)
    by_cases heq : fd' = fd
    · subst heq
      rw [Function.update_self]
      exact or_and_ne_zero _ (Or.inl hbit)
    · rw [Function.update_of_ne heq]
      exact hbit

section Entries

variable {i : Nat} {p : Pollfd}

omit [DecidableEq T] [DecidableEq V] in
theorem FdGroup.fds_set (hp : s.pollfds[i]? = some p) (events : Mask) :
    (s.pollfds.set i { p with events }).map (·.fd) = s.fds := by
  obtain ⟨hlt, rfl⟩ := List.getElem?_eq_some_iff.mp hp
  have hself := congrArg (List.map Pollfd.fd) (List.set_getElem_self hlt)
  rw [List.map_set] at hself ⊢
  exact hself

omit [DecidableEq T] [DecidableEq V] in
/-- An entry is polled for one more type. -/
theorem Registered.events_set (h : Registered s pending) (hp : s.pollfds[i]? = some p)
    (type : FdWaitType) : ∀ q ∈ s.pollfds.set i { p with events := p.events ||| type.bit },
      q.events = Function.update pending p.fd (pending p.fd ||| type.bit) q.fd := by
  intro q hq
  obtain ⟨j, hj⟩ := List.mem_iff_getElem?.mp hq
  by_cases hij : i = j
  · subst hij
    rw [List.getElem?_set_self (List.getElem?_eq_some_iff.mp hp).1] at hj
    cases hj
    dsimp only
    rw [Function.update_self, h.events p (List.mem_of_getElem? hp)]
  · rw [List.getElem?_set_ne hij] at hj
    have hfd {k : Nat} {e : Pollfd} (he : s.pollfds[k]? = some e) : s.idx e.fd = some k :=
      (h.exact.idx e.fd k).mpr (by rw [FdGroup.fds, List.getElem?_map, he]; rfl)
    have hne : q.fd ≠ p.fd := fun heq =>
      hij (Option.some.inj ((hfd hp).symm.trans (heq ▸ hfd hj)))
    rw [Function.update_of_ne hne]
    exact h.events q (List.mem_of_getElem? hj)

omit [DecidableEq T] [DecidableEq V] in
/-- A descriptor that had nothing pending gets an entry. -/
theorem Registered.events_append (h : Registered s pending) {fd : Nat} (hfd : pending fd = 0)
    (type : FdWaitType) : ∀ q ∈ s.pollfds ++ [⟨fd, 0 ||| type.bit, 0⟩],
      q.events = Function.update pending fd (pending fd ||| type.bit) q.fd := by
  intro q hq
  rcases List.mem_append.mp hq with hq | hq
  · have hne : q.fd ≠ fd := fun heq =>
      (h.polls fd).mp (heq ▸ List.mem_map_of_mem hq) hfd
    rw [Function.update_of_ne hne]
    exact h.events q hq
  · rw [List.mem_singleton.mp hq]
    dsimp only
    rw [Function.update_self, hfd]

end Entries

/-- A waiter is entered, its descriptor being polled already or from now on. -/
theorem coFdWait_registered (h : Registered s pending) (t : T) (fd : Nat) (type : FdWaitType)
    (v : Option V) : ∃ s', s.coFdWait t fd type v = some s' ∧
      Registered s' (Function.update pending fd (pending fd ||| type.bit)) := by
  have hwaiting := h.waiting_wait t fd type v
  have hexact := h.exact.grow (fd + 1 - s.waiters.length)
  have hlt : fd < (s.waiters ++ List.replicate (fd + 1 - s.waiters.length) none).length := by
    rw [List.length_append, List.length_replicate]
    omega
  unfold FdGroup.coFdWait
  dsimp only
  generalize s.waiters ++ List.replicate (fd + 1 - s.waiters.length) none = waiters at hexact hlt ⊢
  have hget := List.getElem?_eq_getElem hlt
  rw [hget]
  cases hx : waiters[fd] with
  | some i =>
    have hi : s.fds[i]? = some fd := (hexact.idx fd i).mp (by rw [hget, hx]; rfl)
    obtain ⟨p, hp, rfl⟩ := Option.map_eq_some_iff.mp ((List.getElem?_map ..).symm.trans hi)
    have hfds := FdGroup.fds_set hp (p.events ||| type.bit)
    have hpending := (h.polls p.fd).mp (List.mem_map_of_mem (List.mem_of_getElem? hp))
    simp only [Option.bind_eq_bind, Option.bind_some, hp]
    refine ⟨_, rfl, ?_, fun fd' => ?_, h.events_set hp type, h.sound.wait _ _ _, hwaiting⟩
    · rw [FdGroup.fds, hfds]
      exact hexact
    · rw [FdGroup.fds, hfds, h.polls, update_or_bit_ne_zero, or_iff_left_of_imp]
      rintro rfl
      exact hpending
  | none =>
    have hnone : waiters[fd]?.join = none := by
      rw [hget, hx]
      rfl
    have hfds : (s.pollfds ++ [(⟨fd, 0 ||| type.bit, 0⟩ : Pollfd)]).map (·.fd) = s.fds ++ [fd] :=
      List.map_append
    have hzero : pending fd = 0 := not_not.mp (mt (h.polls fd).mpr (hexact.not_mem hnone))
    have happend := hexact.append hlt hnone
    refine ⟨_, rfl, ?_, fun fd' => ?_, h.events_append hzero type, h.sound.wait _ _ _, hwaiting⟩
    · rw [FdGroup.fds, hfds, ← List.length_map (f := fun p : Pollfd => p.fd)]
      exact happend
    · rw [FdGroup.fds, hfds, List.mem_append, List.mem_singleton, h.polls, update_or_bit_ne_zero]

omit [DecidableEq T] [DecidableEq V] in
/-- A descriptor without an entry has nothing pending. -/
theorem Registered.pending_zero (h : Registered s pending) {fd : Nat} (hidx : s.idx fd = none) :
    pending fd = 0 :=
  not_not.mp (mt (h.polls fd).mpr (h.exact.not_mem hidx))

/-- A descriptor that is closed is forgotten. -/
theorem coFdClosed_registered (h : Registered s pending) (fd : Int) :
    ∃ s', s.coFdClosed fd = some s' ∧
      Registered s' (if fd < 0 then pending else Function.update pending fd.toNat 0) := by
  unfold FdGroup.coFdClosed
  by_cases hneg : fd < 0
  · rw [if_pos (Or.inl hneg), if_pos hneg]
    exact ⟨s, rfl, h⟩
  · rw [if_neg hneg]
    generalize fd.toNat = n
    have hnothing (hidx : s.idx n = none) : Registered s (Function.update pending n 0) := by
      have hsame : Function.update pending n 0 = pending := by
        rw [← h.pending_zero hidx]
        exact Function.update_eq_self n pending
      rw [hsame]
      exact h
    by_cases hge : n ≥ s.waiters.length
    · rw [if_pos (Or.inr hge)]
      refine ⟨s, rfl, hnothing ?_⟩
      unfold FdGroup.idx
      rw [List.getElem?_eq_none hge]
      rfl
    · rw [if_neg (by simp [hneg, hge])]
      cases hidx : s.idx n with
      | none => exact ⟨s, rfl, hnothing hidx⟩
      | some i =>
        dsimp only
        have hi : s.fds[i]? = some n := (h.exact.idx n i).mp hidx
        obtain ⟨p, hp, rfl⟩ := Option.map_eq_some_iff.mp ((List.getElem?_map ..).symm.trans hi)
        obtain ⟨A, rest, hsplit⟩ := List.append_of_mem (List.mem_of_getElem? hp)
        generalize hwaits : (s.waits.exec _).exec _ = waits
        obtain ⟨waiters, hremove, hexact⟩ :=
          FdGroup.removePollfd_spec (s := { s with waits }) h.exact hsplit
        have hperm : (A ++ rotate rest).Perm (A ++ rest) := (rotate_perm rest).append_left A
        have hall : s.pollfds.Perm (p :: (A ++ rotate rest)) := by
          rw [hsplit]
          exact List.perm_middle.trans (hperm.symm.cons p)
        have hnodup : (p.fd :: (A ++ rotate rest).map (·.fd)).Nodup :=
          (hall.map Pollfd.fd).nodup_iff.mp h.exact.nodup
        have hgone := (List.nodup_cons.mp hnodup).1
        refine ⟨_, hremove, hexact, fun fd' => ?_, fun q hq => ?_, ?_, fun fd' type hne => ?_⟩
        · change fd' ∈ (A ++ rotate rest).map (·.fd) ↔ _
          by_cases heq : fd' = p.fd
          · subst heq
            rw [Function.update_self]
            exact iff_of_false hgone (not_not.mpr rfl)
          · rw [Function.update_of_ne heq, ← h.polls, FdGroup.fds, (hall.map (·.fd)).mem_iff,
              List.map_cons, List.mem_cons]
            exact (or_iff_right heq).symm
        · have hne : q.fd ≠ p.fd := fun heq => hgone (heq ▸ List.mem_map_of_mem hq)
          rw [Function.update_of_ne hne]
          exact h.events q (hall.mem_iff.mpr (List.mem_cons_of_mem p hq))
        · change waits.Sound
          rw [← hwaits]
          exact (h.sound.exec _).exec _
        · change waits.queue (fd', type) ≠ [] at hne
          rw [← hwaits, Waits.queue_wakeAll, Waits.queue_wakeAll] at hne
          have heq : fd' ≠ p.fd := by
            rintro rfl
            cases type <;> simp at hne
          rw [Function.update_of_ne heq]
          refine h.waiting fd' type ?_
          simpa [heq] using hne

theorem Pollfd.kept_eq_some {p q : Pollfd} : p.kept = some q ↔
    clear p.events p.revents ≠ 0 ∧ { p with events := clear p.events p.revents } = q := by
  unfold kept
  split
  · next hzero => exact iff_of_false nofun fun h => h.1 hzero
  · next hzero =>
    rw [Option.some_inj]
    exact (and_iff_right hzero).symm

omit [DecidableEq T] [DecidableEq V] in
theorem FdGroup.fds_polled (revents : Nat → Mask) : (s.polled revents).fds = s.fds := by
  unfold fds polled
  dsimp only
  rw [List.map_map]
  rfl

section Poll

variable {revents : Nat → Mask} {visited : List Pollfd}

omit [DecidableEq T] [DecidableEq V] in
theorem mem_polled {q : Pollfd} : q ∈ (s.polled revents).pollfds ↔
    ∃ p ∈ s.pollfds, { p with revents := revents p.fd } = q := List.mem_map

omit [DecidableEq T] [DecidableEq V] in
theorem mem_visited (hvisited : visited.Perm ((s.polled revents).pollfds.filter (·.revents ≠ 0)))
    {q : Pollfd} : q ∈ visited ↔
      ∃ p ∈ s.pollfds, revents p.fd ≠ 0 ∧ { p with revents := revents p.fd } = q := by
  rw [hvisited.mem_iff, List.mem_filter, mem_polled]
  constructor
  · rintro ⟨⟨p, hp, rfl⟩, hne⟩
    exact ⟨p, hp, of_decide_eq_true hne, rfl⟩
  · rintro ⟨p, hp, hne, rfl⟩
    exact ⟨⟨p, hp, rfl⟩, decide_eq_true hne⟩

omit [DecidableEq T] [DecidableEq V] in
theorem Registered.visited_nodup (h : Registered s pending)
    (hvisited : visited.Perm ((s.polled revents).pollfds.filter (·.revents ≠ 0))) :
    (visited.map (·.fd)).Nodup := by
  refine (hvisited.map Pollfd.fd).nodup_iff.mpr ?_
  refine List.Nodup.sublist (List.filter_sublist.map _) ?_
  have hfds : (s.polled revents).pollfds.map Pollfd.fd = s.fds := FdGroup.fds_polled revents
  rw [hfds]
  exact h.exact.nodup

omit [DecidableEq T] [DecidableEq V] in
/-- The entries that are left: one that has no results is kept as it is. -/
theorem Registered.mem_left (h : Registered s pending)
    (hpollfds : s'.pollfds.Perm ((s.polled revents).pollfds.filterMap fun p =>
      if p.revents = 0 then some p else p.kept)) {q : Pollfd} :
    q ∈ s'.pollfds ↔ ∃ p ∈ s.pollfds, clear p.events (revents p.fd) ≠ 0 ∧
      ⟨p.fd, clear p.events (revents p.fd), revents p.fd⟩ = q := by
  rw [hpollfds.mem_iff, List.mem_filterMap]
  constructor
  · rintro ⟨q', hq', hsome⟩
    obtain ⟨p, hp, rfl⟩ := mem_polled.mp hq'
    refine ⟨p, hp, ?_⟩
    dsimp only at hsome
    by_cases hzero : revents p.fd = 0
    · rw [if_pos hzero] at hsome
      cases hsome
      rw [hzero, clear_zero]
      refine ⟨?_, rfl⟩
      rw [h.events p hp]
      exact (h.polls p.fd).mp (List.mem_map_of_mem hp)
    · rw [if_neg hzero] at hsome
      exact Pollfd.kept_eq_some.mp hsome
  · rintro ⟨p, hp, hne, rfl⟩
    refine ⟨_, mem_polled.mpr ⟨p, hp, rfl⟩, ?_⟩
    dsimp only
    by_cases hzero : revents p.fd = 0
    · rw [if_pos hzero, hzero, clear_zero]
    · rw [if_neg hzero]
      exact Pollfd.kept_eq_some.mpr ⟨hne, rfl⟩

theorem ne_zero_of_mask {m : Mask} {type : FdWaitType} (hmask : m &&& type.mask ≠ 0) : m ≠ 0 := by
  rintro rfl
  exact hmask (mask_zero_and _)

/-- The poll wakes who it should. -/
theorem Registered.processed (h : Registered s pending)
    (hvisited : visited.Perm ((s.polled revents).pollfds.filter (·.revents ≠ 0)))
    (hwaits : s'.waits = visited.foldl Pollfd.wake s.waits) :
    Processed s s' pending revents visited (wokenBy s.waits visited) := by
  have hnodup := h.visited_nodup hvisited
  refine ⟨hnodup, fun fd => ?_, nodup_wokenBy h.sound hnodup, fun r m => ?_, fun fd type => ?_⟩
  · rw [List.mem_map]
    constructor
    · rintro ⟨q, hq, rfl⟩
      obtain ⟨p, hp, hne, rfl⟩ := (mem_visited hvisited).mp hq
      exact ⟨(h.polls p.fd).mp (List.mem_map_of_mem hp), hne⟩
    · rintro ⟨hpending, hne⟩
      obtain ⟨p, hp, rfl⟩ := h.entry hpending
      exact ⟨_, (mem_visited hvisited).mpr ⟨p, hp, hne, rfl⟩, rfl⟩
  · rw [mem_wokenBy hnodup]
    constructor
    · rintro ⟨q, hq, type, hmask, hm, hr⟩
      obtain ⟨p, hp, hne, rfl⟩ := (mem_visited hvisited).mp hq
      exact ⟨p.fd, type, hmask, hm, hr⟩
    · rintro ⟨fd, type, hmask, hm, hr⟩
      have hpending : pending fd ≠ 0 := fun hzero => by
        rw [h.queue_nil hzero] at hr
        cases hr
      obtain ⟨p, hp, rfl⟩ := h.entry hpending
      exact ⟨_, (mem_visited hvisited).mpr ⟨p, hp, ne_zero_of_mask hmask, rfl⟩, type, hmask, hm,
        hr⟩
  · rw [hwaits, queue_wakes]
    change (if _ then [] else s.waits.queue (fd, type)) = _
    by_cases hpending : pending fd = 0
    · rw [h.queue_nil hpending, ite_self, ite_self]
    · obtain ⟨p, hp, rfl⟩ := h.entry hpending
      refine if_congr ⟨?_, fun hmask => ?_⟩ rfl rfl
      · rintro ⟨q, hq, heq, hmask⟩
        obtain ⟨p', hp', hne, rfl⟩ := (mem_visited hvisited).mp hq
        rw [← heq]
        exact hmask
      · exact ⟨_, (mem_visited hvisited).mpr ⟨p, hp, ne_zero_of_mask hmask, rfl⟩, rfl, hmask⟩

/-- A poll wakes who it should, and what is pending then is registered. -/
theorem processPollResults_registered (h : Registered s pending) (revents : Nat → Mask) :
    ∃ s' visited woken, (s.polled revents).processPollResults = some (s', visited, woken) ∧
      Processed s s' pending revents visited woken ∧
      Registered s' fun fd => clear (pending fd) (revents fd) := by
  obtain ⟨s', visited, hloop, hvisited, hexact, hwaits, hpollfds⟩ :=
    FdGroup.processLoop_spec (A := []) _ rfl
      (by rw [FdGroup.fds_polled]; exact h.exact) (List.nil_append (s.polled revents).pollfds).symm
  have hmem {q : Pollfd} := h.mem_left hpollfds (q := q)
  have hprocessed := h.processed hvisited hwaits
  refine ⟨s', visited, _, hloop, hprocessed, hexact, fun fd => ?_, fun q hq => ?_, ?_,
    fun fd type hne => ?_⟩
  · rw [FdGroup.fds, List.mem_map]
    constructor
    · rintro ⟨q, hq, rfl⟩
      obtain ⟨p, hp, hne, rfl⟩ := hmem.mp hq
      rw [← h.events p hp]
      exact hne
    · intro hne
      have hpending : pending fd ≠ 0 := fun hzero => hne (by rw [hzero, clear_of_zero])
      obtain ⟨p, hp, rfl⟩ := h.entry hpending
      rw [← h.events p hp] at hne
      exact ⟨_, hmem.mpr ⟨p, hp, hne, rfl⟩, rfl⟩
  · obtain ⟨p, hp, -, rfl⟩ := hmem.mp hq
    dsimp only
    rw [h.events p hp]
  · rw [hwaits]
    exact sound_wakes h.sound
  · rw [hprocessed.queue] at hne
    by_cases hmask : revents fd &&& type.mask ≠ 0
    · rw [if_pos hmask] at hne
      exact absurd rfl hne
    · rw [if_neg hmask] at hne
      rw [clear_and_bit, if_neg hmask]
      exact h.waiting fd type hne

end Poll

theorem step_registered (h : Registered s pending) (op : FdOp T V) :
    ∃ s', s.step op = some s' ∧ Registered s' (op.pends pending) := by
  cases op with
  | wait t fd type revents => exact coFdWait_registered h t fd type revents
  | closed fd => exact coFdClosed_registered h fd
  | cancel t =>
    refine ⟨_, rfl, h.exact, h.polls, h.events, h.sound.cancelEvents t, fun fd type hne => ?_⟩
    refine h.waiting fd type fun hnil => hne ?_
    change (s.waits.queue (fd, type)).filter _ = []
    rw [hnil]
    rfl
  | poll revents =>
    obtain ⟨s', visited, woken, hpoll, -, hregistered⟩ := processPollResults_registered h revents
    exact ⟨s', by rw [FdGroup.step, hpoll]; rfl, hregistered⟩

theorem run_registered (h : Registered s pending) (ops : List (FdOp T V)) :
    ∃ s', s.run ops = some s' ∧ Registered s' (ops.foldl FdOp.pends pending) := by
  induction ops generalizing s pending with
  | nil => exact ⟨s, rfl, h⟩
  | cons op ops ih =>
    obtain ⟨s₁, hstep, h₁⟩ := step_registered h op
    obtain ⟨s', hrun, h'⟩ := ih h₁
    refine ⟨s', ?_, h'⟩
    rw [FdGroup.run, List.foldlM_cons, hstep]
    exact hrun

/-- After any calls the descriptors are registered as they are waited for, whoever is waiting;
and whatever a poll returns then, its results wake who they should, and leave the descriptors
registered. -/
theorem fds_ready (vars : V → Int) (ops : List (FdOp T V)) :
    ∃ s, (FdGroup.init vars : FdGroup T V).run ops = some s ∧
      Registered s (ops.foldl FdOp.pends fun _ => 0) ∧
      ∀ revents : Nat → Mask, ∃ s' visited woken,
        (s.polled revents).processPollResults = some (s', visited, woken) ∧
        Processed s s' (ops.foldl FdOp.pends fun _ => 0) revents visited woken ∧
        Registered s' fun fd => clear (ops.foldl FdOp.pends (fun _ => 0) fd) (revents fd) := by
  obtain ⟨s, hrun, h⟩ := run_registered (registered_init vars) ops
  exact ⟨s, hrun, h, processPollResults_registered h⟩

end Runs

end Nox.Threads

import Mathlib.Data.List.Nodup
import Nox.Switch.Conn

/-!
# The registry of connections

After every run `connection_map` has just the connections that are registered and not
closing, and each `Conn` is deleted once, when it is closed and no longer polled
(`run_consistent`).
-/

namespace Nox.Switch

section Invariant

/-! ## The invariant -/

/-- The invariant.  In the middle of a step `fresh` may be missing in the map, and
`dying` may be closed and not polled. -/
structure Tidy (s : Connections) (fresh dying : Option Nat) : Prop where
  named : ∀ a c, s.conns a = some c → s.names[a]? = some c.datapathId
  count : ∀ a c, s.conns a = some c → c.pollCnt = s.polls.count a
  polled : ∀ a ∈ s.polls, (s.conns a).isSome
  map : ∀ d a, (d, a) ∈ s.connectionMap ↔
    fresh ≠ some a ∧ ∃ c, s.conns a = some c ∧ c.datapathId = d ∧ c.closing = false
  keys : (s.connectionMap.map (·.1)).Nodup
  pollables : ∀ a, a ∈ s.pollables ↔ ∃ c, s.conns a = some c ∧ c.closing = false
  loop : s.pollables.Nodup
  busy : ∀ a c, s.conns a = some c → c.closing = true → a ∈ s.polls ∨ dying = some a
  deleted : ∀ a, a ∈ s.deletions.map (·.conn) ↔ a < s.names.length ∧ s.conns a = none
  once : (s.deletions.map (·.conn)).Nodup
  safe : ∀ x ∈ s.deletions, x.mapped = false ∧ x.polls = 0

theorem tidy_init : Tidy .init none none where
  named := fun _ _ h => nomatch h
  count := fun _ _ h => nomatch h
  polled := fun _ h => nomatch h
  map := fun _ _ => ⟨fun h => (nomatch h), fun ⟨_, _, h, _⟩ => (nomatch h)⟩
  keys := List.nodup_nil
  pollables := fun _ => ⟨fun h => (nomatch h), fun ⟨_, h, _⟩ => (nomatch h)⟩
  loop := List.nodup_nil
  busy := fun _ _ h => nomatch h
  deleted := fun a => ⟨fun h => (nomatch h), fun h => absurd h.1 (Nat.not_lt_zero a)⟩
  once := List.nodup_nil
  safe := fun _ h => nomatch h

end Invariant

section Steps

/-! ## The operations keep it -/

variable {s : Connections} {fresh dying : Option Nat} {a : Nat} {c : Conn}

theorem Tidy.lt (h : Tidy s fresh dying) (hc : s.conns a = some c) : a < s.names.length :=
  (List.getElem?_eq_some_iff.mp (h.named a c hc)).1

/-- A closed `Conn` that is not polled is deleted. -/
theorem Tidy.delete (h : Tidy s fresh (some a)) (hc : s.conns a = some c)
    (hclosing : c.closing = true) (hpolls : a ∉ s.polls) : Tidy (s.delete a) fresh none := by
  have hother : ∀ b, b ≠ a → (s.delete a).conns b = s.conns b := fun b hb =>
    Function.update_of_ne hb ..
  have hgone : (s.delete a).conns a = none := Function.update_self ..
  have hsome : ∀ b c', (s.delete a).conns b = some c' → b ≠ a ∧ s.conns b = some c' := by
    intro b c' hb
    by_cases heq : b = a
    · subst heq
      rw [hgone] at hb
      cases hb
    · exact ⟨heq, hother b heq ▸ hb⟩
  have hopen : ∀ b, (∃ c', (s.delete a).conns b = some c' ∧ c'.closing = false) ↔
      ∃ c', s.conns b = some c' ∧ c'.closing = false := by
    intro b
    constructor
    · rintro ⟨c', hb, hopen⟩
      exact ⟨c', (hsome b c' hb).2, hopen⟩
    · rintro ⟨c', hb, hopen⟩
      refine ⟨c', (hother b fun heq => ?_).trans hb, hopen⟩
      subst heq
      cases hc.symm.trans hb
      rw [hclosing] at hopen
      cases hopen
  have hnotin : ∀ p ∈ s.connectionMap, p.2 ≠ a := by
    rintro ⟨d, b⟩ hp rfl
    obtain ⟨-, c', hb, -, hopen⟩ := (h.map d b).mp hp
    cases hc.symm.trans hb
    rw [hclosing] at hopen
    cases hopen
  have hdeletions : (s.delete a).deletions.map (·.conn) = s.deletions.map (·.conn) ++ [a] :=
    List.map_append
  refine ⟨fun b c' hb => h.named b c' (hsome b c' hb).2,
    fun b c' hb => h.count b c' (hsome b c' hb).2, fun b hb => ?_, fun d b => ?_, h.keys,
    fun b => (h.pollables b).trans (hopen b).symm, h.loop, fun b c' hb hcl => ?_, fun b => ?_, ?_,
    fun x hx => ?_⟩
  · rw [hother b fun heq => hpolls (heq ▸ hb)]
    exact h.polled b hb
  · refine (h.map d b).trans (and_congr_right fun _ => ?_)
    constructor
    · rintro ⟨c', hb, hd, hopen⟩
      refine ⟨c', (hother b fun heq => ?_).trans hb, hd, hopen⟩
      subst heq
      cases hc.symm.trans hb
      rw [hclosing] at hopen
      cases hopen
    · rintro ⟨c', hb, hd, hopen⟩
      exact ⟨c', (hsome b c' hb).2, hd, hopen⟩
  · obtain ⟨hne, hb⟩ := hsome b c' hb
    rcases h.busy b c' hb hcl with hmem | heq
    · exact .inl hmem
    · exact absurd (Option.some.inj heq).symm hne
  · rw [hdeletions, List.mem_append, h.deleted]
    by_cases heq : b = a
    · subst heq
      exact ⟨fun _ => ⟨h.lt hc, hgone⟩, fun _ => .inr (List.mem_singleton.mpr rfl)⟩
    · rw [hother b heq]
      exact ⟨fun hb => hb.elim id fun hb => absurd (List.mem_singleton.mp hb) heq, .inl⟩
  · rw [hdeletions]
    refine List.nodup_append.mpr ⟨h.once, List.pairwise_singleton _ _, fun b hb b' hb' heq => ?_⟩
    rw [heq, List.mem_singleton.mp hb'] at hb
    have hnone := ((h.deleted a).mp hb).2
    rw [hc] at hnone
    cases hnone
  · rcases List.mem_append.mp hx with hx | hx
    · exact h.safe x hx
    · rw [List.mem_singleton.mp hx]
      refine ⟨?_, List.count_eq_zero.mpr hpolls⟩
      simpa using fun d b hp => hnotin (d, b) hp

/-- The keys of the map are unique. -/
theorem Tidy.eq_of_mem (h : Tidy s fresh dying) {d : UInt64} {a b : Nat}
    (ha : (d, a) ∈ s.connectionMap) (hb : (d, b) ∈ s.connectionMap) : a = b :=
  congrArg Prod.snd (List.inj_on_of_nodup_map h.keys ha hb rfl)

theorem update_eq_some {conns : Nat → Option Conn} {o : Option Conn} {b : Nat} {c' : Conn} :
    Function.update conns a o b = some c' ↔ b = a ∧ o = some c' ∨ b ≠ a ∧ conns b = some c' := by
  by_cases hb : b = a
  · subst hb
    simp
  · simp [hb]

/-- A `Conn` that is polled need not be deleted yet. -/
theorem Tidy.settle (h : Tidy s fresh (some a))
    (hbusy : ∀ c, s.conns a = some c → c.closing = true → a ∈ s.polls) : Tidy s fresh none :=
  { h with
    busy := fun b c hb hclosing => by
      rcases h.busy b c hb hclosing with hmem | heq
      · exact .inl hmem
      · cases heq
        exact .inl (hbusy c hb hclosing) }

/-- `close` takes a `Conn` out of the map and out of the poll loop. -/
theorem Tidy.shut (h : Tidy s fresh none) (hc : s.conns a = some c) (hopen : c.closing = false)
    (ha : fresh ≠ some a) : Tidy (s.shut a c) fresh (some a) := by
  have hmapped : (c.datapathId, a) ∈ s.connectionMap := (h.map _ _).mpr ⟨ha, c, hc, rfl, hopen⟩
  have hconns : ∀ b c', (s.shut a c).conns b = some c' ↔
      b = a ∧ { c with closing := true } = c' ∨ b ≠ a ∧ s.conns b = some c' := fun b c' =>
    update_eq_some.trans (by rw [Option.some.injEq])
  refine ⟨fun b c' hb => ?_, fun b c' hb => ?_, fun b hb => ?_, fun d b => ?_,
    (List.filter_sublist.map _).nodup h.keys, fun b => ?_, h.loop.erase a,
    fun b c' hb hclosing => ?_, fun b => ?_, h.once, h.safe⟩
  · rcases (hconns b c').mp hb with ⟨rfl, rfl⟩ | ⟨-, hb⟩
    · exact h.named b c hc
    · exact h.named b c' hb
  · rcases (hconns b c').mp hb with ⟨rfl, rfl⟩ | ⟨-, hb⟩
    · exact h.count b c hc
    · exact h.count b c' hb
  · obtain ⟨c', hc'⟩ := Option.isSome_iff_exists.mp (h.polled b hb)
    by_cases heq : b = a
    · exact Option.isSome_of_eq_some ((hconns b _).mpr (.inl ⟨heq, rfl⟩))
    · exact Option.isSome_of_eq_some ((hconns b c').mpr (.inr ⟨heq, hc'⟩))
  · refine List.mem_filter.trans ?_
    rw [h.map]
    constructor
    · rintro ⟨⟨hfresh, c', hb, hd, hopen'⟩, hne⟩
      refine ⟨hfresh, c', (hconns b c').mpr (.inr ⟨fun heq => ?_, hb⟩), hd, hopen'⟩
      subst heq
      cases hc.symm.trans hb
      simp [hd] at hne
    · rintro ⟨hfresh, c', hb, hd, hopen'⟩
      rcases (hconns b c').mp hb with ⟨-, rfl⟩ | ⟨hne, hb⟩
      · cases hopen'
      · refine ⟨⟨hfresh, c', hb, hd, hopen'⟩, ?_⟩
        have hne' : d ≠ c.datapathId := fun heq => by
          subst heq
          exact hne (h.eq_of_mem ((h.map _ _).mpr ⟨hfresh, c', hb, hd, hopen'⟩) hmapped)
        simpa using hne'
  · show b ∈ s.pollables.erase a ↔ _
    rw [h.loop.mem_erase_iff, h.pollables]
    constructor
    · rintro ⟨hne, c', hb, hopen'⟩
      exact ⟨c', (hconns b c').mpr (.inr ⟨hne, hb⟩), hopen'⟩
    · rintro ⟨c', hb, hopen'⟩
      rcases (hconns b c').mp hb with ⟨-, rfl⟩ | ⟨hne, hb⟩
      · cases hopen'
      · exact ⟨hne, c', hb, hopen'⟩
  · rcases (hconns b c').mp hb with ⟨rfl, -⟩ | ⟨-, hb⟩
    · exact .inr rfl
    · exact .inl ((h.busy b c' hb hclosing).resolve_right fun heq => nomatch heq)
  · refine (h.deleted b).trans (and_congr_right fun _ => ?_)
    by_cases heq : b = a
    · subst heq
      simp [Connections.shut, hc]
    · simp [Connections.shut, heq]

theorem Tidy.close (h : Tidy s fresh none) (hc : s.conns a = some c) (ha : fresh ≠ some a) :
    Tidy (s.close a c) fresh none := by
  unfold Connections.close
  split
  · exact h
  · next hopen =>
    have hshut := h.shut hc (by simpa using hopen) ha
    have hself : (s.shut a c).conns a = some { c with closing := true } := Function.update_self ..
    split
    · next hzero =>
      have hcount := h.count a c hc
      have hpolls : s.polls.count a = 0 := by omega
      exact hshut.delete hself rfl (List.count_eq_zero.mp hpolls)
    · next hpos =>
      have hcount := h.count a c hc
      have hpolls : 0 < s.polls.count a := by omega
      exact hshut.settle fun _ _ _ => List.count_pos_iff.mp hpolls

/-- The poll count of a `Conn` changes with the polls in progress. -/
theorem Tidy.setPolls (h : Tidy s fresh none) (hc : s.conns a = some c) {polls : List Nat}
    {n : Int} (hn : n = polls.count a) (hother : ∀ b, b ≠ a → polls.count b = s.polls.count b) :
    Tidy { s with
      conns := Function.update s.conns a (some { c with pollCnt := n })
      polls := polls } fresh (some a) := by
  have hconns : ∀ b c', Function.update s.conns a (some { c with pollCnt := n }) b = some c' ↔
      b = a ∧ { c with pollCnt := n } = c' ∨ b ≠ a ∧ s.conns b = some c' := fun b c' =>
    update_eq_some.trans (by rw [Option.some.injEq])
  have hmem : ∀ b, b ≠ a → (b ∈ polls ↔ b ∈ s.polls) := fun b hb => by
    rw [← List.count_pos_iff, hother b hb, List.count_pos_iff]
  have hview : ∀ b (p : Conn → Prop), (∀ c', p { c' with pollCnt := n } ↔ p c') →
      ((∃ c', Function.update s.conns a (some { c with pollCnt := n }) b = some c' ∧ p c') ↔
        ∃ c', s.conns b = some c' ∧ p c') := by
    intro b p hp
    by_cases hb : b = a
    · subst hb
      simp [hc, hp]
    · simp [hb]
  refine ⟨fun b c' hb => ?_, fun b c' hb => ?_, fun b hb => ?_, fun d b => ?_, h.keys,
    fun b => ?_, h.loop, fun b c' hb hclosing => ?_, fun b => ?_, h.once, h.safe⟩
  · rcases (hconns b c').mp hb with ⟨rfl, rfl⟩ | ⟨-, hb⟩
    · exact h.named b c hc
    · exact h.named b c' hb
  · rcases (hconns b c').mp hb with ⟨rfl, rfl⟩ | ⟨hne, hb⟩
    · exact hn
    · rw [hother b hne]
      exact h.count b c' hb
  · by_cases heq : b = a
    · exact Option.isSome_of_eq_some ((hconns b _).mpr (.inl ⟨heq, rfl⟩))
    · obtain ⟨c', hc'⟩ := Option.isSome_iff_exists.mp (h.polled b ((hmem b heq).mp hb))
      exact Option.isSome_of_eq_some ((hconns b c').mpr (.inr ⟨heq, hc'⟩))
  · rw [h.map]
    exact and_congr_right fun _ =>
      (hview b (fun c' => c'.datapathId = d ∧ c'.closing = false) fun _ => Iff.rfl).symm
  · rw [h.pollables]
    exact (hview b (fun c' => c'.closing = false) fun _ => Iff.rfl).symm
  · rcases (hconns b c').mp hb with ⟨rfl, -⟩ | ⟨hne, hb⟩
    · exact .inr rfl
    · exact .inl ((hmem b hne).mpr
        ((h.busy b c' hb hclosing).resolve_right fun heq => nomatch heq))
  · refine (h.deleted b).trans (and_congr_right fun _ => ?_)
    by_cases heq : b = a
    · subst heq
      simp [hc]
    · simp [heq]

theorem Tidy.beginPoll (h : Tidy s fresh none) (hc : s.conns a = some c) :
    Tidy (s.beginPoll a c) fresh none := by
  have hbegin : Tidy (s.beginPoll a c) fresh (some a) := by
    apply h.setPolls hc
    · rw [h.count a c hc, List.count_cons_self]
      rfl
    · exact fun b hb => List.count_cons_of_ne (Ne.symm hb)
  exact hbegin.settle fun _ _ _ => List.mem_cons_self

theorem Tidy.endPoll (h : Tidy s fresh none) (hc : s.conns a = some c) (ha : a ∈ s.polls) :
    Tidy (s.endPoll a c) fresh none := by
  have hcount := h.count a c hc
  have herase : (s.polls.erase a).count a = s.polls.count a - 1 := List.count_erase_self
  have hpos := List.count_pos_iff.mpr ha
  have hrelease : Tidy (s.release a c) fresh (some a) := by
    apply h.setPolls hc
    · omega
    · exact fun b hb => List.count_erase_of_ne hb
  have hself : (s.release a c).conns a = some { c with pollCnt := c.pollCnt - 1 } :=
    Function.update_self ..
  unfold Connections.endPoll
  split
  · next hlast =>
    have hzero : (s.polls.erase a).count a = 0 := by
      have hlast := hlast.1
      omega
    exact hrelease.delete hself hlast.2 (List.count_eq_zero.mp hzero)
  · next hmore =>
    refine hrelease.settle fun c' hc' hclosing => ?_
    cases hself.symm.trans hc'
    have hne : c.pollCnt - 1 ≠ 0 := fun hzero => hmore ⟨hzero, hclosing⟩
    have hleft : 0 < (s.polls.erase a).count a := by omega
    exact List.count_pos_iff.mp hleft

/-- `close` and `endPoll` of a `Conn` that is polled, where it stays in memory. -/
theorem Tidy.closePolled (h : Tidy s fresh none) (hc : s.conns a = some c)
    (hpolls : a ∈ s.polls) : ∃ c', (s.close a c).conns a = some c' ∧ a ∈ (s.close a c).polls := by
  have hcount := h.count a c hc
  have hpos := List.count_pos_iff.mpr hpolls
  unfold Connections.close
  split
  · exact ⟨c, hc, hpolls⟩
  · rw [if_neg (by omega)]
    exact ⟨_, Function.update_self .., hpolls⟩

theorem Tidy.poll (h : Tidy s none none) (hc : s.conns a = some c) (r : Received) :
    ∃ s', s.poll a r = some s' ∧ Tidy s' none none := by
  have hbegin := h.beginPoll hc
  have hself : (s.beginPoll a c).conns a = some { c with pollCnt := c.pollCnt + 1 } :=
    Function.update_self ..
  have hmem : a ∈ (s.beginPoll a c).polls := List.mem_cons_self
  have hwith : s.withConn a s.beginPoll = some (s.beginPoll a c) := by
    rw [Connections.withConn, hc]
    rfl
  have hend : ∃ s', (s.beginPoll a c).withConn a (s.beginPoll a c).endPoll = some s' ∧
      Tidy s' none none := by
    rw [Connections.withConn, hself]
    exact ⟨_, rfl, hbegin.endPoll hself hmem⟩
  have hclose : ∃ s', (((s.beginPoll a c).withConn a (s.beginPoll a c).close).bind
      fun s => s.withConn a s.endPoll) = some s' ∧ Tidy s' none none := by
    have hclosed := hbegin.close hself fun heq => nomatch heq
    obtain ⟨c', hc', hpolled⟩ := hbegin.closePolled hself hmem
    rw [Connections.withConn, hself, Option.map_some, Option.bind_some, Connections.withConn, hc']
    exact ⟨_, rfl, hclosed.endPoll hc' hpolled⟩
  unfold Connections.poll
  rw [hwith]
  cases r with
  | message => exact ⟨_, rfl, hbegin⟩
  | malformed => exact hend
  | again => exact hend
  | closed => exact hclose
  | failed => exact hclose

/-- A new `Conn` is not in the map yet. -/
theorem Tidy.alloc (h : Tidy s none none) (d : UInt64) :
    Tidy (s.alloc d) (some s.names.length) none := by
  have hnew : s.conns s.names.length = none := by
    cases hc : s.conns s.names.length with
    | none => rfl
    | some c => exact absurd (h.lt hc) (Nat.lt_irrefl _)
  have hpolls : s.names.length ∉ s.polls := fun hmem => by
    have hsome := h.polled _ hmem
    rw [hnew] at hsome
    cases hsome
  have hconns : ∀ b c', (s.alloc d).conns b = some c' ↔
      b = s.names.length ∧ ⟨d, false, 0⟩ = c' ∨ b ≠ s.names.length ∧ s.conns b = some c' :=
    fun b c' => update_eq_some.trans (by rw [Option.some.injEq])
  have hold : ∀ b c', s.conns b = some c' → b ≠ s.names.length := fun b c' hb =>
    Nat.ne_of_lt (h.lt hb)
  refine ⟨fun b c' hb => ?_, fun b c' hb => ?_, fun b hb => ?_, fun e b => ?_, h.keys,
    fun b => ?_, ?_, fun b c' hb hclosing => ?_, fun b => ?_, h.once, h.safe⟩
  · rcases (hconns b c').mp hb with ⟨rfl, rfl⟩ | ⟨-, hb⟩
    · exact List.getElem?_concat_length
    · exact (List.getElem?_append_left (h.lt hb)).trans (h.named b c' hb)
  · rcases (hconns b c').mp hb with ⟨rfl, rfl⟩ | ⟨-, hb⟩
    · exact congrArg Int.ofNat (List.count_eq_zero.mpr hpolls).symm
    · exact h.count b c' hb
  · obtain ⟨c', hc'⟩ := Option.isSome_iff_exists.mp (h.polled b hb)
    exact Option.isSome_of_eq_some ((hconns b c').mpr (.inr ⟨hold b c' hc', hc'⟩))
  · refine (h.map e b).trans ?_
    constructor
    · rintro ⟨-, c', hb, hd, hopen⟩
      exact ⟨fun heq => hold b c' hb (Option.some.inj heq).symm, c',
        (hconns b c').mpr (.inr ⟨hold b c' hb, hb⟩), hd, hopen⟩
    · rintro ⟨hne, c', hb, hd, hopen⟩
      rcases (hconns b c').mp hb with ⟨rfl, -⟩ | ⟨-, hb⟩
      · exact absurd rfl hne
      · exact ⟨fun heq => (nomatch heq), c', hb, hd, hopen⟩
  · refine List.mem_append.trans ?_
    rw [h.pollables, List.mem_singleton]
    constructor
    · rintro (⟨c', hb, hopen⟩ | rfl)
      · exact ⟨c', (hconns b c').mpr (.inr ⟨hold b c' hb, hb⟩), hopen⟩
      · exact ⟨_, (hconns _ _).mpr (.inl ⟨rfl, rfl⟩), rfl⟩
    · rintro ⟨c', hb, hopen⟩
      rcases (hconns b c').mp hb with ⟨rfl, -⟩ | ⟨-, hb⟩
      · exact .inr rfl
      · exact .inl ⟨c', hb, hopen⟩
  · refine List.nodup_append.mpr ⟨h.loop, List.pairwise_singleton _ _, fun b hb b' hb' heq => ?_⟩
    obtain ⟨c', hc', -⟩ := (h.pollables b).mp hb
    rw [heq, List.mem_singleton.mp hb'] at hc'
    exact hold _ c' hc' rfl
  · rcases (hconns b c').mp hb with ⟨-, rfl⟩ | ⟨-, hb⟩
    · cases hclosing
    · exact h.busy b c' hb hclosing
  · have hlength : (s.alloc d).names.length = s.names.length + 1 := List.length_append
    rw [hlength]
    refine (h.deleted b).trans ?_
    by_cases heq : b = s.names.length
    · subst heq
      simp [Connections.alloc]
    · have hlt : b < s.names.length ↔ b < s.names.length + 1 := by omega
      simp [Connections.alloc, heq, hlt]

/-- The new `Conn` comes into the map. -/
theorem Tidy.insert (h : Tidy s (some a) none) (hc : s.conns a = some c) (hopen : c.closing = false)
    (hfree : ∀ b, (c.datapathId, b) ∉ s.connectionMap) :
    Tidy { s with connectionMap := (c.datapathId, a) :: s.connectionMap } none none := by
  refine { h with
    map := fun d b => ?_
    keys := ?_ }
  · rw [List.mem_cons, h.map]
    constructor
    · rintro (heq | ⟨-, hb⟩)
      · cases heq
        exact ⟨fun heq => (nomatch heq), c, hc, rfl, hopen⟩
      · exact ⟨fun heq => (nomatch heq), hb⟩
    · rintro ⟨-, c', hb, hd, hopen'⟩
      by_cases heq : a = b
      · subst heq
        cases hc.symm.trans hb
        exact .inl (by rw [hd])
      · exact .inr ⟨fun h => heq (Option.some.inj h), c', hb, hd, hopen'⟩
  · refine List.nodup_cons.mpr ⟨fun hmem => ?_, h.keys⟩
    obtain ⟨⟨d, b⟩, hp, rfl⟩ := List.mem_map.mp hmem
    exact hfree b hp

theorem find_eq_some {d : UInt64} {b : Nat} (hb : s.find d = some b) :
    (d, b) ∈ s.connectionMap := by
  obtain ⟨⟨d', b'⟩, hp, rfl⟩ := Option.map_eq_some_iff.mp hb
  have heq : d' = d := by simpa using List.find?_some hp
  exact heq ▸ List.mem_of_find?_eq_some hp

theorem find_eq_none {d : UInt64} (hd : s.find d = none) (b : Nat) : (d, b) ∉ s.connectionMap :=
  fun hmem => by
    have hnone := List.find?_eq_none.mp (Option.map_eq_none_iff.mp hd) _ hmem
    simp at hnone

theorem find_eq_none_of {d : UInt64} (hd : ∀ b, (d, b) ∉ s.connectionMap) : s.find d = none := by
  cases hb : s.find d with
  | none => rfl
  | some b => exact absurd (find_eq_some hb) (hd b)

/-- `close` touches no other `Conn`, and ends the entry of its own. -/
theorem close_other (s : Connections) (a : Nat) (c : Conn) {b : Nat} (hb : b ≠ a) :
    (s.close a c).conns b = s.conns b := by
  unfold Connections.close
  split
  · rfl
  · have hshut : (s.shut a c).conns b = s.conns b := Function.update_of_ne hb ..
    split
    · exact (Function.update_of_ne hb ..).trans hshut
    · exact hshut

theorem close_unmapped (s : Connections) (a : Nat) {c : Conn} (hopen : c.closing = false)
    (b : Nat) :
    (c.datapathId, b) ∉ (s.close a c).connectionMap := by
  have hshut : (c.datapathId, b) ∉ (s.shut a c).connectionMap := by
    simp [Connections.shut]
  unfold Connections.close
  rw [if_neg (by simp [hopen])]
  split
  · exact hshut
  · exact hshut

/-- `register_conn` succeeds. -/
theorem Tidy.registerConn (h : Tidy s none none) (d : UInt64) :
    ∃ s', s.registerConn d = some s' ∧ Tidy s' none none := by
  have halloc := h.alloc d
  have hself : (s.alloc d).conns s.names.length = some ⟨d, false, 0⟩ := Function.update_self ..
  unfold Connections.registerConn
  dsimp only
  cases hfind : (s.alloc d).find d with
  | none =>
    have hinsert := halloc.insert hself rfl (find_eq_none hfind)
    have heq : (s.alloc d).insert d s.names.length = ({ s.alloc d with
        connectionMap := (d, s.names.length) :: (s.alloc d).connectionMap }, true) := by
      rw [Connections.insert, hfind]
    rw [heq]
    exact ⟨_, rfl, hinsert⟩
  | some b =>
    obtain ⟨hne, c, hc, rfl, hopen⟩ := (halloc.map d b).mp (find_eq_some hfind)
    have hclose := halloc.close hc hne
    have hother : s.names.length ≠ b := fun heq => hne (congrArg some heq)
    have hself' := (close_other (s.alloc c.datapathId) b c hother).trans hself
    have hfree := close_unmapped (s.alloc c.datapathId) b hopen
    have hinsert := hclose.insert hself' rfl hfree
    have heq : (s.alloc c.datapathId).insert c.datapathId s.names.length =
        (s.alloc c.datapathId, false) := by
      rw [Connections.insert, hfind]
    have heq' : ((s.alloc c.datapathId).close b c).insert c.datapathId s.names.length =
        ({ (s.alloc c.datapathId).close b c with connectionMap := (c.datapathId, s.names.length) ::
          ((s.alloc c.datapathId).close b c).connectionMap }, true) := by
      rw [Connections.insert, find_eq_none_of hfree]
    rw [heq]
    simp only [hfind, hc, heq']
    exact ⟨_, rfl, hinsert⟩

theorem Tidy.step (h : Tidy s none none) {op : Op} {s' : Connections} (hs : s.step op = some s') :
    Tidy s' none none := by
  have hclose : ∀ a s', s.withConn a s.close = some s' → Tidy s' none none := by
    intro a s' hs
    obtain ⟨c, hc, rfl⟩ := Option.map_eq_some_iff.mp hs
    exact h.close hc fun heq => nomatch heq
  cases op with
  | registerConn d =>
    obtain ⟨s'', hs'', htidy⟩ := h.registerConn d
    cases hs.symm.trans hs''
    exact htidy
  | poll a r =>
    cases hc : s.conns a with
    | none => simp [Connections.step, Connections.poll, Connections.withConn, hc] at hs
    | some c =>
      obtain ⟨s'', hs'', htidy⟩ := h.poll hc r
      cases hs.symm.trans hs''
      exact htidy
  | ret a =>
    simp only [Connections.step] at hs
    split at hs
    · next hmem =>
      obtain ⟨c, hc, rfl⟩ := Option.map_eq_some_iff.mp hs
      exact h.endPoll hc hmem
    · cases hs
  | close a => exact hclose a s' hs
  | closeOpenflowConnection d =>
    simp only [Connections.step] at hs
    split at hs
    · cases hs
      exact h
    · next a ha => exact hclose a s' hs

theorem Tidy.run (h : Tidy s none none) {ops : List Op} {s' : Connections}
    (hs : s.run ops = some s') : Tidy s' none none := by
  induction ops generalizing s with
  | nil =>
    cases hs
    exact h
  | cons op ops ih =>
    rw [Connections.run, List.foldlM_cons] at hs
    obtain ⟨s₁, hs₁, hs'⟩ := Option.bind_eq_some_iff.mp hs
    exact ih (h.step hs₁) hs'

end Steps

section Guarantee

/-! ## The guarantee -/

/-- The map has a `Conn` under a datapath id exactly if it was registered under it and is
not closing, and one at most.  A `Conn` is deleted once: as soon as it is closed and not
polled, and neither the map nor a poll had it then or has it now.  Nothing fails on the
way. -/
structure Consistent (s : Connections) : Prop where
  map : ∀ d a, (d, a) ∈ s.connectionMap ↔
    s.names[a]? = some d ∧ ∃ c, s.conns a = some c ∧ c.closing = false
  keys : (s.connectionMap.map (·.1)).Nodup
  once : (s.deletions.map (·.conn)).Nodup
  deleted : ∀ a, a ∈ s.deletions.map (·.conn) ↔ a < s.names.length ∧ s.conns a = none
  closed : ∀ a c, s.conns a = some c → c.closing = true → a ∈ s.polls
  safe : ∀ x ∈ s.deletions, x.mapped = false ∧ x.polls = 0
  polled : ∀ a ∈ s.polls, (s.conns a).isSome
  loop : ∀ a ∈ s.pollables, ∀ r, (s.step (.poll a r)).isSome
  ends : ∀ a ∈ s.polls, (s.step (.ret a)).isSome
  registers : ∀ d, (s.step (.registerConn d)).isSome

theorem Tidy.consistent {s : Connections} (h : Tidy s none none) : Consistent s where
  map := by
    intro d a
    rw [h.map]
    constructor
    · rintro ⟨-, c, hc, rfl, hopen⟩
      exact ⟨h.named a c hc, c, hc, hopen⟩
    · rintro ⟨hd, c, hc, hopen⟩
      have hnamed := Option.some.inj ((h.named a c hc).symm.trans hd)
      exact ⟨fun heq => (nomatch heq), c, hc, hnamed, hopen⟩
  keys := h.keys
  once := h.once
  deleted := h.deleted
  closed := fun a c hc hclosing => (h.busy a c hc hclosing).resolve_right fun heq => nomatch heq
  safe := h.safe
  polled := h.polled
  loop := by
    intro a ha r
    obtain ⟨c, hc, -⟩ := (h.pollables a).mp ha
    obtain ⟨s', hs', -⟩ := h.poll hc r
    exact Option.isSome_of_eq_some hs'
  ends := by
    intro a ha
    obtain ⟨c, hc⟩ := Option.isSome_iff_exists.mp (h.polled a ha)
    rw [Connections.step, if_pos ha, Connections.withConn, hc]
    rfl
  registers := by
    intro d
    obtain ⟨s', hs', -⟩ := h.registerConn d
    exact Option.isSome_of_eq_some hs'

/-- Every run of registrations, polls and closes. -/
theorem run_consistent {ops : List Op} {s : Connections} (hs : Connections.init.run ops = some s) :
    Consistent s :=
  (tidy_init.run hs).consistent

/-- Two switches register the same datapath id while the first is polled, and the second
is closed by its peer. -/
theorem run_consistent_reregistered :
    ∃ s, Connections.init.run [.registerConn 5, .poll 0 .message, .registerConn 5,
      .poll 1 .closed, .ret 0] = some s ∧ s.deletions.map (·.conn) = [1, 0] ∧ Consistent s := by
  obtain ⟨s, hs⟩ : ∃ s, Connections.init.run [.registerConn 5, .poll 0 .message, .registerConn 5,
      .poll 1 .closed, .ret 0] = some s := ⟨_, rfl⟩
  have hdeletions : s.deletions.map (·.conn) = [1, 0] := by
    cases hs
    decide
  exact ⟨s, hs, hdeletions, run_consistent hs⟩

end Guarantee

end Nox.Switch

import Mathlib.Data.List.Infix
import Mathlib.Tactic.Common

/-!
# Length-prefixed framing

Messages that start with a header of `hdr` symbols, from which `len` reads the
length of the whole message.  A concatenation of such messages can be cut back
into them in one way only.
-/

namespace Nox.Framing

variable {α : Type}

/-- How the messages of a stream are delimited: `len` looks at the header only. -/
structure Format (α : Type) where
  hdr : Nat
  len : List α → Nat
  hdr_pos : 0 < hdr
  len_take : ∀ s, len (s.take hdr) = len s

variable {F : Format α}

/-- A message as long as its header says. -/
structure Framed (F : Format α) (m : List α) : Prop where
  hdr_le : F.hdr ≤ m.length
  len_eq : F.len m = m.length

/-- The beginning of a message that is not complete yet. -/
def Incomplete (F : Format α) (p : List α) : Prop :=
  p.length < F.hdr ∨ p.length < F.len p

theorem len_append (F : Format α) {s t : List α} (h : F.hdr ≤ s.length) :
    F.len (s ++ t) = F.len s := by
  rw [← F.len_take (s ++ t), List.take_append_of_le_length h, F.len_take]

/-- Two messages at the front of the same stream are the same. -/
theorem Framed.eq_of_append {a b x y : List α} (ha : Framed F a) (hb : Framed F b)
    (h : a ++ x = b ++ y) : a = b ∧ x = y := by
  have hlen : a.length = b.length := by
    calc a.length = F.len a := ha.len_eq.symm
      _ = F.len (a ++ x) := (len_append F ha.hdr_le).symm
      _ = F.len (b ++ y) := by rw [h]
      _ = F.len b := len_append F hb.hdr_le
      _ = b.length := hb.len_eq
  exact List.append_inj h hlen

/-- Of two ways to cut messages off a stream, one goes further than the other. -/
theorem flatten_compare {as bs : List (List α)} {x y : List α} (ha : ∀ m ∈ as, Framed F m)
    (hb : ∀ m ∈ bs, Framed F m) (h : as.flatten ++ x = bs.flatten ++ y) :
    (∃ cs, bs = as ++ cs ∧ x = cs.flatten ++ y) ∨ ∃ cs, as = bs ++ cs ∧ y = cs.flatten ++ x := by
  induction as generalizing bs with
  | nil => exact .inl ⟨bs, rfl, by simpa using h⟩
  | cons a as ih =>
    cases bs with
    | nil => exact .inr ⟨a :: as, rfl, by simpa using h.symm⟩
    | cons b bs =>
      simp only [List.flatten_cons, List.append_assoc] at h
      obtain ⟨rfl, hrest⟩ := (ha a List.mem_cons_self).eq_of_append (hb b List.mem_cons_self) h
      have ha' := fun m hm => ha m (List.mem_cons_of_mem a hm)
      have hb' := fun m hm => hb m (List.mem_cons_of_mem a hm)
      rcases ih ha' hb' hrest with ⟨cs, rfl, hx⟩ | ⟨cs, rfl, hy⟩
      · exact .inl ⟨cs, rfl, hx⟩
      · exact .inr ⟨cs, rfl, hy⟩

/-- A stream with no complete message at its front. -/
def Unframed (F : Format α) (t : List α) : Prop :=
  ∀ m x, Framed F m → t ≠ m ++ x

theorem Incomplete.unframed {p : List α} (hp : Incomplete F p) : Unframed F p := by
  rintro m x hm rfl
  have hle := hm.hdr_le
  have hlen := hm.len_eq
  unfold Incomplete at hp
  rw [len_append F hle, List.length_append] at hp
  omega

/-- A header with a length shorter than the header starts no message. -/
theorem unframed_of_len_lt {h x : List α} (hh : F.hdr ≤ h.length) (hlen : F.len h < F.hdr) :
    Unframed F (h ++ x) := by
  intro m y hm heq
  have hmlen : F.len m = F.len h := by
    calc F.len m = F.len (m ++ y) := (len_append F hm.hdr_le).symm
      _ = F.len (h ++ x) := by rw [heq]
      _ = F.len h := len_append F hh
  have hle := hm.hdr_le
  have heq := hm.len_eq
  omega

/-- Nothing but the end of the messages stands before an unframed rest. -/
theorem Unframed.eq_nil {p t : List α} {ms : List (List α)} (hp : Unframed F p)
    (hm : ∀ m ∈ ms, Framed F m) (h : p = ms.flatten ++ t) : ms = [] := by
  cases ms with
  | nil => rfl
  | cons m ms =>
    rw [List.flatten_cons, List.append_assoc] at h
    exact absurd h (hp m _ (hm m List.mem_cons_self))

/-- Messages cut off a stream are the first of those it starts with. -/
theorem prefix_of_flatten {as bs : List (List α)} {x t : List α} (ha : ∀ m ∈ as, Framed F m)
    (hb : ∀ m ∈ bs, Framed F m) (ht : Unframed F t) (h : as.flatten ++ x = bs.flatten ++ t) :
    ∃ cs, bs = as ++ cs ∧ x = cs.flatten ++ t := by
  rcases flatten_compare ha hb h with hpre | ⟨cs, rfl, hy⟩
  · exact hpre
  · have hnil : cs = [] :=
      ht.eq_nil (fun m hm => ha m (List.mem_append_right bs hm)) hy
    subst hnil
    exact ⟨[], by simp, by simpa using hy.symm⟩

end Nox.Framing

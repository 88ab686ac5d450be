import Nox.Json.Document

/-!
# The callback of `json_object`

`json_object::cb` puts each value it is told of into the container that is open, and a container
there when it begins: the objects stand in memory, and containers hold the addresses of others.
Whatever it is told, it builds what the builder does that puts a container into its parent when it
ends.
-/

namespace Nox.Json

open Lib (Binary32)
open Lib.Json (Event)

section Callback

/-! ## The callback -/

/-- What a `json_object` that is no container points to. -/
inductive Scalar
  | integer (value : BitVec 32)
  | float (value : Binary32)
  | null
  | boolean (value : Bool)
  | string (value : List Char)

/-- What a `json_object` points to, of its type.  Nothing else of it changes, so that it is told by
the address of this. -/
inductive Payload
  | array (elems : List Nat)
  | dict (entries : List (List Char × Nat))
  | scalar (value : Scalar)

/-- The memory, and the members of the object that is the context; it is `JSONT_NULL` before. -/
structure Callback where
  heap : List Payload
  lastkey : List Char
  mystack : List Nat
  object : Option Nat

/-- `push_back`, or `insert`, which leaves a key alone that is there. -/
def Payload.insert (key : List Char) (newobj : Nat) : Payload → Payload
  | .array elems => .array (elems ++ [newobj])
  | .dict entries =>
    if key ∈ entries.map Prod.fst then .dict entries else .dict (entries ++ [(key, newobj)])
  | .scalar value => .scalar value

namespace Callback

def init : Callback := ⟨[], [], [], none⟩

/-- A new object goes to the container the iterator points to, or is the object itself. -/
def place (s : Callback) (i : Option Nat) (newobj : Nat) : Callback :=
  match i with
  | none => { s with object := some newobj }
  | some parent => { s with heap := s.heap.modify parent (Payload.insert s.lastkey newobj) }

/-- A container that begins. -/
def push (s : Callback) (newobj : Payload) : Callback :=
  { s with heap := s.heap ++ [newobj], mystack := s.heap.length :: s.mystack }

/-- `cb`, the iterator taken before anything is pushed. -/
def cb (s : Callback) (e : Event) : Callback :=
  let i := s.mystack.head?
  let newobj := s.heap.length
  let scalar (v : Scalar) := { s with heap := s.heap ++ [Payload.scalar v] }.place i newobj
  match e with
  | .arrayBegin => (s.push (.array [])).place i newobj
  | .objectBegin => (s.push (.dict [])).place i newobj
  | .arrayEnd | .objectEnd => { s with mystack := s.mystack.tail }
  | .key k => { s with lastkey := cString k }
  | .string str => scalar (.string (cString str))
  | .integer n => scalar (.integer (BitVec.ofInt 32 (scanInteger n)))
  | .float d => scalar (.float (Binary32.ofDecimal d))
  | .true => scalar (.boolean true)
  | .false => scalar (.boolean false)
  | .null => scalar .null

end Callback

end Callback

section Memory

/-! ## Documents in memory -/

mutual

/-- The document at an address, all of it between two addresses. -/
def Document.At (heap : List Payload) (lo hi : Nat) : Document → Nat → Prop
  | .array xs, a =>
    (lo ≤ a ∧ a < hi) ∧ ∃ as, heap[a]? = some (.array as) ∧ ElemsAt heap lo hi xs as
  | .dict es, a =>
    (lo ≤ a ∧ a < hi) ∧ ∃ as, heap[a]? = some (.dict as) ∧ EntriesAt heap lo hi es as
  | .integer n, a => (lo ≤ a ∧ a < hi) ∧ heap[a]? = some (.scalar (.integer n))
  | .float f, a => (lo ≤ a ∧ a < hi) ∧ heap[a]? = some (.scalar (.float f))
  | .null, a => (lo ≤ a ∧ a < hi) ∧ heap[a]? = some (.scalar .null)
  | .boolean b, a => (lo ≤ a ∧ a < hi) ∧ heap[a]? = some (.scalar (.boolean b))
  | .string s, a => (lo ≤ a ∧ a < hi) ∧ heap[a]? = some (.scalar (.string s))

def ElemsAt (heap : List Payload) (lo hi : Nat) : List Document → List Nat → Prop
  | [], [] => True
  | x :: xs, a :: as => x.At heap lo hi a ∧ ElemsAt heap lo hi xs as
  | _, _ => False

def EntriesAt (heap : List Payload) (lo hi : Nat) :
    List (List Char × Document) → List (List Char × Nat) → Prop
  | [], [] => True
  | (k, x) :: es, (k', a) :: as => k = k' ∧ x.At heap lo hi a ∧ EntriesAt heap lo hi es as
  | _, _ => False

end

/-- The object is the document. -/
def Callback.Is (s : Callback) (v : Document) : Prop :=
  ∃ a, s.object = some a ∧ v.At s.heap 0 s.heap.length a

variable {heap heap' : List Payload} {lo lo' hi hi' : Nat}

theorem elemsAt_append {xs ys : List Document} {as bs : List Nat}
    (hxs : ElemsAt heap lo hi xs as) (hys : ElemsAt heap lo hi ys bs) :
    ElemsAt heap lo hi (xs ++ ys) (as ++ bs) := by
  induction xs generalizing as with
  | nil =>
    cases as with
    | nil => exact hys
    | cons a as => exact hxs.elim
  | cons x xs ih =>
    cases as with
    | nil => exact hxs.elim
    | cons a as => exact ⟨hxs.1, ih hxs.2⟩

theorem entriesAt_append {es fs : List (List Char × Document)} {as bs : List (List Char × Nat)}
    (hes : EntriesAt heap lo hi es as) (hfs : EntriesAt heap lo hi fs bs) :
    EntriesAt heap lo hi (es ++ fs) (as ++ bs) := by
  induction es generalizing as with
  | nil =>
    cases as with
    | nil => exact hfs
    | cons a as => exact hes.elim
  | cons e es ih =>
    cases as with
    | nil => exact hes.elim
    | cons a as => exact ⟨hes.1, hes.2.1, ih hes.2.2⟩

theorem EntriesAt.keys {es : List (List Char × Document)} {as : List (List Char × Nat)}
    (h : EntriesAt heap lo hi es as) : as.map Prod.fst = es.map Prod.fst := by
  induction es generalizing as with
  | nil =>
    cases as with
    | nil => rfl
    | cons a as => exact h.elim
  | cons e es ih =>
    cases as with
    | nil => exact h.elim
    | cons a as => rw [List.map_cons, List.map_cons, ih h.2.2, ← h.1]

theorem ElemsAt.imp {xs : List Document} {as : List Nat} (h : ElemsAt heap lo hi xs as)
    (hx : ∀ x ∈ xs, ∀ a, x.At heap lo hi a → x.At heap' lo' hi' a) :
    ElemsAt heap' lo' hi' xs as := by
  induction xs generalizing as with
  | nil =>
    cases as with
    | nil => trivial
    | cons a as => exact h.elim
  | cons x xs ih =>
    cases as with
    | nil => exact h.elim
    | cons a as =>
      exact ⟨hx x List.mem_cons_self a h.1,
        ih h.2 fun y hy => hx y (List.mem_cons_of_mem x hy)⟩

theorem EntriesAt.imp {es : List (List Char × Document)} {as : List (List Char × Nat)}
    (h : EntriesAt heap lo hi es as)
    (hx : ∀ e ∈ es, ∀ a, e.2.At heap lo hi a → e.2.At heap' lo' hi' a) :
    EntriesAt heap' lo' hi' es as := by
  induction es generalizing as with
  | nil =>
    cases as with
    | nil => trivial
    | cons a as => exact h.elim
  | cons e es ih =>
    cases as with
    | nil => exact h.elim
    | cons a as =>
      exact ⟨h.1, hx e List.mem_cons_self a.2 h.2.1,
        ih h.2.2 fun f hf => hx f (List.mem_cons_of_mem e hf)⟩

/-- A document stays when the memory between its addresses does. -/
theorem Document.At.stays {v : Document} {a : Nat} (h : v.At heap lo hi a)
    (hheap : ∀ a, lo ≤ a → a < hi → heap'[a]? = heap[a]?) (hlo : lo' ≤ lo) (hhi : hi ≤ hi') :
    v.At heap' lo' hi' a := by
  have hin : ∀ {a}, lo ≤ a ∧ a < hi → lo' ≤ a ∧ a < hi' := fun ⟨hle, hlt⟩ =>
    ⟨Nat.le_trans hlo hle, Nat.lt_of_lt_of_le hlt hhi⟩
  have hscalar : ∀ {a} {p : Payload}, (lo ≤ a ∧ a < hi) ∧ heap[a]? = some p →
      (lo' ≤ a ∧ a < hi') ∧ heap'[a]? = some p := fun ⟨ha, hp⟩ =>
    ⟨hin ha, (hheap _ ha.1 ha.2).trans hp⟩
  induction v using Document.induct generalizing a with
  | array xs ih =>
    obtain ⟨ha, as, hp, has⟩ := h
    exact ⟨hin ha, as, (hheap a ha.1 ha.2).trans hp, has.imp fun x hx _ h => ih x hx h⟩
  | dict es ih =>
    obtain ⟨ha, as, hp, has⟩ := h
    exact ⟨hin ha, as, (hheap a ha.1 ha.2).trans hp, has.imp fun e he _ h => ih e he h⟩
  | integer n => exact hscalar h
  | float f => exact hscalar h
  | null => exact hscalar h
  | boolean b => exact hscalar h
  | string s => exact hscalar h

theorem ElemsAt.unique {xs ys : List Document} {as : List Nat} (hxs : ElemsAt heap lo hi xs as)
    (hys : ElemsAt heap lo' hi' ys as)
    (h : ∀ x ∈ xs, ∀ a y, x.At heap lo hi a → y.At heap lo' hi' a → x = y) : xs = ys := by
  induction xs generalizing ys as with
  | nil =>
    cases as with
    | nil =>
      cases ys with
      | nil => rfl
      | cons y ys => exact hys.elim
    | cons a as => exact hxs.elim
  | cons x xs ih =>
    cases as with
    | nil => exact hxs.elim
    | cons a as =>
      cases ys with
      | nil => exact hys.elim
      | cons y ys =>
        rw [h x List.mem_cons_self a y hxs.1 hys.1,
          ih hxs.2 hys.2 fun z hz => h z (List.mem_cons_of_mem x hz)]

theorem EntriesAt.unique {es fs : List (List Char × Document)} {as : List (List Char × Nat)}
    (hes : EntriesAt heap lo hi es as) (hfs : EntriesAt heap lo' hi' fs as)
    (h : ∀ e ∈ es, ∀ a y, e.2.At heap lo hi a → y.At heap lo' hi' a → e.2 = y) : es = fs := by
  induction es generalizing fs as with
  | nil =>
    cases as with
    | nil =>
      cases fs with
      | nil => rfl
      | cons f fs => exact hfs.elim
    | cons a as => exact hes.elim
  | cons e es ih =>
    cases as with
    | nil => exact hes.elim
    | cons a as =>
      cases fs with
      | nil => exact hfs.elim
      | cons f fs =>
        have hkey : e.1 = f.1 := hes.1.trans hfs.1.symm
        have hvalue := h e List.mem_cons_self a.2 f.2 hes.2.1 hfs.2.1
        rw [Prod.ext hkey hvalue,
          ih hes.2.2 hfs.2.2 fun z hz => h z (List.mem_cons_of_mem e hz)]

/-- At one address is one document. -/
theorem Document.At.unique {v w : Document} {a : Nat} (hv : v.At heap lo hi a)
    (hw : w.At heap lo' hi' a) : v = w := by
  induction v using Document.induct generalizing w a with
  | array xs ih =>
    obtain ⟨-, as, hp, has⟩ := hv
    cases w with
    | array ys =>
      obtain ⟨-, bs, hq, hbs⟩ := hw
      cases hp.symm.trans hq
      rw [has.unique hbs fun x hx _ _ h h' => ih x hx h h']
    | dict fs => obtain ⟨-, bs, hq, -⟩ := hw; cases hp.symm.trans hq
    | _ => cases hp.symm.trans hw.2
  | dict es ih =>
    obtain ⟨-, as, hp, has⟩ := hv
    cases w with
    | dict fs =>
      obtain ⟨-, bs, hq, hbs⟩ := hw
      cases hp.symm.trans hq
      rw [has.unique hbs fun e he _ _ h h' => ih e he h h']
    | array ys => obtain ⟨-, bs, hq, -⟩ := hw; cases hp.symm.trans hq
    | _ => cases hp.symm.trans hw.2
  | _ =>
    cases w with
    | array ys => obtain ⟨-, bs, hq, -⟩ := hw; cases hv.2.symm.trans hq
    | dict fs => obtain ⟨-, bs, hq, -⟩ := hw; cases hv.2.symm.trans hq
    | _ => cases hv.2.symm.trans hw.2; try rfl

theorem Callback.Is.unique {s : Callback} {v w : Document} (hv : s.Is v) (hw : s.Is w) :
    v = w := by
  obtain ⟨a, ha, hv⟩ := hv
  obtain ⟨b, hb, hw⟩ := hw
  cases ha.symm.trans hb
  exact hv.unique hw

end Memory

section Containers

/-! ## Containers that are open -/

/-- What an open container points to. -/
def Container.At (heap : List Payload) (lo hi : Nat) : Container → Payload → Prop
  | .array xs, .array as => ElemsAt heap lo hi xs as
  | .dict es, .dict as => EntriesAt heap lo hi es as
  | _, _ => False

variable {heap heap' : List Payload} {lo lo' hi hi' : Nat}

theorem Container.At.stays {c : Container} {p : Payload} (h : c.At heap lo hi p)
    (hheap : ∀ a, lo ≤ a → a < hi → heap'[a]? = heap[a]?) (hlo : lo' ≤ lo) (hhi : hi ≤ hi') :
    c.At heap' lo' hi' p := by
  cases c with
  | array xs =>
    cases p with
    | array as => exact h.imp fun _ _ _ h => h.stays hheap hlo hhi
    | _ => exact h.elim
  | dict es =>
    cases p with
    | dict as => exact h.imp fun _ _ _ h => h.stays hheap hlo hhi
    | _ => exact h.elim

/-- A value comes into a container when its address does. -/
theorem Container.At.insert {c : Container} {p : Payload} {x : Document} {a : Nat}
    (h : c.At heap lo hi p) (hx : x.At heap lo hi a) (key : List Char) :
    (c.add key x).At heap lo hi (p.insert key a) := by
  cases c with
  | array xs =>
    cases p with
    | array as => exact elemsAt_append h ⟨hx, trivial⟩
    | _ => exact h.elim
  | dict es =>
    cases p with
    | dict as =>
      have hkeys : as.map Prod.fst = es.map Prod.fst := EntriesAt.keys h
      simp only [Container.add, Payload.insert, hkeys]
      split
      · exact h
      · exact entriesAt_append h ⟨rfl, hx, trivial⟩
    | _ => exact h.elim

theorem Container.At.close {c : Container} {p : Payload} {a : Nat} (h : c.At heap lo hi p)
    (ha : heap[a]? = some p) (hin : lo ≤ a ∧ a < hi) : c.close.At heap lo hi a := by
  cases c with
  | array xs =>
    cases p with
    | array as => exact ⟨hin, as, ha, h⟩
    | _ => exact h.elim
  | dict es =>
    cases p with
    | dict as => exact ⟨hin, as, ha, h⟩
    | _ => exact h.elim

/-- The open containers, the innermost first, stand at the addresses on the stack.  What has come
into one stands behind it and before the next; a container in it that is still open, `child`, has
been put into it already.  The object is the outermost. -/
def Stands (heap : List Payload) (object : Option Nat) (root : Option Document) :
    Option (List Char × Nat) → Nat → List (List Char × Container) → List Nat → Prop
  | none, hi, [], [] =>
    root.elim (object = none) fun v => ∃ a, object = some a ∧ v.At heap 0 hi a
  | some child, _, [], [] => object = some child.2
  | child, hi, (k, c) :: fs, a :: as =>
    a < hi ∧
      (∃ p, c.At heap (a + 1) hi p ∧
        heap[a]? = some (child.elim p fun q => p.insert q.1 q.2)) ∧
      Stands heap object root (some (k, a)) a fs as
  | _, _, _, _ => False

/-- The callback has built what the builder has. -/
structure Builds (s : Callback) (b : Builder) : Prop where
  lastkey : s.lastkey = b.lastkey
  stands : Stands s.heap s.object b.root none s.heap.length b.stack s.mystack

/-- What is open outside of a container is not changed in it. -/
theorem Stands.stays {object : Option Nat} {root root' : Option Document}
    {child : List Char × Nat} {fs : List (List Char × Container)} {as : List Nat}
    (h : Stands heap object root (some child) hi fs as)
    (hheap : ∀ a, a < hi → heap'[a]? = heap[a]?) :
    Stands heap' object root' (some child) hi fs as := by
  induction fs generalizing child hi as with
  | nil =>
    cases as with
    | nil => exact h
    | cons a as => exact h.elim
  | cons f fs ih =>
    cases as with
    | nil => exact h.elim
    | cons a as =>
      obtain ⟨hlt, ⟨p, hp, ha⟩, hrest⟩ := h
      refine ⟨hlt, ⟨p, hp.stays (fun b _ hb => hheap b hb) (Nat.le_refl _) (Nat.le_refl _),
        (hheap a hlt).trans ha⟩, ih hrest fun b hb => hheap b (Nat.lt_trans hb hlt)⟩

/-- A new object stands behind all others. -/
theorem getElem?_new {x : Payload} {a : Nat} (ha : a < heap.length) :
    (heap ++ [x])[a]? = heap[a]? :=
  List.getElem?_append_left ha

/-- Only the container that a new object goes into is changed. -/
theorem getElem?_placed {x : Payload} {f : Payload → Payload} {parent a : Nat}
    (ha : a < heap.length) (hne : a ≠ parent) :
    ((heap ++ [x]).modify parent f)[a]? = heap[a]? := by
  rw [List.getElem?_modify, getElem?_new ha]
  simp [hne.symm]

theorem getElem?_placed_self {x p : Payload} {f : Payload → Payload} {parent : Nat}
    (hlt : parent < heap.length) (hp : heap[parent]? = some p) :
    ((heap ++ [x]).modify parent f)[parent]? = some (f p) := by
  rw [List.getElem?_modify, getElem?_new hlt, hp]
  simp

theorem getElem?_placed_new {x : Payload} {f : Payload → Payload} {parent : Nat}
    (hlt : parent < heap.length) :
    ((heap ++ [x]).modify parent f)[heap.length]? = some x := by
  rw [List.getElem?_modify]
  simp [Nat.ne_of_lt hlt]

end Containers

section Simulation

/-! ## The callback and the builder -/

/-- The document of an object that is no container. -/
def Scalar.document : Scalar → Document
  | .integer n => .integer n
  | .float f => .float f
  | .null => .null
  | .boolean b => .boolean b
  | .string s => .string s

theorem Scalar.at_document {heap : List Payload} {lo hi a : Nat} {v : Scalar}
    (hin : lo ≤ a ∧ a < hi) (ha : heap[a]? = some (.scalar v)) : v.document.At heap lo hi a := by
  cases v <;> exact ⟨hin, ha⟩

theorem builds_init : Builds .init .init := ⟨rfl, rfl⟩

/-- A value that is no container comes into the container that is open. -/
theorem Builds.scalar {s : Callback} {b : Builder} (h : Builds s b) (v : Scalar) :
    Builds (Callback.place { s with heap := s.heap ++ [Payload.scalar v] } s.mystack.head?
      s.heap.length) (b.attach b.lastkey v.document) := by
  obtain ⟨heap, lastkey, mystack, object⟩ := s
  obtain ⟨key, stack, root⟩ := b
  obtain ⟨hkey, hstands⟩ := h
  cases stack with
  | nil =>
    cases mystack with
    | cons a as => exact hstands.elim
    | nil =>
      have hnew : (heap ++ [Payload.scalar v])[heap.length]? = some (.scalar v) := by simp
      exact ⟨hkey, heap.length, rfl, Scalar.at_document ⟨Nat.zero_le _, by simp [Callback.place]⟩ hnew⟩
  | cons f fs =>
    cases mystack with
    | nil => exact hstands.elim
    | cons a as =>
      obtain ⟨hlt, ⟨p, hp, ha⟩, hrest⟩ := hstands
      obtain rfl : lastkey = key := hkey
      have hlength : ((heap ++ [Payload.scalar v]).modify a
          (Payload.insert lastkey heap.length)).length = heap.length + 1 := by simp
      refine ⟨rfl, ?_⟩
      simp only [Callback.place, List.head?_cons, Builder.attach, hlength]
      refine ⟨Nat.lt_succ_of_lt hlt, ⟨p.insert lastkey heap.length, ?_,
        getElem?_placed_self hlt ha⟩, hrest.stays fun b hb => ?_⟩
      · have hc : f.2.At ((heap ++ [Payload.scalar v]).modify a
            (Payload.insert lastkey heap.length)) (a + 1) (heap.length + 1) p :=
          hp.stays (fun b hab hb => getElem?_placed hb (Nat.ne_of_gt hab)) (Nat.le_refl _)
            (Nat.le_succ _)
        exact hc.insert (Scalar.at_document ⟨hlt, Nat.lt_succ_self _⟩ (getElem?_placed_new hlt))
          lastkey
      · exact getElem?_placed (Nat.lt_trans hb hlt) (Nat.ne_of_lt hb)

/-- A container begins, in the one that is open. -/
theorem Builds.begin {s : Callback} {b : Builder} (h : Builds s b) {c : Container} {p : Payload}
    (hc : ∀ heap lo hi, c.At heap lo hi p) :
    Builds ((s.push p).place s.mystack.head? s.heap.length)
      { b with stack := (b.lastkey, c) :: b.stack } := by
  obtain ⟨heap, lastkey, mystack, object⟩ := s
  obtain ⟨key, stack, root⟩ := b
  obtain ⟨hkey, hstands⟩ := h
  obtain rfl : lastkey = key := hkey
  cases stack with
  | nil =>
    cases mystack with
    | cons a as => exact hstands.elim
    | nil =>
      refine ⟨rfl, ?_⟩
      simp only [Callback.place, Callback.push, List.head?_nil, List.length_append,
        List.length_singleton]
      exact ⟨Nat.lt_succ_self _, ⟨p, hc _ _ _, by simp⟩, rfl⟩
  | cons f fs =>
    cases mystack with
    | nil => exact hstands.elim
    | cons a as =>
      obtain ⟨hlt, ⟨q, hq, ha⟩, hrest⟩ := hstands
      have hlength : ((heap ++ [p]).modify a
          (Payload.insert lastkey heap.length)).length = heap.length + 1 := by simp
      refine ⟨rfl, ?_⟩
      simp only [Callback.place, Callback.push, List.head?_cons, hlength]
      refine ⟨Nat.lt_succ_self _, ⟨p, hc _ _ _, getElem?_placed_new hlt⟩, hlt,
        ⟨q, hq.stays ?_ (Nat.le_refl _) (Nat.le_refl _), getElem?_placed_self hlt ha⟩,
        hrest.stays fun b hb => ?_⟩
      · exact fun b hab hb => getElem?_placed hb (Nat.ne_of_gt hab)
      · exact getElem?_placed (Nat.lt_trans hb hlt) (Nat.ne_of_lt hb)

/-- The innermost container ends.  It is in its parent already, where the builder puts it now. -/
theorem Builds.finish {s : Callback} {b : Builder} (h : Builds s b) :
    Builds { s with mystack := s.mystack.tail } (b.cb .arrayEnd) := by
  obtain ⟨heap, lastkey, mystack, object⟩ := s
  obtain ⟨key, stack, root⟩ := b
  obtain ⟨hkey, hstands⟩ := h
  rcases stack with _ | ⟨⟨k, c⟩, _ | ⟨⟨k', c'⟩, fs⟩⟩
  · rcases mystack with _ | ⟨a, as⟩
    · exact ⟨hkey, hstands⟩
    · exact hstands.elim
  · rcases mystack with _ | ⟨a, _ | ⟨a', as⟩⟩
    · exact hstands.elim
    · obtain ⟨hlt, ⟨p, hp, ha⟩, hobject⟩ := hstands
      have hc := hp.stays (fun _ _ _ => rfl) (Nat.zero_le _) (Nat.le_refl _)
      exact ⟨hkey, a, hobject, hc.close ha ⟨Nat.zero_le _, hlt⟩⟩
    · exact hstands.2.2.elim
  · rcases mystack with _ | ⟨a, _ | ⟨a', as⟩⟩
    · exact hstands.elim
    · exact hstands.2.2.elim
    · obtain ⟨hlt, ⟨p, hp, ha⟩, hlt', ⟨p', hp', ha'⟩, hrest⟩ := hstands
      have hc := hp.stays (fun _ _ _ => rfl) (Nat.succ_le_succ (Nat.le_of_lt hlt'))
        (Nat.le_refl _)
      have hc' := hp'.stays (fun _ _ _ => rfl) (Nat.le_refl _) (Nat.le_of_lt hlt)
      exact ⟨hkey, Nat.lt_trans hlt' hlt,
        ⟨p'.insert k a, hc'.insert (hc.close ha ⟨hlt', hlt⟩) k, ha'⟩, hrest⟩

/-- Whatever the callback is told, it builds what the builder does. -/
theorem Builds.cb {s : Callback} {b : Builder} (h : Builds s b) (e : Event) :
    Builds (s.cb e) (b.cb e) := by
  cases e with
  | arrayBegin => exact h.begin fun _ _ _ => trivial
  | arrayEnd => exact h.finish
  | objectBegin => exact h.begin fun _ _ _ => trivial
  | objectEnd => exact h.finish
  | key k => exact ⟨rfl, h.stands⟩
  | string str => exact h.scalar (.string (cString str))
  | integer n => exact h.scalar (.integer (BitVec.ofInt 32 (scanInteger n)))
  | float d => exact h.scalar (.float (Binary32.ofDecimal d))
  | true => exact h.scalar (.boolean Bool.true)
  | false => exact h.scalar (.boolean Bool.false)
  | null => exact h.scalar .null

theorem Builds.run {s : Callback} {b : Builder} (h : Builds s b) (es : List Event) :
    Builds (es.foldl Callback.cb s) (es.foldl Builder.cb b) := by
  induction es generalizing s b with
  | nil => exact h
  | cons e es ih => exact ih (h.cb e)

/-- With nothing open, the object is the document that the builder has built. -/
theorem Builds.is {s : Callback} {b : Builder} (h : Builds s b) (hstack : b.stack = [])
    {v : Document} (hroot : b.root = some v) : s.mystack = [] ∧ s.Is v := by
  have hstands := h.stands
  rw [hstack, hroot] at hstands
  cases hmystack : s.mystack with
  | nil =>
    rw [hmystack] at hstands
    exact ⟨rfl, hstands⟩
  | cons a as =>
    rw [hmystack] at hstands
    exact hstands.elim

end Simulation

end Nox.Json

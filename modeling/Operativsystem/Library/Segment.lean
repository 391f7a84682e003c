import Mathlib.Data.List.Basic
import Mathlib.Data.List.Induction
import Mathlib.Data.List.Nodup

/-! # Doubly linked segments over a node heap

A heap maps addresses to nodes; `none` is an address that is not allocated. A segment is the
part of a doubly linked chain between two outside neighbours: every node points forward to its
successor and back to its predecessor, the last one points at `next` and the first one back at
`prev`. Segments concatenate, survive writes to other addresses, and can be re-targeted at
either end, which is all that insertion and removal need.
-/

namespace Operativsystem.Segment

abbrev Addr := ℕ

/-- A nullable pointer; `none` is NULL. -/
abbrev Ptr := Option Addr

structure Node (α : Type*) where
  data : α
  next : Ptr
  previous : Ptr
deriving DecidableEq, Repr

abbrev Heap (α : Type*) := Addr → Option (Node α)

variable {α : Type*}

/-- Store a node, or release its address with `none`. -/
def Heap.set (heap : Heap α) (a : Addr) (node : Option (Node α)) : Heap α :=
  fun b => if b = a then node else heap b

@[simp] theorem Heap.set_same (heap : Heap α) (a : Addr) (node : Option (Node α)) :
    heap.set a node a = node := if_pos rfl

theorem Heap.set_other (heap : Heap α) {a b : Addr} (node : Option (Node α)) (h : b ≠ a) :
    heap.set a node b = heap b := if_neg h

@[simp] theorem Heap.set_set (heap : Heap α) (a : Addr) (old new : Option (Node α)) :
    (heap.set a old).set a new = heap.set a new := by
  funext b
  simp only [Heap.set]
  split <;> rfl

theorem Heap.live_of_set_other {heap : Heap α} {a b : Addr} {node : Option (Node α)} (other : b ≠ a)
    (live : heap.set a node b ≠ none) : heap b ≠ none := heap.set_other node other ▸ live

/-- Overwriting an allocated node allocates nothing. -/
theorem Heap.live_of_set {heap : Heap α} {a b : Addr} {old new : Node α} (read : heap a = some old)
    (live : heap.set a (some new) b ≠ none) : heap b ≠ none := by
  by_cases same : b = a
  · simp [same, read]
  · rwa [heap.set_other _ same] at live

/-- The pointer that enters a segment from the left. -/
def first (cells : List (Addr × α)) (next : Ptr) : Ptr :=
  match cells with
  | [] => next
  | (a, _) :: _ => some a

/-- The pointer that enters a segment from the right. -/
def last (prev : Ptr) (cells : List (Addr × α)) : Ptr :=
  match cells with
  | [] => prev
  | (a, _) :: rest => last (some a) rest

/-- The nodes of `cells` are linked both ways, between the neighbours `prev` and `next`. -/
def Seg (heap : Heap α) : Ptr → List (Addr × α) → Ptr → Prop
  | _, [], _ => True
  | prev, (a, d) :: rest, next =>
      heap a = some ⟨d, first rest next, prev⟩ ∧ Seg heap (some a) rest next

@[simp] theorem first_nil (next : Ptr) : first ([] : List (Addr × α)) next = next := rfl

@[simp] theorem first_cons (a : Addr) (d : α) (rest : List (Addr × α)) (next : Ptr) :
    first ((a, d) :: rest) next = some a := rfl

@[simp] theorem last_nil (prev : Ptr) : last prev ([] : List (Addr × α)) = prev := rfl

@[simp] theorem last_cons (prev : Ptr) (a : Addr) (d : α) (rest : List (Addr × α)) :
    last prev ((a, d) :: rest) = last (some a) rest := rfl

@[simp] theorem first_append (xs ys : List (Addr × α)) (next : Ptr) :
    first (xs ++ ys) next = first xs (first ys next) := by
  cases xs <;> rfl

@[simp] theorem last_append (prev : Ptr) (xs ys : List (Addr × α)) :
    last prev (xs ++ ys) = last (last prev xs) ys := by
  induction xs generalizing prev with
  | nil => rfl
  | cons cell rest ih => exact ih (some cell.1)

/-- The distinctness facts around one cell. -/
theorem distinct_split {xs ys : List (Addr × α)} {a : Addr} {d : α}
    (distinct : ((xs ++ (a, d) :: ys).map Prod.fst).Nodup) :
    a ∉ xs.map Prod.fst ∧ a ∉ ys.map Prod.fst ∧ ((xs ++ ys).map Prod.fst).Nodup := by
  simp only [List.map_append, List.map_cons, List.nodup_append, List.nodup_cons, List.mem_cons,
    ne_eq, forall_eq_or_imp] at distinct ⊢
  refine ⟨fun inside => (distinct.2.2 a inside).1 rfl, distinct.2.1.1, distinct.1, distinct.2.1.2, ?_⟩
  exact fun b inside => (distinct.2.2 b inside).2

theorem first_ne_none {cells : List (Addr × α)} (nonempty : cells ≠ []) (next : Ptr) :
    first cells next ≠ none := by
  cases cells with
  | nil => exact (nonempty rfl).elim
  | cons => simp [first]

theorem first_none_iff (cells : List (Addr × α)) : first cells none = none ↔ cells = [] := by
  cases cells <;> simp [first]

theorem last_none_iff (cells : List (Addr × α)) : last none cells = none ↔ cells = [] := by
  cases cells using List.reverseRecOn with
  | nil => simp
  | append_singleton rest cell =>
    obtain ⟨a, d⟩ := cell
    simp

namespace Seg

@[simp] theorem nil (heap : Heap α) (prev next : Ptr) : Seg heap prev [] next := trivial

theorem append_iff {heap : Heap α} {prev next : Ptr} {xs ys : List (Addr × α)} :
    Seg heap prev (xs ++ ys) next ↔
      Seg heap prev xs (first ys next) ∧ Seg heap (last prev xs) ys next := by
  induction xs generalizing prev with
  | nil => simp
  | cons cell rest ih =>
    obtain ⟨a, d⟩ := cell
    simp only [List.cons_append, Seg, first_append, last_cons, ih, and_assoc]

theorem single_iff {heap : Heap α} {prev next : Ptr} {a : Addr} {d : α} :
    Seg heap prev [(a, d)] next ↔ heap a = some ⟨d, next, prev⟩ := by
  simp [Seg]

/-- A segment depends only on its own nodes. -/
theorem frame {heap heap' : Heap α} {prev next : Ptr} {cells : List (Addr × α)}
    (seg : Seg heap prev cells next) (agree : ∀ a ∈ cells.map Prod.fst, heap' a = heap a) :
    Seg heap' prev cells next := by
  induction cells generalizing prev with
  | nil => trivial
  | cons cell rest ih =>
    obtain ⟨a, d⟩ := cell
    refine ⟨(agree a (List.mem_cons_self ..)).trans seg.1, ih seg.2 ?_⟩
    exact fun b member => agree b (List.mem_cons_of_mem _ member)

theorem set_frame {heap : Heap α} {prev next : Ptr} {cells : List (Addr × α)} {a : Addr}
    (seg : Seg heap prev cells next) (outside : a ∉ cells.map Prod.fst) (node : Option (Node α)) :
    Seg (heap.set a node) prev cells next :=
  seg.frame fun _ member => heap.set_other node (fun same => outside (same ▸ member))

/-- Every node of a segment is allocated. -/
theorem live {heap : Heap α} {prev next : Ptr} {cells : List (Addr × α)}
    (seg : Seg heap prev cells next) {a : Addr} (member : a ∈ cells.map Prod.fst) :
    heap a ≠ none := by
  induction cells generalizing prev with
  | nil => simp at member
  | cons cell rest ih =>
    obtain ⟨b, d⟩ := cell
    rcases List.mem_cons.mp member with rfl | inside
    · simp [seg.1]
    · exact ih seg.2 inside

/-- Point the last node somewhere else. -/
theorem set_next {heap : Heap α} {prev next : Ptr} {cells : List (Addr × α)} {a : Addr} {d : α}
    (seg : Seg heap prev (cells ++ [(a, d)]) next) (fresh : a ∉ cells.map Prod.fst) (target : Ptr) :
    Seg (heap.set a (some ⟨d, target, last prev cells⟩)) prev (cells ++ [(a, d)]) target := by
  rw [append_iff] at seg ⊢
  exact ⟨seg.1.set_frame fresh _, single_iff.mpr (heap.set_same a _)⟩

/-- Point the first node back somewhere else. -/
theorem set_previous {heap : Heap α} {prev next : Ptr} {cells : List (Addr × α)} {a : Addr} {d : α}
    (seg : Seg heap prev ((a, d) :: cells) next) (fresh : a ∉ cells.map Prod.fst) (target : Ptr) :
    Seg (heap.set a (some ⟨d, first cells next, target⟩)) target ((a, d) :: cells) next :=
  ⟨heap.set_same a _, seg.2.set_frame fresh _⟩

/-- Link the last node of one segment and the first node of another to each other. -/
theorem join {heap : Heap α} {prev next gap gap' : Ptr} {front rest : List (Addr × α)} {b c : Addr}
    {e f : α} (left : Seg heap prev (front ++ [(b, e)]) gap)
    (right : Seg heap gap' ((c, f) :: rest) next)
    (distinct : ((front ++ (b, e) :: (c, f) :: rest).map Prod.fst).Nodup) :
    Seg ((heap.set b (some ⟨e, some c, last prev front⟩)).set c (some ⟨f, first rest next, some b⟩))
      prev (front ++ (b, e) :: (c, f) :: rest) next := by
  obtain ⟨outsideFront, outsideRest, remaining⟩ := distinct_split distinct
  obtain ⟨freshFront, freshRest, -⟩ := distinct_split remaining
  have apart : c ≠ b := fun same => outsideRest (by simp [same])
  have leftSeg := left.set_next outsideFront (some c)
  have rightSeg := (right.set_frame outsideRest (some ⟨e, some c, last prev front⟩)).set_previous
    freshRest (some b)
  rw [show front ++ (b, e) :: (c, f) :: rest = (front ++ [(b, e)]) ++ (c, f) :: rest by simp,
    append_iff]
  refine ⟨leftSeg.set_frame ?_ _, by simpa using rightSeg⟩
  simp [freshFront, apart]

end Seg

/-- Following `next` from `p` meets exactly `cells` and then NULL. -/
def NextChain (heap : Heap α) : Ptr → List (Addr × α) → Prop
  | p, [] => p = none
  | p, (a, d) :: rest => p = some a ∧ ∃ node, heap a = some node ∧ node.data = d ∧
      NextChain heap node.next rest

/-- Following `previous` from `p` meets exactly `cells` and then NULL. -/
def PreviousChain (heap : Heap α) : Ptr → List (Addr × α) → Prop
  | p, [] => p = none
  | p, (a, d) :: rest => p = some a ∧ ∃ node, heap a = some node ∧ node.data = d ∧
      PreviousChain heap node.previous rest

theorem Seg.nextChain {heap : Heap α} {prev : Ptr} {cells : List (Addr × α)}
    (seg : Seg heap prev cells none) : NextChain heap (first cells none) cells := by
  induction cells generalizing prev with
  | nil => rfl
  | cons cell rest ih => exact ⟨rfl, _, seg.1, rfl, ih seg.2⟩

theorem Seg.previousChain {heap : Heap α} {next : Ptr} {cells : List (Addr × α)}
    (seg : Seg heap none cells next) : PreviousChain heap (last none cells) cells.reverse := by
  induction cells using List.reverseRecOn generalizing next with
  | nil => rfl
  | append_singleton rest cell ih =>
    obtain ⟨a, d⟩ := cell
    rw [append_iff] at seg
    rw [List.reverse_append, last_append]
    exact ⟨rfl, _, single_iff.mp seg.2, rfl, ih seg.1⟩

section Chains

variable {heap : Heap α} {p : Ptr} {a : Addr} {d : α} {xs ys : List (Addr × α)}

theorem NextChain.first_eq {cells : List (Addr × α)} (chain : NextChain heap p cells) : p = first cells none := by
  cases cells with
  | nil => exact chain
  | cons cell rest => exact chain.1

theorem PreviousChain.last_eq {cells : List (Addr × α)} (chain : PreviousChain heap p cells.reverse) :
    p = last none cells := by
  rcases cells.eq_nil_or_concat' with rfl | ⟨front, ⟨b, e⟩, rfl⟩
  · exact chain
  · rw [List.reverse_append] at chain
    rw [last_append]
    exact chain.1

/-- The node that a chain meets at an address, and the rest of the chain. -/
theorem NextChain.node (chain : NextChain heap p (xs ++ (a, d) :: ys)) :
    ∃ node, heap a = some node ∧ node.data = d ∧ NextChain heap node.next ys := by
  induction xs generalizing p with
  | nil => exact chain.2
  | cons cell rest ih =>
    obtain ⟨-, node, -, -, chain⟩ := chain
    exact ih chain

theorem PreviousChain.node (chain : PreviousChain heap p (ys ++ (a, d) :: xs)) :
    ∃ node, heap a = some node ∧ node.data = d ∧ PreviousChain heap node.previous xs := by
  induction ys generalizing p with
  | nil => exact chain.2
  | cons cell rest ih =>
    obtain ⟨-, node, -, -, chain⟩ := chain
    exact ih chain

/-- A segment is given node by node. -/
theorem Seg.of_nodes {prev next : Ptr} {cells : List (Addr × α)}
    (nodes : ∀ xs a d ys, cells = xs ++ (a, d) :: ys →
      heap a = some ⟨d, first ys next, last prev xs⟩) : Seg heap prev cells next := by
  induction cells generalizing prev with
  | nil => trivial
  | cons cell rest ih =>
    obtain ⟨a, d⟩ := cell
    refine ⟨nodes [] a d rest rfl, ih fun xs b e ys split => ?_⟩
    exact nodes ((a, d) :: xs) b e ys (by rw [split]; rfl)

/-- Two chains that mirror each other are a segment. -/
theorem Seg.of_chains {q : Ptr} {cells : List (Addr × α)} (forward : NextChain heap p cells)
    (backward : PreviousChain heap q cells.reverse) : Seg heap none cells none := by
  refine .of_nodes fun xs a d ys split => ?_
  subst split
  obtain ⟨node, read, data, later⟩ := forward.node
  rw [List.reverse_append, List.reverse_cons, List.append_assoc] at backward
  obtain ⟨node', read', -, earlier⟩ := backward.node
  obtain rfl := Option.some.inj (read.symm.trans read')
  rw [read, ← data, ← later.first_eq, ← earlier.last_eq]

/-- What a chain meets is determined. -/
theorem NextChain.unique {cells cells' : List (Addr × α)} (chain : NextChain heap p cells)
    (chain' : NextChain heap p cells') : cells = cells' := by
  induction cells generalizing p cells' with
  | nil =>
    cases cells' with
    | nil => rfl
    | cons cell rest => cases chain.symm.trans chain'.1
  | cons cell rest ih =>
    obtain ⟨a, d⟩ := cell
    obtain ⟨rfl, node, read, rfl, chain⟩ := chain
    cases cells' with
    | nil => cases chain'
    | cons cell' rest' =>
      obtain ⟨b, e⟩ := cell'
      obtain ⟨same, node', read', rfl, chain'⟩ := chain'
      cases same
      cases read.symm.trans read'
      rw [ih chain chain']

/-- A node that is its own successor is not on a chain that ends. -/
theorem NextChain.not_loop {previous : Ptr} (loop : heap a = some ⟨d, some a, previous⟩)
    (cells : List (Addr × α)) : ¬NextChain heap (some a) cells := by
  induction cells with
  | nil => exact fun chain => nomatch chain
  | cons cell rest ih =>
    rintro ⟨same, node, read, -, chain⟩
    cases same
    cases loop.symm.trans read
    exact ih chain

end Chains

end Operativsystem.Segment

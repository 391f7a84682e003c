import Operativsystem.Library.Machine
import Operativsystem.Resources.LinkedList

/-! # The linked list implements a sequence

`Linked` is the representation invariant: distinct nodes, linked both ways, entered from both
sentinels, and no node besides them. Unlinking has one specification for all four of its
branches, and every operation is described on the sequence of cells it represents.
-/

namespace Operativsystem.Resources

open Segment Memory

namespace LList

variable {α : Type}

/-- The list represents `cells`, the addresses and data in the order of `next`. -/
structure Linked (l : LList α) (cells : List (Addr × α)) : Prop where
  distinct : (cells.map Prod.fst).Nodup
  seg : Seg l.heap none cells none
  head : l.headNext = first cells none
  tail : l.tailPrevious = last none cells
  only : ∀ a, l.heap a ≠ none → a ∈ cells.map Prod.fst

theorem linked_empty : Linked (llistEmpty : LList α) [] :=
  ⟨List.nodup_nil, trivial, rfl, rfl, fun _ live => (live rfl).elim⟩

theorem Linked.of_eq {l l' : LList α} {cells : List (Addr × α)} (linked : Linked l cells)
    (heap : l'.heap = l.heap) (head : l'.headNext = l.headNext)
    (tail : l'.tailPrevious = l.tailPrevious) : Linked l' cells :=
  ⟨linked.distinct, heap ▸ linked.seg, head.trans linked.head, tail.trans linked.tail,
    heap ▸ linked.only⟩

theorem Linked.isEmpty_iff {l : LList α} {cells : List (Addr × α)} (linked : Linked l cells) :
    l.llistIsEmpty = true ↔ cells = [] := by
  rw [llistIsEmpty, linked.head, Option.isNone_iff_eq_none, first_none_iff]

/-- An address that is not allocated is not a node of the list. -/
theorem Linked.fresh {l : LList α} {cells : List (Addr × α)} (linked : Linked l cells) {a : Addr}
    (free : l.heap a = none) : a ∉ cells.map Prod.fst :=
  fun member => linked.seg.live member free

theorem Linked.node_eq {l : LList α} {xs ys : List (Addr × α)} {a : Addr} {d : α}
    (linked : Linked l (xs ++ (a, d) :: ys)) :
    l.heap a = some ⟨d, first ys none, last none xs⟩ :=
  (Seg.append_iff.mp linked.seg).2.1

/-- Releasing an unlinked node leaves a well-formed list of the remaining cells. -/
private theorem linked_release {l : LList α} {xs ys : List (Addr × α)} {a : Addr} {d : α}
    {heap : Heap α} {head tail : Ptr} {held : Bool} (linked : Linked l (xs ++ (a, d) :: ys))
    (seg : Seg heap none (xs ++ ys) none) (headEq : head = first (xs ++ ys) none)
    (tailEq : tail = last none (xs ++ ys)) (live : ∀ b, heap b ≠ none → l.heap b ≠ none) :
    Linked ⟨head, tail, heap.set a none, held⟩ (xs ++ ys) := by
  obtain ⟨outsideLeft, outsideRight, distinct⟩ := distinct_split linked.distinct
  refine ⟨distinct, seg.set_frame ?_ _, headEq, tailEq, ?_⟩
  · simp only [List.map_append, List.mem_append, not_or]
    exact ⟨outsideLeft, outsideRight⟩
  · intro b present
    change heap.set a none b ≠ none at present
    by_cases same : b = a
    · exact (present (same ▸ heap.set_same a none)).elim
    · rw [heap.set_other none same] at present
      have member := linked.only b (live b present)
      simp only [List.map_append, List.map_cons, List.mem_append, List.mem_cons] at member ⊢
      tauto

/-- All four branches of the unlinking at once: the node keeps its data, and without it the
list represents the remaining cells. -/
theorem unlink_spec {l : LList α} {xs ys : List (Addr × α)} {a : Addr} {d : α}
    (linked : Linked l (xs ++ (a, d) :: ys)) :
    ∃ l', l.unlink (some a) = some l' ∧ l'.heap a = some ⟨d, first ys none, last none xs⟩ ∧
      l'.mtx = l.mtx ∧ Linked { l' with heap := l'.heap.set a none } (xs ++ ys) := by
  have read := linked.node_eq
  have deref : l.node (some a) = some ⟨d, first ys none, last none xs⟩ := read
  have head := linked.head
  have tail := linked.tail
  obtain ⟨segLeft, -, segRight⟩ := Seg.append_iff.mp linked.seg
  obtain ⟨outsideLeft, outsideRight, distinct⟩ := distinct_split linked.distinct
  rcases xs.eq_nil_or_concat' with rfl | ⟨front, ⟨b, e⟩, rfl⟩
  · cases ys with
    | nil =>
      -- the only node
      refine ⟨⟨none, none, l.heap, l.mtx⟩, by simp [unlink, deref], read, rfl, ?_⟩
      exact linked_release linked trivial rfl rfl fun _ present => present
    | cons cell rest =>
      -- the first of several: the successor loses its predecessor
      obtain ⟨c, f⟩ := cell
      have follow : l.heap c = some ⟨f, first rest none, some a⟩ := segRight.1
      have other : a ≠ c := fun same => outsideRight (by simp [same])
      have outside : c ∉ rest.map Prod.fst := (List.nodup_cons.mp distinct).1
      refine ⟨⟨some c, l.tailPrevious, l.heap.set c (some ⟨f, first rest none, none⟩), l.mtx⟩, ?_,
        (l.heap.set_other _ other).trans read, rfl, ?_⟩
      · simp [unlink, deref, setPrevious, follow]
      · exact linked_release linked (segRight.set_previous outside none) rfl (by simpa using tail)
          fun _ => Heap.live_of_set follow
  · have before : l.heap b = some ⟨e, some a, last none front⟩ :=
      Seg.single_iff.mp (Seg.append_iff.mp segLeft).2
    have other : a ≠ b := fun same => outsideLeft (by simp [same])
    cases ys with
    | nil =>
      -- the last of several: the predecessor loses its successor
      have outside : b ∉ front.map Prod.fst :=
        (distinct_split (show ((front ++ [(b, e)]).map Prod.fst).Nodup by simpa using distinct)).1
      refine ⟨⟨l.headNext, some b, l.heap.set b (some ⟨e, none, last none front⟩), l.mtx⟩, ?_,
        (l.heap.set_other _ other).trans read, rfl, ?_⟩
      · simp [unlink, deref, setNext, before]
      · exact linked_release linked (by simpa using segLeft.set_next outside none)
          (by simpa using head) (by simp) fun _ => Heap.live_of_set before
    | cons cell rest =>
      -- in the middle: the two neighbours are linked to each other
      obtain ⟨c, f⟩ := cell
      have follow : l.heap c = some ⟨f, first rest none, some a⟩ := segRight.1
      have otherRight : a ≠ c := fun same => outsideRight (by simp [same])
      have apart : c ≠ b := by
        rintro rfl
        simp [List.nodup_append] at distinct
      have joined := Seg.join segLeft segRight (by simpa using distinct)
      let heap := l.heap.set b (some ⟨e, some c, last none front⟩)
      have unchanged : heap c = some ⟨f, first rest none, some a⟩ :=
        (l.heap.set_other _ apart).trans follow
      have stay : heap a = some ⟨d, some c, some b⟩ := by
        simp only [heap, l.heap.set_other _ other, read, first_cons, last_append, last_cons, last_nil]
      have derefAgain : LList.node ⟨l.headNext, l.tailPrevious, heap, l.mtx⟩ (some a) =
        some ⟨d, some c, some b⟩ := stay
      refine ⟨⟨l.headNext, l.tailPrevious, heap.set c (some ⟨f, first rest none, some b⟩), l.mtx⟩,
        ?_, (heap.set_other _ otherRight).trans (by simpa using stay), rfl, ?_⟩
      · simp only [unlink, deref, first_cons, last_append, last_cons, last_nil, Option.bind_eq_bind,
          Option.bind_some, setNext, before, derefAgain, setPrevious, unchanged, heap]
        simp
      · exact linked_release linked (by simpa using joined) (by simpa using head)
          (by simpa using tail) fun _ live => Heap.live_of_set before (Heap.live_of_set unchanged live)

/-- The list represents `cells` and nobody holds its mutex. -/
structure Represents (l : LList α) (cells : List (Addr × α)) : Prop extends Linked l cells where
  unlocked : l.mtx = false

theorem represents_empty : Represents (llistEmpty : LList α) [] := ⟨linked_empty, rfl⟩

/-- Allocating and linking one node adds exactly its address. -/
private theorem linked_insert {l : LList α} (xs ys : List (Addr × α)) {a : Addr} {d : α}
    {heap : Heap α} {head tail : Ptr} {held : Bool} (linked : Linked l (xs ++ ys))
    (fresh : l.heap a = none) (seg : Seg heap none (xs ++ (a, d) :: ys) none)
    (headEq : head = first (xs ++ (a, d) :: ys) none) (tailEq : tail = last none (xs ++ (a, d) :: ys))
    (live : ∀ b, b ≠ a → heap b ≠ none → l.heap b ≠ none) :
    Linked ⟨head, tail, heap, held⟩ (xs ++ (a, d) :: ys) := by
  have outside := linked.fresh fresh
  refine ⟨?_, seg, headEq, tailEq, ?_⟩
  · have perm : ((xs ++ (a, d) :: ys).map Prod.fst).Perm (a :: (xs ++ ys).map Prod.fst) := by
      simp
    exact perm.nodup_iff.mpr (List.nodup_cons.mpr ⟨outside, linked.distinct⟩)
  · intro b present
    by_cases same : b = a
    · simp [same]
    · have member := linked.only b (live b same present)
      simp only [List.map_append, List.map_cons, List.mem_append, List.mem_cons] at member ⊢
      tauto

theorem llistInsertfirst_spec {l : LList α} {cells : List (Addr × α)} (rep : Represents l cells)
    {a : Addr} (fresh : l.heap a = none) (d : α) :
    ∃ l', l.llistInsertfirst a d = some l' ∧ Represents l' ((a, d) :: cells) := by
  have linked := rep.toLinked
  have head := linked.head
  cases cells with
  | nil =>
    refine ⟨⟨some a, some a, l.heap.set a (some ⟨d, none, none⟩), false⟩, ?_, ?_, rfl⟩
    · simp [llistInsertfirst, lock, rep.unlocked, createNewNode, fresh, llistIsEmpty, head, unlock]
    · apply linked_insert [] _ linked fresh (Seg.single_iff.mpr (l.heap.set_same a _)) rfl rfl
      exact fun _ => Heap.live_of_set_other
  | cons cell rest =>
    obtain ⟨c, f⟩ := cell
    have follow : l.heap c = some ⟨f, first rest none, none⟩ := linked.seg.1
    have other : c ≠ a := fun same => linked.fresh fresh (by simp [same])
    have outside : c ∉ rest.map Prod.fst := (List.nodup_cons.mp linked.distinct).1
    let heap := l.heap.set a (some ⟨d, some c, none⟩)
    have unchanged : heap c = some ⟨f, first rest none, none⟩ :=
      (l.heap.set_other _ other).trans follow
    refine ⟨⟨some a, l.tailPrevious, heap.set c (some ⟨f, first rest none, some a⟩), false⟩, ?_, ?_, rfl⟩
    · simp [llistInsertfirst, lock, rep.unlocked, createNewNode, fresh, llistIsEmpty, head, unlock,
        setNext, setPrevious, heap, l.heap.set_other _ other, follow]
    · refine linked_insert [] _ linked fresh ⟨?_, ?_⟩ rfl (by simpa using linked.tail) ?_
      · exact (heap.set_other _ other.symm).trans (l.heap.set_same a _)
      · exact (linked.seg.set_frame (linked.fresh fresh) _).set_previous outside (some a)
      · intro b different present
        exact Heap.live_of_set_other different (Heap.live_of_set unchanged present)

theorem llistInsertlast_spec {l : LList α} {cells : List (Addr × α)} (rep : Represents l cells)
    {a : Addr} (fresh : l.heap a = none) (d : α) :
    ∃ l', l.llistInsertlast a d = some l' ∧ Represents l' (cells ++ [(a, d)]) := by
  have linked := rep.toLinked
  have head := linked.head
  have tail := linked.tail
  rcases cells.eq_nil_or_concat' with rfl | ⟨front, ⟨b, e⟩, rfl⟩
  · refine ⟨⟨some a, some a, l.heap.set a (some ⟨d, none, none⟩), false⟩, ?_, ?_, rfl⟩
    · simp [llistInsertlast, lock, rep.unlocked, createNewNode, fresh, llistIsEmpty, head, unlock]
    · apply linked_insert [] _ linked fresh (Seg.single_iff.mpr (l.heap.set_same a _)) rfl rfl
      exact fun _ => Heap.live_of_set_other
  · have before : l.heap b = some ⟨e, none, last none front⟩ :=
      Seg.single_iff.mp (Seg.append_iff.mp linked.seg).2
    have other : b ≠ a := fun same => linked.fresh fresh (by simp [same])
    have outside : b ∉ front.map Prod.fst := (distinct_split linked.distinct).1
    have nonempty : l.headNext ≠ none := head ▸ first_ne_none (by simp) none
    let heap := l.heap.set a (some ⟨d, none, some b⟩)
    have unchanged : heap b = some ⟨e, none, last none front⟩ :=
      (l.heap.set_other _ other).trans before
    refine ⟨⟨l.headNext, some a, heap.set b (some ⟨e, some a, last none front⟩), false⟩, ?_, ?_, rfl⟩
    · simp [llistInsertlast, lock, rep.unlocked, createNewNode, fresh, llistIsEmpty, nonempty, tail,
        unlock, setNext, setPrevious, heap, l.heap.set_other _ other, before]
    · refine linked_insert _ [] (by simpa using linked) fresh ?_ (by simpa using head)
        (by simp) ?_
      · refine Seg.append_iff.mpr ⟨?_, Seg.single_iff.mpr ?_⟩
        · exact (linked.seg.set_frame (linked.fresh fresh) _).set_next outside (some a)
        · simpa using (heap.set_other _ other.symm).trans (l.heap.set_same a _)
      · intro x different present
        exact Heap.live_of_set_other different (Heap.live_of_set unchanged present)

/-- Locking, unlinking and releasing a node. -/
theorem release_spec {l : LList α} (xs : List (Addr × α)) {ys : List (Addr × α)} {a : Addr} {d : α}
    (rep : Represents l (xs ++ (a, d) :: ys)) :
    ∃ l₀ l₁ l₂, l.lock = some l₀ ∧ l₀.headNext = l.headNext ∧
      l₀.node (some a) = some ⟨d, first ys none, last none xs⟩ ∧ l₀.unlink (some a) = some l₁ ∧
      l₁.node (some a) = some ⟨d, first ys none, last none xs⟩ ∧
      l₁.freeNode (some a) = some l₂ ∧ Represents l₂.unlock (xs ++ ys) := by
  have linked : Linked { l with mtx := true } (xs ++ (a, d) :: ys) := rep.toLinked.of_eq rfl rfl rfl
  obtain ⟨l₁, unlinked, read, -, remaining⟩ := unlink_spec linked
  refine ⟨{ l with mtx := true }, l₁, { l₁ with heap := l₁.heap.set a none }, ?_, rfl,
    linked.node_eq, unlinked, read, ?_, ?_, rfl⟩
  · simp [lock, rep.unlocked]
  · simp [freeNode, read]
  · exact remaining.of_eq rfl rfl rfl

theorem llistRemove_spec {l : LList α} {xs ys : List (Addr × α)} {a : Addr} {d : α}
    (rep : Represents l (xs ++ (a, d) :: ys)) :
    ∃ l', l.llistRemove (some a) = some (l', first ys none) ∧ Represents l' (xs ++ ys) := by
  obtain ⟨l₀, l₁, l₂, locked, head, deref, unlinked, -, freed, remaining⟩ := release_spec xs rep
  have nonempty : l.headNext ≠ none := rep.head ▸ first_ne_none (by simp) none
  refine ⟨l₂.unlock, ?_, remaining⟩
  simp [llistRemove, locked, llistIsEmpty, head, nonempty, deref, unlinked, freed]

/-- Taking the first node out is one operation; the three variants differ in what they do with
the datum. -/
theorem removefirst_specs {l : LList Addr} {cells : List (Addr × Addr)} {a d : Addr}
    (rep : Represents l ((a, d) :: cells)) :
    ∃ l', Represents l' cells ∧ l.llistRemove l.llistFirst = some (l', first cells none) ∧
      (∀ mem, l.llistRemovefirst mem = (mem.read d 4).map fun temp => (l', temp)) ∧
      (∀ mem, l.llistRemovefirstInt mem =
        (mem.read d 8).map fun temp => (l', mem.free d, temp)) ∧
      ∀ mem, l.llistRemovefirstPdu mem =
        ((mem.readPdu d).bind copyPdu).map fun copy => (l', mem.free d, copy) := by
  obtain ⟨l₀, l₁, l₂, locked, same, deref, unlinked, read, freed, remaining⟩ :=
    release_spec [] rep
  have head : l.headNext = some a := rep.head
  have start : l₀.llistFirst = some a := same.trans head
  refine ⟨l₂.unlock, remaining, ?_, ?_, ?_, ?_⟩
  · simp [llistRemove, llistFirst, locked, llistIsEmpty, same, head, deref, unlinked, freed]
  · intro mem
    cases got : mem.read d 4 <;>
      simp [llistRemovefirst, locked, start, unlinked, read, freed, got]
  · intro mem
    cases got : mem.read d 8 <;>
      simp [llistRemovefirstInt, locked, start, unlinked, read, freed, got]
  · intro mem
    simp only [llistRemovefirstPdu, locked, start, unlinked, read, freed, Option.bind_eq_bind,
      Option.bind_some, Option.map_eq_bind, Function.comp_def, Option.bind_assoc]

theorem countFrom_spec {heap : Heap α} {p : Ptr} {cells : List (Addr × α)}
    (chain : NextChain heap p cells) {fuel : ℕ} (enough : cells.length ≤ fuel) :
    countFrom heap fuel p = some cells.length := by
  induction cells generalizing p fuel with
  | nil =>
    obtain rfl : p = none := chain
    cases fuel <;> rfl
  | cons cell rest ih =>
    obtain ⟨rfl, n, read, -, tail⟩ := chain
    obtain ⟨fuel, rfl⟩ := Nat.exists_eq_add_of_lt (lt_of_lt_of_le (Nat.succ_pos _) enough)
    simp only [List.length_cons] at enough ⊢
    rw [show 0 + fuel + 1 = fuel + 1 by omega]
    simp [countFrom, read, ih tail (show rest.length ≤ fuel by omega)]

theorem listLength_spec {l : LList α} {cells : List (Addr × α)} (rep : Represents l cells)
    {fuel : ℕ} (enough : cells.length ≤ fuel) : l.listLength fuel = some (l, cells.length) := by
  have chain : NextChain l.heap l.headNext cells := rep.head ▸ rep.seg.nextChain
  obtain ⟨head, tail, heap, held⟩ := l
  obtain rfl : held = false := rep.unlocked
  simp [listLength, lock, unlock, countFrom_spec chain enough]

/-- The node at a position that is currently in the list, reached by `llist_next`; NULL beyond. -/
def position (l : LList α) : ℕ → Ptr
  | 0 => l.llistFirst
  | i + 1 => (l.node (l.position i)).bind Node.next

theorem position_spec {l : LList α} {xs : List (Addr × α)} (ys : List (Addr × α)) (linked : Linked l (xs ++ ys)) :
    l.position xs.length = first ys none := by
  induction xs using List.reverseRecOn generalizing ys with
  | nil => exact linked.head
  | append_singleton front cell ih =>
    obtain ⟨b, e⟩ := cell
    rw [List.append_assoc, List.singleton_append] at linked
    rw [List.length_append, List.length_singleton, position, ih _ linked, node]
    simp [linked.node_eq]

theorem position_outside {l : LList α} {cells : List (Addr × α)} (linked : Linked l cells) {i : ℕ}
    (outside : cells.length ≤ i) : l.position i = none := by
  obtain ⟨k, rfl⟩ := Nat.exists_eq_add_of_le outside
  clear outside
  induction k with
  | zero => exact position_spec [] (by simpa using linked)
  | succ k ih => rw [← Nat.add_assoc, position, ih]; rfl

/-- One call on the list. Insertions name the address that `calloc` returns, and the calls that
read the first datum the memory they find. -/
inductive ListOp where
  | insertfirst (a d : Addr)
  | insertlast (a d : Addr)
  | removefirst (mem : Store)
  | removefirstInt (mem : Store)
  | removefirstPdu (mem : Store)
  | remove (i : ℕ)

def listStep (l : LList Addr) : ListOp → Option (LList Addr)
  | .insertfirst a d => l.llistInsertfirst a d
  | .insertlast a d => l.llistInsertlast a d
  | .removefirst mem => (l.llistRemovefirst mem).map Prod.fst
  | .removefirstInt mem => (l.llistRemovefirstInt mem).map Prod.fst
  | .removefirstPdu mem => (l.llistRemovefirstPdu mem).map Prod.fst
  | .remove i => do
    let a ← l.position i
    let (l, _) ← l.llistRemove (some a)
    some l

/-- The abstract sequence: cons, append, tail and deletion at a position. A call that reads the
first datum needs one of its own kind there. -/
def seqStep (xs : List Addr) : ListOp → Option (List Addr)
  | .insertfirst _ d => some (d :: xs)
  | .insertlast _ d => some (xs ++ [d])
  | .removefirst mem => (xs.head?.bind fun d => mem.read d 4).map fun _ => xs.tail
  | .removefirstInt mem => (xs.head?.bind fun d => mem.read d 8).map fun _ => xs.tail
  | .removefirstPdu mem => (xs.head?.bind fun d => (mem.readPdu d).bind copyPdu).map fun _ => xs.tail
  | .remove i => if i < xs.length then some (xs.eraseIdx i) else none

/-- The allocator returns an address that is not in use. -/
def Fresh (l : LList Addr) : ListOp → Prop
  | .insertfirst a _ => l.heap a = none
  | .insertlast a _ => l.heap a = none
  | _ => True

theorem createNewNode_used {l : LList α} {a : Addr} (used : l.heap a ≠ none) (d : α) :
    l.createNewNode a d = none := if_pos (Option.isSome_iff_ne_none.mpr used)

theorem fresh_of_listStep {l l' : LList Addr} {op : ListOp} (taken : listStep l op = some l') :
    Fresh l op := by
  cases op with
  | insertfirst a d =>
    by_contra used
    have blocked := createNewNode_used (l := { l with mtx := true }) used d
    simp only [listStep, llistInsertfirst, lock] at taken
    split at taken <;> simp [blocked] at taken
  | insertlast a d =>
    by_contra used
    have blocked := createNewNode_used (l := { l with mtx := true }) used d
    simp only [listStep, llistInsertlast, lock] at taken
    split at taken <;> simp [blocked] at taken
  | _ => trivial

/-- The variants that take the first node out fail on an empty list: they follow NULL. -/
theorem removefirst_empty {l : LList Addr} (rep : Represents l []) (mem : Store) :
    l.llistRemovefirst mem = none ∧ l.llistRemovefirstInt mem = none ∧
      l.llistRemovefirstPdu mem = none := by
  have head : l.headNext = none := rep.head
  simp [llistRemovefirst, llistRemovefirstInt, llistRemovefirstPdu, lock, rep.unlocked, llistFirst,
    head, unlink, node]

/-- On a represented list a call succeeds exactly when the sequence allows it, with its result. -/
theorem listStep_refines {l : LList Addr} {cells : List (Addr × Addr)} (rep : Represents l cells)
    {op : ListOp} (fresh : Fresh l op) :
    (listStep l op = none ∧ seqStep (cells.map Prod.snd) op = none) ∨
    ∃ l' cells', listStep l op = some l' ∧
      seqStep (cells.map Prod.snd) op = some (cells'.map Prod.snd) ∧ Represents l' cells' := by
  -- the three variants that take the first node out, by what reading the datum gives
  have take {β : Type} {read : Addr → Option β} {out : Option (LList Addr)}
      (empty : cells = [] → out = none)
      (spec : ∀ a d rest, cells = (a, d) :: rest →
        ∃ l', Represents l' rest ∧ out = (read d).map fun _ => l') :
      (out = none ∧ ((cells.map Prod.snd).head?.bind read).map (fun _ => (cells.map Prod.snd).tail) = none) ∨
      ∃ l' cells', out = some l' ∧ ((cells.map Prod.snd).head?.bind read).map
        (fun _ => (cells.map Prod.snd).tail) = some (cells'.map Prod.snd) ∧ Represents l' cells' := by
    cases cells with
    | nil => exact .inl ⟨empty rfl, rfl⟩
    | cons cell rest =>
      obtain ⟨l', rep', same⟩ := spec cell.1 cell.2 rest rfl
      cases got : read cell.2 with
      | none => exact .inl ⟨by simp [same, got], by simp [got]⟩
      | some value => exact .inr ⟨l', rest, by simp [same, got], by simp [got], rep'⟩
  cases op with
  | insertfirst a d =>
    obtain ⟨l', taken, rep'⟩ := llistInsertfirst_spec rep fresh d
    exact .inr ⟨l', (a, d) :: cells, taken, rfl, rep'⟩
  | insertlast a d =>
    obtain ⟨l', taken, rep'⟩ := llistInsertlast_spec rep fresh d
    exact .inr ⟨l', cells ++ [(a, d)], taken, by simp [seqStep], rep'⟩
  | removefirst mem =>
    refine take (fun none => ?_) fun a d rest same => ?_
    · simp [listStep, (removefirst_empty (none ▸ rep) mem).1]
    · obtain ⟨l', rep', -, spec, -, -⟩ := removefirst_specs (same ▸ rep)
      exact ⟨l', rep', by simp [listStep, spec, Function.comp_def]⟩
  | removefirstInt mem =>
    refine take (fun none => ?_) fun a d rest same => ?_
    · simp [listStep, (removefirst_empty (none ▸ rep) mem).2.1]
    · obtain ⟨l', rep', -, -, spec, -⟩ := removefirst_specs (same ▸ rep)
      exact ⟨l', rep', by simp [listStep, spec, Function.comp_def]⟩
  | removefirstPdu mem =>
    refine take (fun none => ?_) fun a d rest same => ?_
    · simp [listStep, (removefirst_empty (none ▸ rep) mem).2.2]
    · obtain ⟨l', rep', -, -, -, spec⟩ := removefirst_specs (same ▸ rep)
      exact ⟨l', rep', by simp [listStep, spec, Function.comp_def]⟩
  | remove i =>
    by_cases inside : i < cells.length
    · obtain ⟨xs, ⟨a, d⟩, ys, rfl, rfl⟩ : ∃ xs cell ys, cells = xs ++ cell :: ys ∧ xs.length = i :=
        ⟨cells.take i, cells[i], cells.drop (i + 1), by simp, by simp; omega⟩
      obtain ⟨l', removed, rep'⟩ := llistRemove_spec rep
      refine .inr ⟨l', xs ++ ys, ?_, ?_, rep'⟩
      · simp [listStep, position_spec _ rep.toLinked, removed]
      · simp [seqStep, List.eraseIdx_append_of_length_le]
    · refine .inl ⟨?_, by simp [seqStep, inside]⟩
      simp [listStep, position_outside rep.toLinked (not_lt.mp inside)]

/-- A run of calls on a list is a run on the sequence it represents. -/
theorem run_refines {l l' : LList Addr} {cells : List (Addr × Addr)} {ops : List ListOp}
    (rep : Represents l cells) (ran : Machine.run listStep l ops = some l') :
    ∃ cells', Machine.run seqStep (cells.map Prod.snd) ops = some (cells'.map Prod.snd) ∧
      Represents l' cells' := by
  have simulate : ∀ l xs op l', (∃ cells, Represents l cells ∧ cells.map Prod.snd = xs) →
      listStep l op = some l' → ∃ xs', seqStep xs (id op) = some xs' ∧
        ∃ cells, Represents l' cells ∧ cells.map Prod.snd = xs' := by
    rintro l _ op l' ⟨cells, rep, rfl⟩ taken
    rcases listStep_refines rep (fresh_of_listStep taken) with ⟨stuck, -⟩ | ⟨_, cells', took, seq, rep'⟩
    · exact absurd (stuck.symm.trans taken) (by simp)
    · obtain rfl := Option.some.inj (took.symm.trans taken)
      exact ⟨_, seq, cells', rep', rfl⟩
  obtain ⟨xs', seqRan, cells', rep', rfl⟩ :=
    Machine.run_simulates id simulate ⟨cells, rep, rfl⟩ ran
  exact ⟨cells', by simpa using seqRan, rep'⟩

/-- Every list of distinct cells can be built. -/
theorem exists_represents (cells : List (Addr × Addr)) (distinct : (cells.map Prod.fst).Nodup) :
    ∃ l, Machine.run listStep llistEmpty (cells.map fun cell => .insertlast cell.1 cell.2) = some l ∧
      Represents l cells := by
  induction cells using List.reverseRecOn with
  | nil => exact ⟨_, rfl, represents_empty⟩
  | append_singleton cells cell ih =>
    rw [List.map_append, List.nodup_append] at distinct
    obtain ⟨l, ran, rep⟩ := ih distinct.1
    have fresh : l.heap cell.1 = none := by
      by_contra used
      exact distinct.2.2 _ (rep.only _ used) _ (by simp) rfl
    obtain ⟨l', inserted, rep'⟩ := llistInsertlast_spec rep fresh cell.2
    refine ⟨l', ?_, rep'⟩
    rw [List.map_append, Machine.run_append ran, List.map_singleton, Machine.run_cons, listStep, inserted]
    rfl

/-- What a reader of the two chains sees: the same distinct nodes in opposite orders, NULL at
both ends, and sentinels that agree on emptiness. -/
structure WellFormed (l : LList α) (cells : List (Addr × α)) : Prop where
  distinct : (cells.map Prod.fst).Nodup
  forward : NextChain l.heap l.headNext cells
  backward : PreviousChain l.heap l.tailPrevious cells.reverse
  firstPrevious : ∀ n, l.node l.llistFirst = some n → n.previous = none
  lastNext : ∀ n, l.node l.llistLast = some n → n.next = none
  empty_iff : l.headNext = none ↔ l.tailPrevious = none

theorem Linked.wellFormed {l : LList α} {cells : List (Addr × α)} (linked : Linked l cells) :
    WellFormed l cells := by
  have head := linked.head
  have tail := linked.tail
  refine ⟨linked.distinct, head ▸ linked.seg.nextChain, tail ▸ linked.seg.previousChain, ?_, ?_, ?_⟩
  · intro n read
    cases cells with
    | nil => simp [node, llistFirst, head] at read
    | cons cell rest =>
      simp only [node, llistFirst, head, first, Option.bind_some, linked.seg.1, Option.some.injEq] at read
      exact read ▸ rfl
  · intro n read
    rcases cells.eq_nil_or_concat' with rfl | ⟨front, ⟨b, e⟩, rfl⟩
    · simp [node, llistLast, tail] at read
    · have before := Seg.single_iff.mp (Seg.append_iff.mp linked.seg).2
      simp only [node, llistLast, tail, last_append, last_cons, last_nil, Option.bind_some, before,
        Option.some.injEq] at read
      exact read ▸ rfl
  · rw [head, tail, first_none_iff, last_none_iff]

/-- Every run of calls from the empty list leaves a well-formed list of the abstract sequence, on
which every call that the sequence allows succeeds, all ways of taking the first node out agree,
`llist_remove` returns the successor and `list_length` counts the nodes. -/
theorem list_implements_sequence {ops : List ListOp} {l : LList Addr}
    (ran : Machine.run listStep llistEmpty ops = some l) :
    ∃ cells, WellFormed l cells ∧ Machine.run seqStep [] ops = some (cells.map Prod.snd) ∧
      (∀ op, Fresh l op → (seqStep (cells.map Prod.snd) op).isSome → (listStep l op).isSome) ∧
      (∀ a d rest, cells = (a, d) :: rest → ∃ l',
        l.llistRemove l.llistFirst = some (l', first rest none) ∧
        (∀ mem out, l.llistRemovefirst mem = some out → out.1 = l') ∧
        (∀ mem out, l.llistRemovefirstInt mem = some out → out.1 = l') ∧
        ∀ mem out, l.llistRemovefirstPdu mem = some out → out.1 = l') ∧
      (∀ xs a d ys, cells = xs ++ (a, d) :: ys →
        ∃ l', l.llistRemove (some a) = some (l', first ys none)) ∧
      ∀ fuel, cells.length ≤ fuel → l.listLength fuel = some (l, cells.length) := by
  obtain ⟨cells, seqRan, rep⟩ := run_refines represents_empty ran
  refine ⟨cells, rep.toLinked.wellFormed, seqRan, ?_, ?_, ?_, fun fuel enough => listLength_spec rep enough⟩
  · intro op fresh allowed
    rcases listStep_refines rep fresh with ⟨-, stuck⟩ | ⟨l', -, took, -, -⟩
    · simp [stuck] at allowed
    · simp [took]
  · rintro a d rest rfl
    obtain ⟨l', -, removed, plain, int, pdu⟩ := removefirst_specs rep
    refine ⟨l', removed, ?_, ?_, ?_⟩ <;> intro mem out taken
    · obtain ⟨_, -, rfl⟩ := Option.map_eq_some_iff.mp ((plain mem).symm.trans taken)
      rfl
    · obtain ⟨_, -, rfl⟩ := Option.map_eq_some_iff.mp ((int mem).symm.trans taken)
      rfl
    · obtain ⟨_, -, rfl⟩ := Option.map_eq_some_iff.mp ((pdu mem).symm.trans taken)
      rfl
  · rintro xs a d ys rfl
    obtain ⟨l', removed, -⟩ := llistRemove_spec rep
    exact ⟨l', removed⟩

/-- Two insertions at the ends and a removal in between. -/
theorem list_implements_sequence_three : ∃ l cells,
    Machine.run listStep llistEmpty [.insertlast 1 10, .insertfirst 2 20, .insertlast 3 30, .remove 1] =
      some l ∧ WellFormed l cells ∧ cells.map Prod.snd = [20, 30] := by
  have possible : (Machine.run listStep llistEmpty
      [.insertlast 1 10, .insertfirst 2 20, .insertlast 3 30, .remove 1]).isSome := by decide
  obtain ⟨l, ran⟩ := Option.isSome_iff_exists.mp possible
  obtain ⟨cells, formed, seqRan, -⟩ := list_implements_sequence ran
  exact ⟨l, cells, ran, formed, (Option.some.inj seqRan).symm⟩

end LList

end Operativsystem.Resources

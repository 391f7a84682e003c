import Operativsystem.Resources.ListSequence

/-! # Exchanging neighbours

`llist_switch` is to exchange a node and its successor. Its three `if`s follow one another, and every
assignment reads what the ones before it have written. It does so at no position: the last one stays where it
is, unless it is also the first.
-/

namespace Operativsystem.Resources.LList

open Segment

variable {α : Type}

/-- The branch for a node with two neighbours. -/
def switchMiddle (l : LList α) (p : Ptr) : Option (LList α) := do
  let n ← l.node p
  let l ← l.setPrevious n.next n.previous
  let n ← l.node p
  let l ← l.setNext n.previous n.next
  let n ← l.node p
  let q ← l.node n.next
  let l ← l.setNext p q.next
  let n ← l.node p
  let q ← l.node n.next
  if q.next = none then
    let l ← l.setPrevious p l.tailPrevious
    some { l with tailPrevious := p }
  else
    let r ← l.node q.next
    l.setPrevious p r.previous

/-- The branch for a node without a predecessor. -/
def switchFirst (l : LList α) (p : Ptr) : Option (LList α) := do
  let n ← l.node p
  let l ← l.setPrevious n.next n.previous
  let n ← l.node p
  let l := { l with headNext := n.next }
  let q ← l.node n.next
  let l ← l.setPrevious q.next p
  let n ← l.node p
  let l ← l.setNext n.next p
  let n ← l.node p
  let q ← l.node n.next
  l.setNext p q.next

/-- `llist_switch`; its last branch only prints. -/
def llistSwitch (l : LList α) (p : Ptr) : Option (LList α) := do
  let n ← l.node p
  let l ← if n.next ≠ none ∧ n.previous ≠ none then l.switchMiddle p else some l
  let n ← l.node p
  if n.previous = none then l.switchFirst p else some l

/-- The node between `xs` and `ys` has changed places with its successor; if it has none, nothing has changed. -/
def Exchanged (l l' : LList α) (xs : List (Addr × α)) (d : α) (ys : List (Addr × α)) : Prop :=
  match ys with
  | [] => l' = l
  | (_, e) :: rest => ∃ cells, WellFormed l' cells ∧
      cells.map Prod.snd = xs.map Prod.snd ++ e :: d :: rest.map Prod.snd

section Switch

variable {l l' : LList α} {xs ys : List (Addr × α)} {a b c : Addr} {d e f : α}

theorem WellFormed.seg {cells : List (Addr × α)} (formed : WellFormed l cells) : Seg l.heap none cells none :=
  .of_chains formed.forward formed.backward

theorem WellFormed.node (formed : WellFormed l (xs ++ (a, d) :: ys)) :
    l.node (some a) = some ⟨d, first ys none, last none xs⟩ :=
  (Seg.append_iff.mp formed.seg).2.1

/-- The heap in which a node with two neighbours is passed by, and what becomes of the node itself. -/
theorem seg_passed {front rest : List (Addr × α)} {node : Node α}
    (formed : WellFormed l (front ++ (b, e) :: (a, d) :: (c, f) :: rest)) :
    Seg (((l.heap.set c (some ⟨f, first rest none, some b⟩)).set b (some ⟨e, some c, last none front⟩)).set a
      (some node)) none (front ++ (b, e) :: (c, f) :: rest) none := by
  have segs : Seg l.heap none ((front ++ [(b, e)]) ++ [(a, d)] ++ (c, f) :: rest) none := by
    simpa using formed.seg
  obtain ⟨left, right⟩ := Seg.append_iff.mp segs
  have distinct : ((front ++ [(b, e)] ++ (a, d) :: (c, f) :: rest).map Prod.fst).Nodup := by
    simpa using formed.distinct
  obtain ⟨outsideLeft, outsideRight, remaining⟩ := distinct_split distinct
  have apart : c ≠ b := by
    rintro rfl
    simp [List.nodup_append] at remaining
  have joined := Seg.join (Seg.append_iff.mp left).1 right (by simpa using remaining)
  have outside : a ∉ (front ++ (b, e) :: (c, f) :: rest).map Prod.fst := by
    simp only [List.map_append, List.map_cons, List.map_nil, List.mem_append, List.mem_cons, List.not_mem_nil,
      or_false, not_or] at outsideLeft outsideRight ⊢
    exact ⟨outsideLeft.1, outsideLeft.2, outsideRight⟩
  refine Seg.set_frame (joined.frame fun x _ => ?_) outside _
  simp only [Heap.set]
  split_ifs with sameB sameC
  · exact absurd (sameC.symm.trans sameB) apart
  all_goals rfl

/-- Unless its successor is the last node, a node with two neighbours is lost to the forward chain. -/
theorem switchMiddle_spec {front rest : List (Addr × α)}
    (formed : WellFormed l (front ++ (b, e) :: (a, d) :: (c, f) :: rest)) :
    rest = [] ∧ l.switchMiddle (some a) = none ∨
      ∃ l' node, l.switchMiddle (some a) = some l' ∧ l'.headNext = l.headNext ∧ l'.node (some a) = some node ∧
        node.previous ≠ none ∧ Seg l'.heap none (front ++ (b, e) :: (c, f) :: rest) none := by
  have readB : l.heap b = some ⟨e, some a, last none front⟩ := formed.node
  have readA : l.heap a = some ⟨d, some c, some b⟩ := by
    have formed : WellFormed l ((front ++ [(b, e)]) ++ (a, d) :: (c, f) :: rest) := by simpa using formed
    simpa [node] using formed.node
  have readC : l.heap c = some ⟨f, first rest none, some a⟩ := by
    have formed : WellFormed l ((front ++ [(b, e), (a, d)]) ++ (c, f) :: rest) := by simpa using formed
    simpa [node] using formed.node
  have distinct := formed.distinct
  simp only [List.map_append, List.map_cons, List.nodup_append, List.nodup_cons, List.mem_cons,
    not_or] at distinct
  obtain ⟨-, ⟨⟨ba, bc, bRest⟩, ⟨ac, aRest⟩, cRest, -⟩, -⟩ := distinct
  cases rest with
  | nil =>
    refine .inl ⟨rfl, ?_⟩
    simp [switchMiddle, node, setPrevious, setNext, readA, readB, readC, Heap.set_other, ac, bc, Ne.symm ba,
      Ne.symm bc]
  | cons cell rest =>
    obtain ⟨m, g⟩ := cell
    have readM : l.heap m = some ⟨g, first rest none, some c⟩ := by
      have formed : WellFormed l ((front ++ [(b, e), (a, d), (c, f)]) ++ (m, g) :: rest) := by simpa using formed
      simpa [node] using formed.node
    simp only [List.map_cons, List.mem_cons, not_or] at bRest aRest cRest
    let heap := ((l.heap.set c (some ⟨f, some m, some b⟩)).set b (some ⟨e, some c, last none front⟩)).set a
      (some ⟨d, some m, some b⟩)
    have passed (previous : Ptr) : Seg (heap.set a (some ⟨d, some m, previous⟩)) none
        (front ++ (b, e) :: (c, f) :: (m, g) :: rest) none := by
      rw [Heap.set_set]
      exact seg_passed formed
    cases rest with
    | nil =>
      have tail : l.tailPrevious ≠ none := by simp [formed.backward.last_eq]
      refine .inr ⟨⟨l.headNext, some a, heap.set a (some ⟨d, some m, l.tailPrevious⟩), l.mtx⟩,
        ⟨d, some m, l.tailPrevious⟩, ?_, rfl, Heap.set_same .., tail, passed _⟩
      simp [switchMiddle, node, setPrevious, setNext, readA, readB, readC, readM, Heap.set_other, heap, ac, bc,
        Ne.symm ba, Ne.symm bc, Ne.symm aRest.1, Ne.symm bRest.1, Ne.symm cRest.1]
    | cons cell rest =>
      obtain ⟨k, h⟩ := cell
      have readK : l.heap k = some ⟨h, first rest none, some m⟩ := by
        have formed : WellFormed l ((front ++ [(b, e), (a, d), (c, f), (m, g)]) ++ (k, h) :: rest) := by
          simpa using formed
        simpa [node] using formed.node
      simp only [List.map_cons, List.mem_cons, not_or] at bRest aRest cRest
      refine .inr ⟨⟨l.headNext, l.tailPrevious, heap.set a (some ⟨d, some m, some m⟩), l.mtx⟩,
        ⟨d, some m, some m⟩, ?_, rfl, Heap.set_same .., by simp, passed _⟩
      simp [switchMiddle, node, setPrevious, setNext, readA, readB, readC, readM, readK, Heap.set_other, heap, ac,
        bc, Ne.symm ba, Ne.symm bc, Ne.symm aRest.1, Ne.symm bRest.1, Ne.symm cRest.1, Ne.symm aRest.2.1,
        Ne.symm bRest.2.1, Ne.symm cRest.2.1]

/-- Behind the first node, the chain turns in circles on it; in a list of two NULL is followed. -/
theorem switchFirst_spec {rest : List (Addr × α)} (formed : WellFormed l ((a, d) :: (c, f) :: rest)) :
    rest = [] ∧ l.switchFirst (some a) = none ∨
      ∃ l' node, l.switchFirst (some a) = some l' ∧ l'.headNext = some c ∧ l'.heap c = some ⟨f, some a, none⟩ ∧
        l'.heap a = some ⟨d, some a, node⟩ := by
  have readA : l.heap a = some ⟨d, some c, none⟩ :=
    @WellFormed.node _ l [] ((c, f) :: rest) a d formed
  have readC : l.heap c = some ⟨f, first rest none, some a⟩ :=
    @WellFormed.node _ l [(a, d)] rest c f formed
  have distinct := formed.distinct
  simp only [List.map_cons, List.nodup_cons, List.mem_cons, not_or] at distinct
  obtain ⟨⟨ac, aRest⟩, cRest, -⟩ := distinct
  cases rest with
  | nil =>
    refine .inl ⟨rfl, ?_⟩
    simp [switchFirst, node, setPrevious, readA, readC, Heap.set_other, ac]
  | cons cell rest =>
    obtain ⟨m, g⟩ := cell
    have readM : l.heap m = some ⟨g, first rest none, some c⟩ :=
      @WellFormed.node _ l [(a, d), (c, f)] rest m g formed
    simp only [List.map_cons, List.mem_cons, not_or] at aRest cRest
    let heap := (((l.heap.set c (some ⟨f, some m, none⟩)).set m (some ⟨g, first rest none, some a⟩)).set c
      (some ⟨f, some a, none⟩)).set a (some ⟨d, some a, none⟩)
    refine .inr ⟨⟨some c, l.tailPrevious, heap, l.mtx⟩, none, ?_, rfl, ?_, Heap.set_same ..⟩
    · simp [switchFirst, node, setPrevious, setNext, readA, readC, readM, Heap.set_other, heap, ac,
        Ne.symm cRest.1, cRest.1, aRest.1]
    · exact (Heap.set_other _ _ (Ne.symm ac)).trans (Heap.set_same ..)

theorem switch_first (formed : WellFormed l ((a, d) :: ys)) (switched : l.llistSwitch (some a) = some l') :
    ¬Exchanged l l' [] d ys := by
  have read : l.node (some a) = some ⟨d, first ys none, none⟩ := @WellFormed.node _ l [] ys a d formed
  simp only [llistSwitch, read, Option.bind_eq_bind, Option.bind_some, ne_eq, not_true_eq_false, and_false,
    if_false, if_true] at switched
  cases ys with
  | nil => simp [switchFirst, read, setPrevious] at switched
  | cons cell rest =>
    obtain ⟨c, f⟩ := cell
    rcases switchFirst_spec formed with ⟨-, stuck⟩ | ⟨l₁, node, went, head, readC, readA⟩
    · cases stuck.symm.trans switched
    · cases went.symm.trans switched
      rintro ⟨cells, formed', -⟩
      have chain := formed'.forward
      rw [head] at chain
      cases cells with
      | nil => cases chain
      | cons cell' rest' =>
        obtain ⟨same, node', read', -, chain⟩ := chain
        cases same
        cases readC.symm.trans read'
        exact NextChain.not_loop readA rest' chain

theorem switch_middle {front rest : List (Addr × α)}
    (formed : WellFormed l (front ++ (b, e) :: (a, d) :: (c, f) :: rest))
    (switched : l.llistSwitch (some a) = some l') : ¬Exchanged l l' (front ++ [(b, e)]) d ((c, f) :: rest) := by
  have formed' : WellFormed l ((front ++ [(b, e)]) ++ (a, d) :: (c, f) :: rest) := by simpa using formed
  have read : l.node (some a) = some ⟨d, some c, some b⟩ := by simpa using formed'.node
  simp only [llistSwitch, read, Option.bind_eq_bind, Option.bind_some, ne_eq, reduceCtorEq, not_false_eq_true,
    and_self, if_true] at switched
  rcases switchMiddle_spec formed with ⟨-, stuck⟩ | ⟨l₁, node, went, head, readA, backed, seg⟩
  · simp [stuck] at switched
  · simp only [went, readA, Option.bind_some, if_neg backed, Option.some.injEq] at switched
    subst switched
    rintro ⟨cells, exchanged, data⟩
    have start : l₁.headNext = first (front ++ (b, e) :: (c, f) :: rest) none := by
      rw [head, formed.forward.first_eq, first_append, first_append]
      rfl
    have met : cells = front ++ (b, e) :: (c, f) :: rest :=
      exchanged.forward.unique (start ▸ seg.nextChain)
    have size := congrArg List.length data
    rw [met] at size
    simp only [List.length_map, List.length_append, List.length_cons, List.length_nil] at size
    omega

/-- From a well-formed list and a position in it, `llist_switch` gets through and does what it is for exactly if
the position is the last one and not the only one. -/
theorem switch_exchanges (l : LList α) (xs ys : List (Addr × α)) (a : Addr) (d : α)
    (formed : WellFormed l (xs ++ (a, d) :: ys)) :
    (∃ l', l.llistSwitch (some a) = some l' ∧ Exchanged l l' xs d ys) ↔ ys = [] ∧ xs ≠ [] := by
  rcases xs.eq_nil_or_concat' with rfl | ⟨front, ⟨b, e⟩, rfl⟩
  · refine iff_of_false ?_ (by simp)
    rintro ⟨l', switched, exchanged⟩
    exact switch_first formed switched exchanged
  · cases ys with
    | nil =>
      refine iff_of_true ⟨l, ?_, rfl⟩ (by simp)
      simp [llistSwitch, formed.node]
    | cons cell rest =>
      obtain ⟨c, f⟩ := cell
      refine iff_of_false ?_ (by simp)
      rintro ⟨l', switched, exchanged⟩
      exact switch_middle (by simpa using formed) switched exchanged

/-- The last position of a list of two. -/
theorem switch_exchanges_last :
    ∃ l, Machine.run listStep llistEmpty [.insertlast 0 10, .insertlast 1 20] = some l ∧
      ∃ l', l.llistSwitch (some 1) = some l' ∧ Exchanged l l' [(0, 10)] 20 [] := by
  obtain ⟨l, ran, rep⟩ := exists_represents [(0, 10), (1, 20)] (by decide)
  exact ⟨l, ran, (switch_exchanges l [(0, 10)] [] 1 20 rep.wellFormed).mpr ⟨rfl, by simp⟩⟩

/-- In a list of two, exchanging the first node follows NULL; in a list of four, exchanging the second loses it.
A list of one is not left as it is. -/
theorem switch_loses :
    (∃ l, Machine.run listStep llistEmpty [.insertlast 0 10, .insertlast 1 20] = some l ∧
      WellFormed l [(0, 10), (1, 20)] ∧ l.llistSwitch (some 0) = none) ∧
    (∃ l l', Machine.run listStep llistEmpty
        [.insertlast 0 10, .insertlast 1 20, .insertlast 2 30, .insertlast 3 40] = some l ∧
      WellFormed l [(0, 10), (1, 20), (2, 30), (3, 40)] ∧ l.llistSwitch (some 1) = some l' ∧
        ¬Exchanged l l' [(0, 10)] 20 [(2, 30), (3, 40)]) ∧
    ∃ l, Machine.run listStep llistEmpty [.insertlast 0 10] = some l ∧
      WellFormed l [(0, 10)] ∧ l.llistSwitch (some 0) = none := by
  obtain ⟨two, ranTwo, repTwo⟩ := exists_represents [(0, 10), (1, 20)] (by decide)
  obtain ⟨four, ranFour, repFour⟩ := exists_represents [(0, 10), (1, 20), (2, 30), (3, 40)] (by decide)
  obtain ⟨one, ranOne, repOne⟩ := exists_represents [(0, 10)] (by decide)
  refine ⟨⟨two, ranTwo, repTwo.wellFormed, ?_⟩, ?_, ⟨one, ranOne, repOne.wellFormed, ?_⟩⟩
  · cases ranTwo
    rfl
  · obtain ⟨l', switched⟩ : ∃ l', four.llistSwitch (some 1) = some l' := by
      cases ranFour
      exact ⟨_, rfl⟩
    exact ⟨four, l', ranFour, repFour.wellFormed, switched,
      @switch_middle _ _ _ 1 0 2 20 10 30 [] [(3, 40)] repFour.wellFormed switched⟩
  · cases ranOne
    rfl

end Switch

end Operativsystem.Resources.LList

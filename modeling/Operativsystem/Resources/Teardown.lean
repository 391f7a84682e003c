import Operativsystem.Resources.ListCursor

/-! # Tearing a list down

`llist_free` and `llist_free_slist` free the data, the nodes, the sentinels and the list itself. A datum that
has been freed cannot be read or freed again, nor can a node; the calls of `free` are recorded. Both loops hold
the next position only, which `llist_remove` returns.
-/

namespace Operativsystem.Resources

open Segment LList

/-- What `free` is called with: a datum, a server name, a node, a sentinel, or the list itself. -/
inductive Allocation where
  | datum (a : Addr)
  | servername (a : Addr)
  | node (a : Addr)
  | head
  | tail
  | list
deriving DecidableEq, Repr

/-- `SLISTSERVERS_struct`; of its members only this one is read. -/
structure SlistServers where
  servername : Addr
deriving DecidableEq, Repr

/-- The data and the server names that are allocated, and the calls of `free`. -/
structure Allocations (β : Type) where
  data : Addr → Option β
  names : Addr → Bool
  freed : List Allocation

namespace Allocations

variable {β : Type}

def freeDatum (m : Allocations β) (a : Addr) : Option (Allocations β) := do
  let _ ← m.data a
  some { m with data := Function.update m.data a none, freed := m.freed ++ [.datum a] }

def freeName (m : Allocations β) (a : Addr) : Option (Allocations β) :=
  if m.names a then some { m with names := Function.update m.names a false, freed := m.freed ++ [.servername a] }
  else none

end Allocations

section Definitions

variable {β : Type}

/-- `llist_remove`, which frees the node unless the list is empty. -/
def remove (l : LList Addr) (m : Allocations β) (p : Ptr) : Option (LList Addr × Allocations β × Ptr) := do
  let released := if l.llistIsEmpty then [] else p.toList.map Allocation.node
  let (l, next) ← l.llistRemove p
  some (l, { m with freed := m.freed ++ released }, next)

/-- One turn of the loop of `llist_free`. -/
def freeBody (l : LList Addr) (m : Allocations β) (p : Ptr) : Option (LList Addr × Allocations β × Ptr) := do
  let n ← l.node p
  let m ← m.freeDatum n.data
  remove l m p

/-- `while(p != NULL)`; `none` also when `fuel` turns are not enough. -/
def freeLoop : ℕ → LList Addr → Allocations β → Ptr → Option (LList Addr × Allocations β)
  | _, l, m, none => some (l, m)
  | 0, _, _, some _ => none
  | fuel + 1, l, m, some a => do
    let (l, m, p) ← freeBody l m (some a)
    freeLoop fuel l m p

def freeList (m : Allocations β) : Allocations β := { m with freed := m.freed ++ [.head, .tail, .list] }

def llistFree (fuel : ℕ) (l : LList Addr) (m : Allocations β) : Option (Allocations β) := do
  let (_, m) ← freeLoop fuel l m l.llistFirst
  some (freeList m)

/-- One turn of the loop of `llist_free_slist`: `temp` is the datum at `p`. -/
def slistBody (l : LList Addr) (m : Allocations SlistServers) (p : Ptr) (temp : Option Addr) :
    Option (LList Addr × Allocations SlistServers × Ptr × Option Addr) := do
  let a ← temp
  let server ← m.data a
  let m ← m.freeName server.servername
  let n ← l.node p
  let m ← m.freeDatum n.data
  let (l, m, p) ← remove l m p
  if l.llistIsEmpty then some (l, m, p, temp)
  else
    let (l, temp) ← l.llistInspect p
    some (l, m, p, temp)

def slistLoop : ℕ → LList Addr → Allocations SlistServers → Ptr → Option Addr →
    Option (LList Addr × Allocations SlistServers)
  | _, l, m, none, _ => some (l, m)
  | 0, _, _, some _, _ => none
  | fuel + 1, l, m, some a, temp => do
    let (l, m, p, temp) ← slistBody l m (some a) temp
    slistLoop fuel l m p temp

def llistFreeSlist (fuel : ℕ) (l : LList Addr) (m : Allocations SlistServers) :
    Option (Allocations SlistServers) := do
  let p := l.llistFirst
  let (l, temp) ← l.llistInspect p
  let (_, m) ← slistLoop fuel l m p temp
  some (freeList m)

end Definitions

/-- What the loop of `llist_free` frees, in this order. -/
def torn (cells : List (Addr × Addr)) : List Allocation :=
  cells.flatMap fun cell => [.datum cell.2, .node cell.1]

/-- What the loop of `llist_free_slist` frees; `name` gives the server name of a datum. -/
def tornSlist (name : Addr → Addr) (cells : List (Addr × Addr)) : List Allocation :=
  cells.flatMap fun cell => [.servername (name cell.2), .datum cell.2, .node cell.1]

section Loops

variable {β : Type} {l : LList Addr} {cells : List (Addr × Addr)} {a d : Addr}

theorem remove_spec (rep : Represents l ((a, d) :: cells)) (m : Allocations β) :
    ∃ l', remove l m (some a) = some (l', { m with freed := m.freed ++ [.node a] }, first cells none) ∧
      Represents l' cells := by
  obtain ⟨l', removed, rep'⟩ := @llistRemove_spec _ l [] cells a d rep
  have nonempty : l.llistIsEmpty = false := by
    simpa using mt rep.isEmpty_iff.mp (List.cons_ne_nil _ _)
  refine ⟨l', ?_, rep'⟩
  simp [remove, nonempty, removed]

theorem freeBody_spec (rep : Represents l ((a, d) :: cells)) (m : Allocations β) (live : (m.data d).isSome) :
    ∃ l', freeBody l m (some a) = some (l', ⟨Function.update m.data d none, m.names,
        m.freed ++ [.datum d, .node a]⟩, first cells none) ∧ Represents l' cells := by
  obtain ⟨value, live⟩ := Option.isSome_iff_exists.mp live
  have read : l.node (some a) = some ⟨d, first cells none, none⟩ := @Linked.node_eq _ l [] cells a d rep.toLinked
  obtain ⟨l', removed, rep'⟩ := remove_spec rep
    { m with data := Function.update m.data d none, freed := m.freed ++ [.datum d] }
  refine ⟨l', ?_, rep'⟩
  simp [freeBody, read, Allocations.freeDatum, live, removed]

/-- Each turn frees the datum and the node of the first cell that is left. -/
theorem freeLoop_spec (rep : Represents l cells) (m : Allocations β) (distinct : (cells.map Prod.snd).Nodup)
    (live : ∀ d ∈ cells.map Prod.snd, (m.data d).isSome) {fuel : ℕ} (enough : cells.length ≤ fuel) :
    ∃ l' m', freeLoop fuel l m (first cells none) = some (l', m') ∧ Represents l' [] ∧
      m'.freed = m.freed ++ torn cells ∧ ∀ d ∉ cells.map Prod.snd, m'.data d = m.data d := by
  induction cells generalizing l m fuel with
  | nil => exact ⟨l, m, by cases fuel <;> rfl, rep, by simp [torn], fun _ _ => rfl⟩
  | cons cell cells ih =>
    obtain ⟨a, d⟩ := cell
    obtain ⟨fuel, rfl⟩ := Nat.exists_eq_add_of_le' ((Nat.succ_pos _).trans_le enough)
    obtain ⟨outside, distinct⟩ := List.nodup_cons.mp distinct
    obtain ⟨l₁, turn, rep₁⟩ := freeBody_spec rep m (live d List.mem_cons_self)
    have live₁ : ∀ e ∈ cells.map Prod.snd, (Function.update m.data d none e).isSome := by
      intro e member
      have apart : e ≠ d := ne_of_mem_of_not_mem member outside
      rw [Function.update_of_ne apart]
      exact live e (List.mem_cons_of_mem _ member)
    obtain ⟨l', m', loop, empty, freed, kept⟩ := ih rep₁
      ⟨Function.update m.data d none, m.names, m.freed ++ [.datum d, .node a]⟩ distinct live₁
      (Nat.le_of_succ_le_succ enough)
    refine ⟨l', m', ?_, empty, ?_, fun e other => ?_⟩
    · simp [freeLoop, turn, loop]
    · simp [freed, torn]
    · obtain ⟨apart, other⟩ := not_or.mp (mt List.mem_cons.mpr other)
      exact (kept e other).trans (Function.update_of_ne apart ..)

/-- The datum that the loop of `llist_free_slist` reads next. -/
def Inspected (cells : List (Addr × Addr)) (temp : Option Addr) : Prop :=
  ∀ a d rest, cells = (a, d) :: rest → temp = some d

theorem inspect_first (rep : Represents l cells) (nonempty : cells ≠ []) :
    ∃ temp, l.llistInspect (first cells none) = some (l, temp) ∧ Inspected cells temp := by
  cases cells with
  | nil => exact absurd rfl nonempty
  | cons cell rest =>
    obtain ⟨a, d⟩ := cell
    refine ⟨some d, ?_, fun _ _ _ same => by cases same; rfl⟩
    have read : Cursor.datum ((a, d) :: rest) (some a) = some d :=
      @Cursor.datum_split _ [] rest a d List.not_mem_nil
    rw [first_cons, llistInspect_spec rep nonempty, read]
    rfl

theorem slistBody_spec (rep : Represents l ((a, d) :: cells)) (m : Allocations SlistServers) {name : Addr}
    (live : m.data d = some ⟨name⟩) (named : m.names name = true) :
    ∃ l' temp, slistBody l m (some a) (some d) = some (l', ⟨Function.update m.data d none,
        Function.update m.names name false, m.freed ++ [.servername name, .datum d, .node a]⟩,
          first cells none, temp) ∧ Represents l' cells ∧ Inspected cells temp := by
  have read : l.node (some a) = some ⟨d, first cells none, none⟩ := @Linked.node_eq _ l [] cells a d rep.toLinked
  obtain ⟨l', removed, rep'⟩ := remove_spec rep
    ⟨Function.update m.data d none, Function.update m.names name false, m.freed ++ [.servername name, .datum d]⟩
  by_cases empty : cells = []
  · have ended : l'.llistIsEmpty = true := rep'.isEmpty_iff.mpr empty
    refine ⟨l', some d, ?_, rep', fun _ _ _ same => absurd (empty.symm.trans same) (List.cons_ne_nil _ _).symm⟩
    simp [slistBody, live, Allocations.freeName, named, read, Allocations.freeDatum, removed, ended]
  · have more : l'.llistIsEmpty = false := by simpa using mt rep'.isEmpty_iff.mp empty
    obtain ⟨temp, inspected, found⟩ := inspect_first rep' empty
    refine ⟨l', temp, ?_, rep', found⟩
    simp [slistBody, live, Allocations.freeName, named, read, Allocations.freeDatum, removed, more, inspected]

/-- Each turn frees the server name, the datum and the node of the first cell that is left. -/
theorem slistLoop_spec (rep : Represents l cells) (m : Allocations SlistServers) (name : Addr → Addr)
    (distinct : (cells.map Prod.snd).Nodup) (distinctNames : (cells.map fun cell => name cell.2).Nodup)
    (live : ∀ d ∈ cells.map Prod.snd, m.data d = some ⟨name d⟩ ∧ m.names (name d) = true) {temp : Option Addr}
    (found : Inspected cells temp) {fuel : ℕ} (enough : cells.length ≤ fuel) :
    ∃ l' m', slistLoop fuel l m (first cells none) temp = some (l', m') ∧ Represents l' [] ∧
      m'.freed = m.freed ++ tornSlist name cells := by
  induction cells generalizing l m temp fuel with
  | nil => exact ⟨l, m, by cases fuel <;> rfl, rep, by simp [tornSlist]⟩
  | cons cell cells ih =>
    obtain ⟨a, d⟩ := cell
    obtain ⟨fuel, rfl⟩ := Nat.exists_eq_add_of_le' ((Nat.succ_pos _).trans_le enough)
    obtain ⟨outside, distinct⟩ := List.nodup_cons.mp distinct
    obtain ⟨outsideNames, distinctNames⟩ := List.nodup_cons.mp distinctNames
    obtain ⟨datum, named⟩ := live d List.mem_cons_self
    obtain ⟨l₁, temp₁, turn, rep₁, found₁⟩ := slistBody_spec rep m datum named
    rw [← found a d cells rfl] at turn
    have live₁ : ∀ e ∈ cells.map Prod.snd, Function.update m.data d none e = some ⟨name e⟩ ∧
        Function.update m.names (name d) false (name e) = true := by
      intro e member
      have apart : e ≠ d := ne_of_mem_of_not_mem member outside
      have apartNames : name e ≠ name d := by
        obtain ⟨cell, inside, rfl⟩ := List.mem_map.mp member
        exact fun same => outsideNames (List.mem_map.mpr ⟨cell, inside, same⟩)
      rw [Function.update_of_ne apart, Function.update_of_ne apartNames]
      exact live e (List.mem_cons_of_mem _ member)
    obtain ⟨l', m', loop, empty, freed⟩ := ih rep₁ ⟨Function.update m.data d none,
      Function.update m.names (name d) false, m.freed ++ [.servername (name d), .datum d, .node a]⟩ distinct
      distinctNames live₁ found₁ (Nat.le_of_succ_le_succ enough)
    exact ⟨l', m', by simp [slistLoop, turn, loop], empty, by simp [freed, tornSlist]⟩

end Loops

/-- What belongs to a list: its data, its nodes, the sentinels and the list itself. -/
def Belongs (cells : List (Addr × Addr)) : Allocation → Prop
  | .datum d => d ∈ cells.map Prod.snd
  | .servername _ => False
  | .node a => a ∈ cells.map Prod.fst
  | .head => True
  | .tail => True
  | .list => True

/-- The same with the server names of the data. -/
def BelongsSlist (name : Addr → Addr) (cells : List (Addr × Addr)) : Allocation → Prop
  | .servername n => n ∈ cells.map fun cell => name cell.2
  | x => Belongs cells x

/-- Everything of a kind is freed exactly once, and nothing else is. -/
def FreesExactly (freed : List Allocation) (P : Allocation → Prop) : Prop := freed.Nodup ∧ ∀ x, x ∈ freed ↔ P x

section Exactly

variable {cells : List (Addr × Addr)} {name : Addr → Addr}

theorem nodup_freeList {parts : List Allocation} (once : parts.Nodup)
    (others : ∀ x ∈ parts, x ≠ .head ∧ x ≠ .tail ∧ x ≠ .list) :
    (parts ++ [Allocation.head, .tail, .list]).Nodup := by
  rw [List.nodup_append]
  refine ⟨once, by simp, fun x inside y last same => ?_⟩
  obtain ⟨head, tail, list⟩ := others x inside
  subst same
  simp [head, tail, list] at last

theorem torn_exactly (nodes : (cells.map Prod.fst).Nodup) (data : (cells.map Prod.snd).Nodup) :
    FreesExactly (torn cells ++ [.head, .tail, .list]) (Belongs cells) := by
  constructor
  · refine nodup_freeList (List.nodup_flatMap.mpr ⟨by simp, ?_⟩) fun x inside => ?_
    · rw [List.nodup_iff_pairwise_ne, List.pairwise_map] at nodes data
      refine (nodes.and data).imp fun apart => ?_
      simp [Function.onFun, Ne.symm apart.1, Ne.symm apart.2]
    · obtain ⟨cell, -, freed⟩ := List.mem_flatMap.mp inside
      obtain rfl | rfl : x = .datum cell.2 ∨ x = .node cell.1 := by simpa using freed
      all_goals simp
  · intro x
    cases x <;> simp [torn, Belongs]

theorem tornSlist_exactly (nodes : (cells.map Prod.fst).Nodup) (data : (cells.map Prod.snd).Nodup)
    (names : (cells.map fun cell => name cell.2).Nodup) :
    FreesExactly (tornSlist name cells ++ [.head, .tail, .list]) (BelongsSlist name cells) := by
  constructor
  · refine nodup_freeList (List.nodup_flatMap.mpr ⟨by simp, ?_⟩) fun x inside => ?_
    · rw [List.nodup_iff_pairwise_ne, List.pairwise_map] at nodes data names
      refine ((nodes.and data).and names).imp fun apart => ?_
      simp [Function.onFun, Ne.symm apart.1.1, Ne.symm apart.1.2, Ne.symm apart.2]
    · obtain ⟨cell, -, freed⟩ := List.mem_flatMap.mp inside
      obtain rfl | rfl | rfl : x = .servername (name cell.2) ∨ x = .datum cell.2 ∨ x = .node cell.1 := by
        simpa using freed
      all_goals simp
  · intro x
    cases x <;> simp [tornSlist, BelongsSlist, Belongs, eq_comm]

end Exactly

/-- Tearing down a list of distinct live data ends after as many turns as it has nodes; it frees the data, the
server names, the nodes, the sentinels and the list itself exactly once and nothing else. -/
theorem teardown_frees (l : LList Addr) (cells : List (Addr × Addr)) (rep : Represents l cells)
    (distinct : (cells.map Prod.snd).Nodup) :
    (∀ (β : Type) (m : Allocations β), (∀ d ∈ cells.map Prod.snd, (m.data d).isSome) →
      ∀ fuel, cells.length ≤ fuel → ∃ m' freed, llistFree fuel l m = some m' ∧ m'.freed = m.freed ++ freed ∧
        FreesExactly freed (Belongs cells)) ∧
      ∀ (m : Allocations SlistServers) (name : Addr → Addr), cells ≠ [] →
        (cells.map fun cell => name cell.2).Nodup →
          (∀ d ∈ cells.map Prod.snd, m.data d = some ⟨name d⟩ ∧ m.names (name d) = true) →
            ∀ fuel, cells.length ≤ fuel → ∃ m' freed, llistFreeSlist fuel l m = some m' ∧
              m'.freed = m.freed ++ freed ∧ FreesExactly freed (BelongsSlist name cells) := by
  have head : l.llistFirst = first cells none := rep.head
  constructor
  · intro β m live fuel enough
    obtain ⟨l', m', loop, -, freed, -⟩ := freeLoop_spec rep m distinct live enough
    refine ⟨freeList m', _, ?_, ?_, torn_exactly rep.distinct distinct⟩
    · simp [llistFree, head, loop]
    · rw [freeList, freed, List.append_assoc]
  · intro m name nonempty distinctNames live fuel enough
    obtain ⟨temp, inspected, found⟩ := inspect_first rep nonempty
    obtain ⟨l', m', loop, -, freed⟩ := slistLoop_spec rep m name distinct distinctNames live found enough
    refine ⟨freeList m', _, ?_, ?_, tornSlist_exactly rep.distinct distinct distinctNames⟩
    · simp [llistFreeSlist, head, inspected, loop]
    · rw [freeList, freed, List.append_assoc]

/-- Two data with their server names. -/
def twoServers : Allocations SlistServers :=
  ⟨fun d => if d = 10 then some ⟨100⟩ else if d = 20 then some ⟨200⟩ else none, fun n => n = 100 ∨ n = 200, []⟩

theorem teardown_frees_two :
    ∃ l, Machine.run listStep llistEmpty [.insertlast 0 10, .insertlast 1 20] = some l ∧
      (∃ m' freed, llistFree 2 l twoServers = some m' ∧ m'.freed = [] ++ freed ∧
        FreesExactly freed (Belongs [(0, 10), (1, 20)])) ∧
      ∃ m' freed, llistFreeSlist 2 l twoServers = some m' ∧ m'.freed = [] ++ freed ∧
        FreesExactly freed (BelongsSlist (· * 10) [(0, 10), (1, 20)]) := by
  obtain ⟨l, ran, rep⟩ := exists_represents [(0, 10), (1, 20)] (by decide)
  obtain ⟨plain, slist⟩ := teardown_frees l _ rep (by decide)
  exact ⟨l, ran, plain _ twoServers (by decide) 2 le_rfl,
    slist twoServers (· * 10) (by simp) (by decide) (by decide) 2 le_rfl⟩

/-- The list itself is freed as well. -/
theorem teardown_frees_list :
    ∃ m', llistFree 0 llistEmpty twoServers = some m' ∧ Represents (llistEmpty : LList Addr) [] ∧
      ¬FreesExactly m'.freed fun x => Belongs [] x ∧ x ≠ .list := by
  refine ⟨_, rfl, represents_empty, fun exactly => ?_⟩
  have inside : Allocation.list ∈ (freeList twoServers).freed := by decide
  exact ((exactly.2 _).mp inside).2 rfl

end Operativsystem.Resources

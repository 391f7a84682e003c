import Operativsystem.Library.Segment
import Operativsystem.Library.Memory

/-! # The linked list of the resources directory

The list is a heap of nodes between two sentinels. Only `head->next` and `tail->previous` of the
sentinels are ever read, so the list keeps these two pointers, the nodes and whether its mutex
is held. Every operation returns `none` where the program would follow NULL or a released
pointer, or wait for a mutex that is already held. The address a `calloc` returns is an
argument: the allocator may choose any address that is not in use.
-/

namespace Operativsystem.Resources

open Segment Memory

/-- The `data` member of a PDU addresses plain bytes, a JOIN record or a QUIT record. -/
inductive PduData where
  | bytes (content : Bytes)
  | join (idLen : ℕ) (clientId : Bytes)
  | quit (sock : ℕ)
deriving DecidableEq, Repr

/-- `PDU_struct`; `dataBytes` is the 16-bit length member. -/
structure Pdu where
  opCode : Byte
  dataBytes : ℕ
  data : PduData
deriving DecidableEq, Repr

/-- What a data pointer of a list can address. -/
inductive Datum where
  | raw (content : Bytes)
  | pdu (value : Pdu)
deriving DecidableEq, Repr

/-- The allocations behind the data pointers. -/
abbrev Store := Addr → Option Datum

def Store.put (mem : Store) (a : Addr) (d : Datum) : Store := fun b => if b = a then some d else mem b

def Store.free (mem : Store) (a : Addr) : Store := fun b => if b = a then none else mem b

/-- `memcpy(temp, p, count)` from plain memory. -/
def Store.read (mem : Store) (a : Addr) (count : ℕ) : Option Bytes :=
  match mem a with
  | some (.raw content) => if count ≤ content.length then some (content.take count) else none
  | _ => none

/-- The `PDU_struct` at a data pointer. -/
def Store.readPdu (mem : Store) (a : Addr) : Option Pdu :=
  match mem a with
  | some (.pdu value) => some value
  | _ => none

structure LList (α : Type) where
  headNext : Ptr
  tailPrevious : Ptr
  heap : Heap α
  mtx : Bool

namespace LList

variable {α : Type}

def llistEmpty : LList α := ⟨none, none, fun _ => none, false⟩

/-- `pthread_mutex_lock`; a caller that finds the mutex held does not come back by itself. -/
def lock (l : LList α) : Option (LList α) := if l.mtx then none else some { l with mtx := true }

def unlock (l : LList α) : LList α := { l with mtx := false }

/-- Follow a pointer to a live node. -/
def node (l : LList α) (p : Ptr) : Option (Node α) := p.bind l.heap

/-- `p->next = value`. -/
def setNext (l : LList α) (p value : Ptr) : Option (LList α) := do
  let a ← p
  let n ← l.heap a
  some { l with heap := l.heap.set a (some { n with next := value }) }

/-- `p->previous = value`. -/
def setPrevious (l : LList α) (p value : Ptr) : Option (LList α) := do
  let a ← p
  let n ← l.heap a
  some { l with heap := l.heap.set a (some { n with previous := value }) }

/-- `free(p)` on a node. -/
def freeNode (l : LList α) (p : Ptr) : Option (LList α) := do
  let a ← p
  let _ ← l.heap a
  some { l with heap := l.heap.set a none }

def llistFirst (l : LList α) : Ptr := l.headNext

def llistLast (l : LList α) : Ptr := l.tailPrevious

def llistNext (l : LList α) (p : Ptr) : Option Ptr := (l.node p).map Node.next

def llistIsEmpty (l : LList α) : Bool := l.headNext.isNone

/-- `llist_inspect`: the data pointer at `p`; on an empty list NULL, and the mutex stays held. -/
def llistInspect (l : LList α) (p : Ptr) : Option (LList α × Option α) := do
  let l ← l.lock
  if l.llistIsEmpty then some (l, none)
  else
    let l := l.unlock
    let n ← l.node p
    some (l, some n.data)

/-- `createNewNode`: the fresh node at `a` has NULL neighbours. -/
def createNewNode (l : LList α) (a : Addr) (d : α) : Option (LList α) :=
  if (l.heap a).isSome then none
  else some { l with heap := l.heap.set a (some ⟨d, none, none⟩) }

def llistInsertfirst (l : LList α) (a : Addr) (d : α) : Option (LList α) := do
  let l ← l.lock
  let l ← l.createNewNode a d
  if l.llistIsEmpty then
    some (unlock { l with headNext := some a, tailPrevious := some a })
  else
    let l ← l.setNext (some a) l.headNext
    let l ← l.setPrevious l.headNext (some a)
    some (unlock { l with headNext := some a })

def llistInsertlast (l : LList α) (a : Addr) (d : α) : Option (LList α) := do
  let l ← l.lock
  let l ← l.createNewNode a d
  if l.llistIsEmpty then
    some (unlock { l with tailPrevious := some a, headNext := some a })
  else
    let l ← l.setPrevious (some a) l.tailPrevious
    let l ← l.setNext l.tailPrevious (some a)
    some (unlock { l with tailPrevious := some a })

/-- The four-way unlinking that the removal functions share, up to but excluding `free(p)`. -/
def unlink (l : LList α) (p : Ptr) : Option (LList α) := do
  let n ← l.node p
  if n.next ≠ none ∧ n.previous ≠ none then
    let l ← l.setNext n.previous n.next
    let n ← l.node p
    l.setPrevious n.next n.previous
  else if n.next = none ∧ n.previous = none then
    some { l with tailPrevious := n.previous, headNext := n.next }
  else if n.next = none then
    LList.setNext { l with tailPrevious := n.previous } n.previous none
  else
    LList.setPrevious { l with headNext := n.next } n.next none

/-- `llist_removefirst`: the integer behind the first data pointer, which is not released. -/
def llistRemovefirst (l : LList Addr) (mem : Store) : Option (LList Addr × Bytes) := do
  let l ← l.lock
  let p := l.llistFirst
  let l ← l.unlink p
  let n ← l.node p
  let temp ← mem.read n.data 4
  let l ← l.freeNode p
  some (l.unlock, temp)

/-- `llist_removefirst_INT`: a pointer-sized copy of the first datum, which is released. -/
def llistRemovefirstInt (l : LList Addr) (mem : Store) : Option (LList Addr × Store × Bytes) := do
  let l ← l.lock
  let p := l.llistFirst
  let l ← l.unlink p
  let n ← l.node p
  let temp ← mem.read n.data 8
  let l ← l.freeNode p
  some (l.unlock, mem.free n.data, temp)

/-- The deep copy of `llist_removefirst_PDU`: `dataBytes` bytes in a zeroed buffer one longer. -/
def copyPdu (pdu : Pdu) : Option Pdu :=
  match pdu.data with
  | .bytes content =>
    if pdu.dataBytes ≤ content.length then
      some ⟨pdu.opCode, pdu.dataBytes, .bytes (content.take pdu.dataBytes ++ [0])⟩
    else none
  | _ => none

/-- `llist_removefirst_PDU`: a deep copy of the first PDU; the original is released. -/
def llistRemovefirstPdu (l : LList Addr) (mem : Store) : Option (LList Addr × Store × Pdu) := do
  let l ← l.lock
  let p := l.llistFirst
  let l ← l.unlink p
  let n ← l.node p
  let pdu ← mem.readPdu n.data
  let copy ← copyPdu pdu
  let l ← l.freeNode p
  some (l.unlock, mem.free n.data, copy)

/-- `llist_remove`: unlink and release the node at `p`; its successor is returned. -/
def llistRemove (l : LList α) (p : Ptr) : Option (LList α × Ptr) := do
  let l ← l.lock
  if l.llistIsEmpty then some (l.unlock, p)
  else
    let n ← l.node p
    let nextpos := n.next
    let l ← l.unlink p
    let l ← l.freeNode p
    some (l.unlock, nextpos)

/-- The counting loop of `list_length`; `none` also when `fuel` nodes do not reach the end. -/
def countFrom (heap : Heap α) : ℕ → Ptr → Option ℕ
  | _, none => some 0
  | 0, some _ => none
  | fuel + 1, some a => do
    let n ← heap a
    let rest ← countFrom heap fuel n.next
    some (rest + 1)

def listLength (fuel : ℕ) (l : LList α) : Option (LList α × ℕ) := do
  let l ← l.lock
  let count ← countFrom l.heap fuel l.headNext
  some (l.unlock, count)

end LList

end Operativsystem.Resources

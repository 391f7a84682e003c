import Operativsystem.Library.Machine
import Operativsystem.Resources.Teardown

/-! # Giving the lock back

Every list operation takes the mutex of the list and gives it back on its own. One of them does not on one of
its ways out: `llist_inspect` returns from an empty list while it holds the mutex.
-/

namespace Operativsystem.Resources

open Segment LList Machine

/-- A list and what its data pointers address. -/
structure ListState where
  list : LList Addr
  mem : Allocations SlistServers

/-- One call on the list: an insertion or removal, `llist_inspect`, `llist_remove`, `list_length`, or one turn of
the loop of `llist_free` or `llist_free_slist`. -/
inductive ListCall where
  | op (op : ListOp)
  | inspect (p : Ptr)
  | remove (p : Ptr)
  | length (fuel : ℕ)
  | freeBody (p : Ptr)
  | slistBody (p : Ptr) (temp : Option Addr)

def callStep (s : ListState) : ListCall → Option ListState
  | .op op => (listStep s.list op).map fun l => { s with list := l }
  | .inspect p => (s.list.llistInspect p).map fun result => { s with list := result.1 }
  | .remove p => (s.list.llistRemove p).map fun result => { s with list := result.1 }
  | .length fuel => (s.list.listLength fuel).map fun result => { s with list := result.1 }
  | .freeBody p => (freeBody s.list s.mem p).map fun result => ⟨result.1, result.2.1⟩
  | .slistBody p temp => (slistBody s.list s.mem p temp).map fun result => ⟨result.1, result.2.1⟩

/-- The next operation can acquire the mutex. -/
def Available (s : ListState) : Prop := s.list.lock.isSome

/-- An inspection finds the list nonempty. -/
def InspectsNonempty (s : ListState) : ListCall → Prop
  | .inspect _ => s.list.llistIsEmpty = false
  | _ => True

section Release

variable {α β : Type} {l l' : LList α} {p : Ptr} {a : Addr} {d : α}

theorem lock_isSome : l.lock.isSome ↔ l.mtx = false := by
  cases held : l.mtx <;> simp [lock, held]

theorem llistInsertfirst_unlocked (taken : l.llistInsertfirst a d = some l') : l'.mtx = false := by
  simp only [llistInsertfirst, Option.bind_eq_bind, Option.bind_eq_some_iff] at taken
  obtain ⟨_, -, _, -, taken⟩ := taken
  split_ifs at taken
  · cases taken
    rfl
  · simp only [Option.bind_eq_some_iff] at taken
    obtain ⟨_, -, _, -, same⟩ := taken
    cases same
    rfl

theorem llistInsertlast_unlocked (taken : l.llistInsertlast a d = some l') : l'.mtx = false := by
  simp only [llistInsertlast, Option.bind_eq_bind, Option.bind_eq_some_iff] at taken
  obtain ⟨_, -, _, -, taken⟩ := taken
  split_ifs at taken
  · cases taken
    rfl
  · simp only [Option.bind_eq_some_iff] at taken
    obtain ⟨_, -, _, -, same⟩ := taken
    cases same
    rfl

/-- The branch for an empty list gives the mutex back as well. -/
theorem llistRemove_unlocked {next : Ptr} (taken : l.llistRemove p = some (l', next)) : l'.mtx = false := by
  simp only [llistRemove, Option.bind_eq_bind, Option.bind_eq_some_iff] at taken
  obtain ⟨_, -, taken⟩ := taken
  split_ifs at taken
  · cases taken
    rfl
  · simp only [Option.bind_eq_some_iff] at taken
    obtain ⟨_, -, _, -, _, -, same⟩ := taken
    cases same
    rfl

/-- `llist_inspect` gives the mutex back exactly if the list is not empty. -/
theorem llistInspect_unlocked_iff {value : Option α} (taken : l.llistInspect p = some (l', value)) :
    l'.mtx = false ↔ l.llistIsEmpty = false := by
  simp only [llistInspect, Option.bind_eq_bind, Option.bind_eq_some_iff] at taken
  obtain ⟨held, locked, taken⟩ := taken
  obtain ⟨-, same⟩ := Option.ite_none_left_eq_some.mp locked
  cases same
  split_ifs at taken with empty
  · cases taken
    change l.llistIsEmpty = true at empty
    simp [empty]
  · simp only [Option.bind_eq_some_iff] at taken
    obtain ⟨_, -, same⟩ := taken
    cases same
    change ¬l.llistIsEmpty = true at empty
    exact iff_of_true rfl (by simpa using empty)

theorem listLength_unlocked {fuel count : ℕ} (taken : l.listLength fuel = some (l', count)) :
    l'.mtx = false := by
  simp only [listLength, Option.bind_eq_bind, Option.bind_eq_some_iff] at taken
  obtain ⟨_, -, _, -, same⟩ := taken
  cases same
  rfl

theorem removefirst_unlocked {l l' : LList Addr} {mem : Store} :
    (∀ temp, l.llistRemovefirst mem = some (l', temp) → l'.mtx = false) ∧
      (∀ mem' temp, l.llistRemovefirstInt mem = some (l', mem', temp) → l'.mtx = false) ∧
        ∀ mem' pdu, l.llistRemovefirstPdu mem = some (l', mem', pdu) → l'.mtx = false := by
  refine ⟨fun temp taken => ?_, fun mem' temp taken => ?_, fun mem' pdu taken => ?_⟩
  · simp only [llistRemovefirst, Option.bind_eq_bind, Option.bind_eq_some_iff] at taken
    obtain ⟨_, -, _, -, _, -, _, -, _, -, same⟩ := taken
    cases same
    rfl
  · simp only [llistRemovefirstInt, Option.bind_eq_bind, Option.bind_eq_some_iff] at taken
    obtain ⟨_, -, _, -, _, -, _, -, _, -, same⟩ := taken
    cases same
    rfl
  · simp only [llistRemovefirstPdu, Option.bind_eq_bind, Option.bind_eq_some_iff] at taken
    obtain ⟨_, -, _, -, _, -, _, -, _, -, _, -, same⟩ := taken
    cases same
    rfl

theorem listStep_unlocked {l l' : LList Addr} {op : ListOp} (taken : listStep l op = some l') :
    l'.mtx = false := by
  cases op with
  | insertfirst a d => exact llistInsertfirst_unlocked taken
  | insertlast a d => exact llistInsertlast_unlocked taken
  | removefirst mem =>
    obtain ⟨_, called, rfl⟩ := Option.map_eq_some_iff.mp taken
    exact removefirst_unlocked.1 _ called
  | removefirstInt mem =>
    obtain ⟨_, called, rfl⟩ := Option.map_eq_some_iff.mp taken
    exact removefirst_unlocked.2.1 _ _ called
  | removefirstPdu mem =>
    obtain ⟨_, called, rfl⟩ := Option.map_eq_some_iff.mp taken
    exact removefirst_unlocked.2.2 _ _ called
  | remove i =>
    simp only [listStep, Option.bind_eq_bind, Option.bind_eq_some_iff] at taken
    obtain ⟨_, -, _, taken, same⟩ := taken
    cases same
    exact llistRemove_unlocked taken

theorem remove_unlocked {l l' : LList Addr} {m m' : Allocations β} {next : Ptr}
    (taken : remove l m p = some (l', m', next)) : l'.mtx = false := by
  simp only [remove, Option.bind_eq_bind, Option.bind_eq_some_iff] at taken
  obtain ⟨_, taken, same⟩ := taken
  cases same
  exact llistRemove_unlocked taken

theorem freeBody_unlocked {l l' : LList Addr} {m m' : Allocations β} {next : Ptr}
    (taken : freeBody l m p = some (l', m', next)) : l'.mtx = false := by
  simp only [freeBody, Option.bind_eq_bind, Option.bind_eq_some_iff] at taken
  obtain ⟨_, -, _, -, taken⟩ := taken
  exact remove_unlocked taken

/-- The loop looks whether the list is empty before it inspects the next datum. -/
theorem slistBody_unlocked {l l' : LList Addr} {m m' : Allocations SlistServers} {next : Ptr}
    {temp temp' : Option Addr} (taken : slistBody l m p temp = some (l', m', next, temp')) : l'.mtx = false := by
  simp only [slistBody, Option.bind_eq_bind, Option.bind_eq_some_iff] at taken
  obtain ⟨_, -, _, -, _, -, _, -, _, -, _, removed, taken⟩ := taken
  split_ifs at taken with empty
  · cases taken
    exact remove_unlocked removed
  · simp only [Option.bind_eq_some_iff] at taken
    obtain ⟨_, inspected, same⟩ := taken
    cases same
    exact (llistInspect_unlocked_iff inspected).mpr (by simpa using empty)

end Release

/-- One call leaves the mutex to the next one exactly if it does not inspect an empty list. -/
theorem callStep_available {s s' : ListState} {call : ListCall} (taken : callStep s call = some s') :
    Available s' ↔ InspectsNonempty s call := by
  rw [Available, lock_isSome]
  cases call with
  | op op =>
    obtain ⟨_, called, rfl⟩ := Option.map_eq_some_iff.mp taken
    exact iff_of_true (listStep_unlocked called) trivial
  | inspect p =>
    obtain ⟨_, called, rfl⟩ := Option.map_eq_some_iff.mp taken
    exact llistInspect_unlocked_iff called
  | remove p =>
    obtain ⟨_, called, rfl⟩ := Option.map_eq_some_iff.mp taken
    exact iff_of_true (llistRemove_unlocked called) trivial
  | length fuel =>
    obtain ⟨_, called, rfl⟩ := Option.map_eq_some_iff.mp taken
    exact iff_of_true (listLength_unlocked called) trivial
  | freeBody p =>
    obtain ⟨_, called, rfl⟩ := Option.map_eq_some_iff.mp taken
    exact iff_of_true (freeBody_unlocked called) trivial
  | slistBody p temp =>
    obtain ⟨_, called, rfl⟩ := Option.map_eq_some_iff.mp taken
    exact iff_of_true (slistBody_unlocked called) trivial

/-- A call on a list whose mutex is held does not come back. -/
theorem callStep_blocked {s : ListState} (unavailable : ¬Available s) (call : ListCall) :
    callStep s call = none := by
  have locked : s.list.lock = none := Option.not_isSome_iff_eq_none.mp unavailable
  have unremoved : ∀ p, s.list.llistRemove p = none := fun p => by simp [llistRemove, locked]
  cases call with
  | op op =>
    cases op with
    | insertfirst a d => simp [callStep, listStep, llistInsertfirst, locked]
    | insertlast a d => simp [callStep, listStep, llistInsertlast, locked]
    | removefirst mem => simp [callStep, listStep, llistRemovefirst, locked]
    | removefirstInt mem => simp [callStep, listStep, llistRemovefirstInt, locked]
    | removefirstPdu mem => simp [callStep, listStep, llistRemovefirstPdu, locked]
    | remove i => simp [callStep, listStep, unremoved]
  | inspect p => simp [callStep, llistInspect, locked]
  | remove p => simp [callStep, unremoved]
  | length fuel => simp [callStep, listLength, locked]
  | freeBody p => simp [callStep, Resources.freeBody, Resources.remove, unremoved]
  | slistBody p temp => simp [callStep, Resources.slistBody, Resources.remove, unremoved]

/-- The mutex is free after every call of a run exactly if no call inspects an empty list. -/
theorem lock_given_back (s t : ListState) (calls : List ListCall) (available : Available s)
    (ran : run callStep s calls = some t) :
    Throughout callStep Available s calls ↔ Steps callStep InspectsNonempty s calls :=
  @throughout_iff _ _ callStep InspectsNonempty (fun _ => True) Available (fun _ _ _ _ _ _ => trivial)
    (fun _ _ _ _ _ taken => callStep_available taken) s t calls trivial available ran

/-- Inserting, inspecting, counting and a turn of the freeing loop. -/
theorem lock_given_back_four :
    let s : ListState := ⟨llistEmpty, twoServers⟩
    let calls := [.op (.insertlast 0 10), .inspect (some 0), .length 1, .freeBody (some 0)]
    ∃ t, run callStep s calls = some t ∧ Throughout callStep Available s calls := by
  intro s calls
  obtain ⟨t, ran⟩ := Option.isSome_iff_exists.mp (show (run callStep s calls).isSome by decide)
  refine ⟨t, ran, (lock_given_back s t calls rfl ran).mpr ?_⟩
  exact .cons trivial rfl (.cons rfl rfl (.cons trivial rfl (.cons trivial rfl trivial)))

/-- After an inspection of an empty list no call comes back. -/
theorem inspect_keeps_lock :
    let s : ListState := ⟨llistEmpty, twoServers⟩
    ∃ t, Available s ∧ run callStep s [.inspect s.list.llistFirst] = some t ∧ ¬Available t ∧
      ∀ call, callStep t call = none := by
  refine ⟨⟨{ (llistEmpty : LList Addr) with mtx := true }, twoServers⟩, rfl, rfl, ?_, fun call => ?_⟩
  · exact mt lock_isSome.mp Bool.noConfusion
  · exact callStep_blocked (mt lock_isSome.mp Bool.noConfusion) call

end Operativsystem.Resources

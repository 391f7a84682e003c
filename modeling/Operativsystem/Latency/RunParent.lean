import Mathlib.Algebra.Ring.Int.Defs
import Mathlib.Data.Finset.Card
import Mathlib.Data.Rat.Defs

/-! # The loop of `run_parent`

While the application runs, `run_parent` goes through rounds: it writes a time stamp to each client, and polls
until it has read as many replies as there are clients. A client answers each stamp by the times before and
after its work. The parent tells the clients apart only by the pipes, and asks `poll` no longer for those that it
has heard in the round. The processes take their steps in any order, and time passes in between.
-/

namespace Operativsystem.Latency.Rounds

structure Timespec where
  tvSec : ℤ
  tvNsec : ℤ
deriving DecidableEq, Repr

/-- The nanoseconds of a time stamp. -/
def Timespec.time (t : Timespec) : ℤ := t.tvSec * 1000000000 + t.tvNsec

/-- `CLOCK_MONOTONIC`, that many nanoseconds after its start. -/
def clockGettime (clock : ℕ) : Timespec := ⟨clock / 1000000000, clock % 1000000000⟩

/-- The arithmetic of `unsigned int` and of `unsigned long long`. -/
def u32 (x : ℤ) : ℤ := x % 2 ^ 32
def u64 (x : ℤ) : ℤ := x % 2 ^ 64

def usecSince (start ended : Timespec) : ℤ :=
  let s := u64 (u64 (start.tvSec * 1000000000) + start.tvNsec)
  let e := u64 (u64 (ended.tvSec * 1000000000) + ended.tvNsec)
  u64 (e - s) / 1000

structure ReturnStamp where
  preWork : Timespec
  postWork : Timespec
deriving DecidableEq, Repr

/-- The members of `struct stats`, with rationals for the doubles. -/
structure Stats where
  n : ℚ
  mean : ℚ
  m2 : ℚ
  max : ℚ
deriving DecidableEq, Repr

def updateStats (stats : Stats) (val : ℤ) : Stats :=
  let x : ℚ := val
  let n := stats.n + 1
  let delta := x - stats.mean
  let mean := stats.mean + delta / n
  ⟨n, mean, stats.m2 + delta * (x - mean), if stats.max < x then x else stats.max⟩

/-- What `__read_ts` logs: the client, the stamp in `t1`, and what the client has sent. -/
structure Reply where
  client : ℕ
  start : Timespec
  rs : ReturnStamp
deriving DecidableEq, Repr

def Reply.delay (r : Reply) : ℤ := usecSince r.start r.rs.preWork
def Reply.workDelay (r : Reply) : ℤ := u64 (usecSince r.start r.rs.postWork - r.delay)

/-- What a client does next in the loop of `run_child`. -/
inductive ChildPc where
  | read
  | preWork
  | postWork
  | write
deriving DecidableEq, Repr

/-- A client: its stamp in `t1`, whether `ipfd` asks for its replies, its two pipes, the variables of
`run_child`, and as a history the stamps that it has answered with its answers. -/
structure Connection where
  t1 : Timespec
  pollin : Bool
  toChild : List Timespec
  toParent : List ReturnStamp
  pc : ChildPc
  ts : Timespec
  rs : ReturnStamp
  answered : List (Timespec × ReturnStamp)
deriving DecidableEq, Repr

/-- A step of `run_child`; the work lies between its two stamps. -/
def childStep (compress : Bool) (clock : ℕ) (c : Connection) : Option Connection :=
  match c.pc with
  | .read =>
    match c.toChild with
    | [] => none
    | ts :: rest => some { c with toChild := rest, ts, pc := .preWork }
  | .preWork =>
    some { c with rs := ⟨clockGettime clock, c.rs.postWork⟩, pc := if compress then .postWork else .write }
  | .postWork => some { c with rs := ⟨c.rs.preWork, clockGettime clock⟩, pc := .write }
  | .write =>
    let answered := c.answered ++ [(c.ts, c.rs)]
    some { c with toParent := c.toParent ++ [c.rs], pc := .read, answered }

/-- What `run_parent` does next: it sleeps, fills `ipfd`, stamps and writes to a client, polls, or goes through
the clients in `read_ts`; in the end it has left its loop. -/
inductive Parent where
  | sleep
  | arm
  | stamp (i : ℕ)
  | write (i : ℕ)
  | poll (pending : ℤ)
  | read (pending : ℤ) (revents : Finset ℕ) (i : ℕ) (nr : ℤ)
  | finished
deriving DecidableEq

/-- The test, with the replies logged in the rounds that are over and in the current one as a history. -/
structure Test where
  clock : ℕ
  parent : Parent
  connections : ℕ → Connection
  delayStats : Stats
  delayWorkStats : Stats
  rounds : List (List Reply)
  current : List Reply

/-- The memory of the processes may hold anything when `run_parent` is called. -/
def Test.start (clock : ℕ) (memory : ℕ → Connection) : Test where
  clock := clock
  parent := .sleep
  connections i := { memory i with toChild := [], toParent := [], pc := .read, answered := [] }
  delayStats := ⟨0, 0, 0, 0⟩
  delayWorkStats := ⟨0, 0, 0, 0⟩
  rounds := []
  current := []

def Test.set (s : Test) (i : ℕ) (c : Connection) : Test :=
  { s with connections := Function.update s.connections i c }

/-- `__read_ts` and `log_delay`. -/
def readTs (compress : Bool) (s : Test) (i : ℕ) : Option Test :=
  let c := s.connections i
  match c.toParent with
  | [] => none
  | rs :: rest =>
    let reply : Reply := ⟨i, c.t1, rs⟩
    let worked := if compress then updateStats s.delayWorkStats reply.workDelay else s.delayWorkStats
    some { s.set i { c with toParent := rest } with
      delayStats := updateStats s.delayStats reply.delay, delayWorkStats := worked,
      current := s.current ++ [reply] }

/-- The end of the body of the loop of `read_ts`, and after the loop the count of what is pending. -/
def Parent.next (pending : ℤ) (revents : Finset ℕ) (i : ℕ) (nr : ℤ) : Parent :=
  if nr = 0 then .poll (u32 (pending - revents.card)) else .read pending revents (i + 1) nr

def parentStep (clients : ℕ) (compress : Bool) (s : Test) : Option Test :=
  match s.parent with
  | .sleep => some { s with parent := .arm }
  | .arm =>
    let pollin i := if i < clients then true else (s.connections i).pollin
    some { s with connections := fun i => { s.connections i with pollin := pollin i }, parent := .stamp 0 }
  | .stamp i =>
    if i < clients then
      some { s.set i { s.connections i with t1 := clockGettime s.clock } with parent := .write i }
    else some { s with parent := .poll clients }
  | .write i =>
    let c := s.connections i
    some { s.set i { c with toChild := c.toChild ++ [c.t1] } with parent := .stamp (i + 1) }
  | .poll pending =>
    if pending = 0 then
      some { s with parent := .sleep, rounds := s.rounds ++ [s.current], current := [] }
    else none
  | .read pending revents i nr =>
    if i < clients then
      if i ∈ revents then do
        let s ← readTs compress (s.set i { s.connections i with pollin := false }) i
        some { s with parent := .next pending revents i (u32 (nr - 1)) }
      else some { s with parent := .next pending revents i nr }
    else some { s with parent := .poll (u32 (pending - revents.card)) }
  | .finished => none

/-- The application has ended, or `write`, `poll` or `read` fails. -/
def Parent.mayLeave : Parent → Bool
  | .sleep | .write _ => true
  | .poll pending => pending ≠ 0
  | .read _ revents i _ => i ∈ revents
  | _ => false

/-- What happens: time passes, the parent or a client takes a step, `poll` returns with some of the clients that
have replied, or the parent leaves its loop. -/
inductive Event where
  | tick (elapsed : ℕ)
  | parent
  | poll (revents : Finset ℕ)
  | leave
  | child (i : ℕ)
deriving DecidableEq

/-- `poll` reports clients that it was asked for and that have replied, at least one of them. -/
def Test.Ready (clients : ℕ) (s : Test) (revents : Finset ℕ) : Prop :=
  revents.Nonempty ∧ ∀ i ∈ revents,
    i < clients ∧ (s.connections i).pollin = true ∧ (s.connections i).toParent ≠ []

instance (clients : ℕ) (s : Test) (revents : Finset ℕ) : Decidable (s.Ready clients revents) :=
  inferInstanceAs (Decidable (_ ∧ _))

def pollStep (clients : ℕ) (s : Test) (revents : Finset ℕ) : Option Test :=
  match s.parent with
  | .poll pending =>
    if pending ≠ 0 ∧ s.Ready clients revents then
      some { s with parent := .read pending revents 0 revents.card }
    else none
  | _ => none

def testStep (clients : ℕ) (compress : Bool) (s : Test) : Event → Option Test
  | .tick elapsed => some { s with clock := s.clock + elapsed }
  | .parent => parentStep clients compress s
  | .poll revents => pollStep clients s revents
  | .leave => if s.parent.mayLeave then some { s with parent := .finished } else none
  | .child i => if i < clients then (childStep compress s.clock (s.connections i)).map (s.set i) else none

end Operativsystem.Latency.Rounds

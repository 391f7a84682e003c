import Operativsystem.Resources.RecvCalls

/-! # When `receive_pdu` returns

A loop is served if it asks for nothing, if one of its calls fails, or if a call that may deliver all that is
asked for finds as many bytes, after the bytes that the calls in front of it have consumed. A call of
`receive_pdu` returns if the stream has ended or all loops that it enters are served.
-/

namespace Operativsystem.Resources

open Memory

/-- The bytes that short deliveries consume. -/
def consumed (peek : Bool) (limits : List ℕ) : ℕ := if peek then 0 else (limits.map (· + 1)).sum

/-- The next call may deliver all that is asked for. -/
def Unlimited (asked : ℕ) : List RecvChoice → Prop
  | [] => True
  | .fail :: _ => False
  | .deliver limit :: _ => asked ≤ limit + 1

def LoopServed (asked : ℕ) (peek : Bool) (conn : Connection) : Prop :=
  asked = 0 ∨ ∃ limits later, conn.script = limits.map .deliver ++ later ∧
    (later.head? = some .fail ∨ Unlimited asked later ∧ asked + consumed peek limits ≤ conn.pending.length)

/-- The stream has ended, or the peeks and the two loops of the reader are served. -/
def CallServed (conn : Connection) : Prop :=
  conn.pending = [] ∨ LoopServed HEADERSIZE true conn ∧
    ∀ r script, Heard conn r → peekFull conn.script = some script →
      LoopServed r.asked r.peek ⟨conn.pending, script⟩ ∧
        ∀ header mid, readInto r.asked r.peek (calloc r.asked) ⟨conn.pending, script⟩ = some (header, mid) →
          LoopServed (r.body header) false mid

section Loops

variable {asked : ℕ} {peek : Bool} {buffer pending : Bytes} {script : List RecvChoice} {conn : Connection}

theorem consumed_cons (limit : ℕ) (limits : List ℕ) :
    consumed peek (limit :: limits) = (if peek then 0 else limit + 1) + consumed peek limits := by
  cases peek <;> simp [consumed]

theorem remaining_length (peek : Bool) (count : ℕ) (pending : Bytes) :
    (remaining peek count pending).length = pending.length - if peek then 0 else count := by
  cases peek <;> simp [remaining]

/-- A short delivery in front of the others. -/
theorem served_deliver {limit : ℕ} (short : min (min asked (limit + 1)) pending.length < asked) :
    (∃ limits later, .deliver limit :: script = limits.map RecvChoice.deliver ++ later ∧
        (later.head? = some .fail ∨ Unlimited asked later ∧ asked + consumed peek limits ≤ pending.length)) ↔
      ∃ limits later, script = limits.map RecvChoice.deliver ++ later ∧ (later.head? = some .fail ∨
        Unlimited asked later ∧ asked + consumed peek limits ≤
          (remaining peek (min (min asked (limit + 1)) pending.length) pending).length) := by
  have left (limits : List ℕ) : asked + consumed peek (limit :: limits) ≤ pending.length ↔
      asked + consumed peek limits ≤
        (remaining peek (min (min asked (limit + 1)) pending.length) pending).length := by
    rw [consumed_cons, remaining_length]
    cases peek
    · simp only [Bool.false_eq_true, if_false]
      omega
    · simp
  constructor
  · rintro ⟨limits, later, split, served⟩
    cases limits with
    | nil =>
      cases split
      rcases served with fails | ⟨full, enough⟩
      · cases fails
      · rw [Unlimited] at full
        have kept : consumed peek [] = 0 := by cases peek <;> rfl
        omega
    | cons first limits =>
      obtain ⟨same, tails⟩ := List.cons_eq_cons.mp split
      cases same
      exact ⟨limits, later, tails, served.imp_right fun ⟨full, enough⟩ => ⟨full, (left limits).mp enough⟩⟩
  · rintro ⟨limits, later, split, served⟩
    exact ⟨limit :: limits, later, by rw [split]; rfl,
      served.imp_right fun ⟨full, enough⟩ => ⟨full, (left limits).mpr enough⟩⟩

theorem readLoop_isSome : (readLoop asked peek script pending buffer).isSome ↔
    ∃ limits later, script = limits.map RecvChoice.deliver ++ later ∧
      (later.head? = some .fail ∨ Unlimited asked later ∧ asked + consumed peek limits ≤ pending.length) := by
  have nothing : consumed peek [] = 0 := by cases peek <;> rfl
  induction script generalizing pending buffer with
  | nil =>
    simp only [readLoop, Option.isSome_ite, List.nil_eq, List.append_eq_nil_iff, List.map_eq_nil_iff]
    constructor
    · intro enough
      exact ⟨[], [], ⟨rfl, rfl⟩, .inr ⟨trivial, by omega⟩⟩
    · rintro ⟨_, _, ⟨rfl, rfl⟩, fails | ⟨-, enough⟩⟩
      · cases fails
      · omega
  | cons choice script ih =>
    cases choice with
    | fail => exact iff_of_true rfl ⟨[], _, rfl, .inl rfl⟩
    | deliver limit =>
      have got : (pending.take (min asked (limit + 1))).length = min (min asked (limit + 1)) pending.length :=
        List.length_take
      simp only [readLoop, got]
      split_ifs with short
      · exact ih.trans (served_deliver short).symm
      · exact iff_of_true rfl ⟨[], _, rfl, .inr ⟨by rw [Unlimited]; omega, by omega⟩⟩

/-- A loop returns exactly if it is served. -/
theorem loopServed_iff : (readInto asked peek buffer conn).isSome ↔ LoopServed asked peek conn := by
  rw [readInto, LoopServed]
  split_ifs with nothing
  · exact iff_of_true rfl (.inl nothing)
  · rw [readLoop_isSome, or_iff_right nothing]

/-- The peeks return where the loop would, and at the end of the stream. -/
theorem peekOpCode_isSome : (peekOpCode script pending).isSome ↔
    pending = [] ∨ LoopServed HEADERSIZE true ⟨pending, script⟩ := by
  cases pending with
  | nil => exact iff_of_true (by rcases script with _ | ⟨_ | _, _⟩ <;> rfl) (.inl rfl)
  | cons b pending =>
    rw [or_iff_right (List.cons_ne_nil b pending), ← @loopServed_iff _ _ [], readInto, if_neg (by decide)]
    generalize ([] : Bytes) = buffer
    induction script generalizing buffer with
    | nil =>
      rw [peekOpCode, readLoop, Option.isSome_ite, Option.isSome_ite]
    | cons choice script ih =>
      cases choice with
      | fail => exact iff_of_true rfl rfl
      | deliver limit =>
        have same : min (limit + 1) (b :: pending).length < HEADERSIZE ↔
            ((b :: pending).take (min HEADERSIZE (limit + 1))).length < HEADERSIZE := by
          rw [List.length_take]
          omega
        simp only [peekOpCode, readLoop, same, remaining, if_true]
        split_ifs
        · exact ih _
        · exact iff_of_true rfl rfl

end Loops

/-- A call of `receive_pdu` returns exactly if it is served. -/
theorem callServed_iff (sock : ℕ) (conn : Connection) : (receivePdu sock conn).isSome ↔ CallServed conn := by
  constructor
  · intro returns
    obtain ⟨out, ran⟩ := Option.isSome_iff_exists.mp returns
    obtain ⟨peeked, peek, -⟩ := Option.bind_eq_some_iff.mp ran
    refine (peekOpCode_isSome.mp (Option.isSome_of_eq_some peek)).imp_right fun peeks => ⟨peeks, ?_⟩
    intro r script heard full
    rw [receivePdu_heard heard full] at ran
    obtain ⟨result, ran, -⟩ := Option.map_eq_some_iff.mp ran
    obtain ⟨header, mid, body, first, second, -⟩ := r.run_pdu ran
    refine ⟨loopServed_iff.mp (Option.isSome_of_eq_some first), fun header' mid' first' => ?_⟩
    cases first.symm.trans first'
    exact loopServed_iff.mp (Option.isSome_of_eq_some second)
  · intro served
    have peeks := peekOpCode_isSome.mpr (served.imp_right And.left)
    obtain ⟨⟨opCode | early, mid⟩, peek⟩ := Option.isSome_iff_exists.mp peeks
    · obtain ⟨head, enough, kept, full⟩ := peekOpCode_inl peek
      cases found : readerOf opCode with
      | none =>
        have returned : receivePdu sock conn = some (.null, mid) := by
          simp only [receivePdu, peek, readExactly_run, found, Option.bind_eq_bind, Option.bind_some,
            Option.elim_none]
        exact Option.isSome_of_eq_some returned
      | some r =>
        have heard : Heard conn r := ⟨enough, by rw [full]; rfl, by rw [head, Option.bind_some, found]⟩
        rcases served with empty | ⟨-, loops⟩
        · rw [empty] at head
          cases head
        · obtain ⟨first, second⟩ := loops r _ heard full
          obtain ⟨⟨header, after⟩, first⟩ := Option.isSome_iff_exists.mp (loopServed_iff.mpr first)
          obtain ⟨⟨body, next⟩, second⟩ := Option.isSome_iff_exists.mp
            (@loopServed_iff _ _ (calloc (r.body header + r.spare)) _ |>.mpr (second header after first))
          rw [receivePdu_heard heard full, Reader.run, first]
          simp only [Option.bind_eq_bind, Option.bind_some, second]
          rfl
    · have returned : receivePdu sock conn = some (early, mid) := by
        simp only [receivePdu, peek, Option.bind_eq_bind, Option.bind_some]
      exact Option.isSome_of_eq_some returned

section Progress

variable {sock : ℕ} {conn next : Connection} {r : Reader} {opCode : Byte}

/-- No more is pending than before, and no more of the script is left. -/
structure Shrinks (conn next : Connection) : Prop where
  pending : next.pending.length ≤ conn.pending.length
  script : next.script.length ≤ conn.script.length

theorem Shrinks.trans {mid : Connection} (first : Shrinks conn mid) (second : Shrinks mid next) :
    Shrinks conn next :=
  ⟨second.pending.trans first.pending, second.script.trans first.script⟩

theorem readLoop_shrinks {asked : ℕ} {peek : Bool} {script : List RecvChoice} {pending buffer out : Bytes}
    (ran : readLoop asked peek script pending buffer = some (out, next)) : Shrinks ⟨pending, script⟩ next := by
  induction script generalizing pending buffer with
  | nil =>
    simp only [readLoop, Option.ite_none_right_eq_some, Option.some.injEq, Prod.mk.injEq] at ran
    obtain ⟨-, -, rfl⟩ := ran
    exact ⟨(remaining_length ..).trans_le (Nat.sub_le ..), le_rfl⟩
  | cons choice script ih =>
    cases choice with
    | fail =>
      cases ran
      exact ⟨le_rfl, Nat.le_succ _⟩
    | deliver limit =>
      have taken (count : ℕ) :
          Shrinks ⟨pending, .deliver limit :: script⟩ ⟨remaining peek count pending, script⟩ :=
        ⟨(remaining_length ..).trans_le (Nat.sub_le ..), Nat.le_succ _⟩
      simp only [readLoop] at ran
      split_ifs at ran with short
      · exact (taken _).trans (ih ran)
      · cases ran
        exact taken _

theorem readInto_shrinks {asked : ℕ} {peek : Bool} {buffer out : Bytes}
    (ran : readInto asked peek buffer conn = some (out, next)) : Shrinks conn next := by
  rw [readInto] at ran
  split_ifs at ran
  · cases ran
    exact ⟨le_rfl, le_rfl⟩
  · exact readLoop_shrinks ran

/-- Peeks that end at once leave the rest of the script. -/
theorem peekOpCode_script {script : List RecvChoice} {pending : Bytes} {peeked : Byte ⊕ Received}
    (ran : peekOpCode script pending = some (peeked, next)) : next.script.length ≤ script.length - 1 := by
  induction script with
  | nil =>
    cases pending with
    | nil => cases ran; rfl
    | cons b pending =>
      simp only [peekOpCode, Option.ite_none_right_eq_some, Option.some.injEq, Prod.mk.injEq] at ran
      obtain ⟨-, -, rfl⟩ := ran
      rfl
  | cons choice script ih =>
    cases pending with
    | nil => cases choice <;> cases ran <;> exact le_rfl
    | cons b pending =>
      cases choice with
      | fail => cases ran; exact le_rfl
      | deliver limit =>
        rw [peekOpCode] at ran
        split_ifs at ran
        · exact (ih ran).trans (Nat.sub_le ..)
        · cases ran
          exact le_rfl

/-- A call that returns consumes a choice of the script, if there is one. -/
theorem receivePdu_shrinks {result : Received} (ran : receivePdu sock conn = some (result, next)) :
    next.pending.length ≤ conn.pending.length ∧ next.script.length ≤ conn.script.length - 1 := by
  obtain ⟨⟨peeked, mid⟩, peek, read⟩ := Option.bind_eq_some_iff.mp ran
  have script := peekOpCode_script peek
  cases peeked with
  | inr early =>
    cases read
    exact ⟨(congrArg List.length (peekOpCode_inr peek).1).le, script⟩
  | inl opCode =>
    have kept := congrArg List.length (peekOpCode_inl peek).2.2.1
    simp only [readExactly_run] at read
    cases found : readerOf opCode with
    | none =>
      rw [found] at read
      cases read
      exact ⟨kept.le, script⟩
    | some r =>
      rw [found] at read
      obtain ⟨⟨pdu, last⟩, read, same⟩ := Option.map_eq_some_iff.mp read
      cases same
      obtain ⟨header, after, body, first, second, -⟩ := r.run_pdu read
      have shrinks := (readInto_shrinks first).trans (readInto_shrinks second)
      exact ⟨shrinks.pending.trans kept.le, shrinks.script.trans script⟩

end Progress

end Operativsystem.Resources

import Operativsystem.Library.Text
import Operativsystem.Resources.PduUser

/-! # Keys and values from standard input

`client_send` reads a key, and for an INSERT a value, character by character into a cleared buffer. Its loops
are the same: the first character is stored before it is looked at, the others unless they are the newline, and
nothing bounds the index or asks for the end of the input. A store behind the buffer is recorded, and changes
memory that is not the buffer's.
-/

namespace Operativsystem.Client

open Memory Resources

/-- `getchar`; at the end of the input it returns EOF again and again. -/
def getchar : Bytes → Option Byte × Bytes
  | [] => (none, [])
  | c :: rest => (some c, rest)

/-- The `char` that is stored for EOF is -1. -/
def toChar (c : Option Byte) : Byte := c.getD 255

/-- The variables of a loop, what is left of the input, and the indices that were stored to. -/
structure Prompt where
  stdin : Bytes
  tempChar : Option Byte
  index : ℕ
  buffer : Bytes
  stores : List ℕ
deriving DecidableEq

namespace Prompt

def store (p : Prompt) : Prompt :=
  { p with buffer := p.buffer.set p.index (toChar p.tempChar), stores := p.stores ++ [p.index] }

/-- The first character goes into the buffer whatever it is. -/
def start (stdin : Bytes) : Prompt :=
  let (c, rest) := getchar stdin
  store ⟨rest, c, 0, calloc (MAXMESSLEN + 1), []⟩

def turn (p : Prompt) : Prompt :=
  let index := p.index + 1
  let (c, rest) := getchar p.stdin
  let p := { p with index := index, tempChar := c, stdin := rest }
  if c ≠ some newline then p.store else p

/-- `while(temp_char != '\n')`; `none` when `fuel` turns are not enough. -/
def loop : ℕ → Prompt → Option Prompt
  | 0, p => if p.tempChar ≠ some newline then none else some p
  | fuel + 1, p => if p.tempChar ≠ some newline then loop fuel p.turn else some p

end Prompt

/-- Reading one line: the key, in `case '3'` and `case '4'`. -/
def enter (fuel : ℕ) (stdin : Bytes) : Option Prompt := (Prompt.start stdin).loop fuel

/-- `case '2'`: the key and, behind it, the value. -/
def enterInsert (fuel : ℕ) (stdin : Bytes) : Option (Prompt × Prompt) := do
  let key ← enter fuel stdin
  let data ← enter fuel key.stdin
  some (key, data)

/-- The characters of the line, one after the other from an index on. -/
def writes : Bytes → ℕ → Bytes → Bytes
  | buffer, _, [] => buffer
  | buffer, i, c :: line => writes (buffer.set i c) (i + 1) line

section Reading

variable {line rest buffer : Bytes} {i : ℕ}

theorem writes_eq (pre old post : Bytes) (same : old.length = line.length) :
    writes (pre ++ old ++ post) pre.length line = pre ++ line ++ post := by
  induction line generalizing pre old with
  | nil => rw [List.length_eq_zero_iff.mp same, writes]
  | cons c line ih =>
    obtain ⟨b, old, rfl⟩ := List.exists_of_length_succ old same
    have set : (pre ++ b :: old ++ post).set pre.length c = pre ++ [c] ++ old ++ post := by simp
    have length : pre.length + 1 = (pre ++ [c]).length := by simp
    rw [writes, set, length, ih (pre ++ [c]) old (by simpa using same)]
    simp

/-- A loop that has a line in front of it stores the line and ends behind the newline. -/
theorem loop_line (unbroken : newline ∉ line) (rest : Bytes) {c : Option Byte} (running : c ≠ some newline)
    (buffer : Bytes) (i : ℕ) (stores : List ℕ) (fuel : ℕ) :
    Prompt.loop fuel ⟨line ++ newline :: rest, c, i, buffer, stores⟩ =
      if line.length < fuel then
        some ⟨rest, some newline, i + line.length + 1, writes buffer (i + 1) line,
          stores ++ List.range' (i + 1) line.length⟩
      else none := by
  induction line generalizing c buffer i stores fuel with
  | nil =>
    cases fuel with
    | zero => simp [Prompt.loop, running]
    | succ fuel => cases fuel <;> simp [Prompt.loop, running, Prompt.turn, getchar, writes]
  | cons b line ih =>
    obtain ⟨different, unbroken⟩ : newline ≠ b ∧ newline ∉ line := by simpa using unbroken
    cases fuel with
    | zero => simp [Prompt.loop, running]
    | succ fuel =>
      have turned : Prompt.turn ⟨b :: line ++ newline :: rest, c, i, buffer, stores⟩ =
          ⟨line ++ newline :: rest, some b, i + 1, buffer.set (i + 1) b, stores ++ [i + 1]⟩ := by
        simp [Prompt.turn, getchar, Prompt.store, toChar, Ne.symm different]
      rw [Prompt.loop, if_pos running, turned, ih unbroken (by simpa using Ne.symm different)]
      simp [writes, List.range'_succ, Nat.add_right_comm, Nat.add_assoc]

/-- Without a newline in the input the loop does not end. -/
theorem loop_endless (fuel : ℕ) (p : Prompt) (running : p.tempChar ≠ some newline)
    (endless : newline ∉ p.stdin) :
    p.loop fuel = none := by
  induction fuel generalizing p with
  | zero => rw [Prompt.loop, if_pos running]
  | succ fuel ih =>
    rw [Prompt.loop, if_pos running]
    obtain ⟨stdin, c, i, buffer, stores⟩ := p
    cases stdin with
    | nil =>
      exact ih _ (by simp [Prompt.turn, getchar, Prompt.store]) (by simp [Prompt.turn, getchar, Prompt.store])
    | cons b stdin =>
      obtain ⟨different, endless⟩ : newline ≠ b ∧ newline ∉ stdin := by simpa using endless
      have turned : Prompt.turn ⟨b :: stdin, c, i, buffer, stores⟩ =
          ⟨stdin, some b, i + 1, buffer.set (i + 1) b, stores ++ [i + 1]⟩ := by
        simp [Prompt.turn, getchar, Prompt.store, toChar, Ne.symm different]
      rw [turned]
      exact ih _ (by simpa using Ne.symm different) endless

end Reading

/-- The line is in the buffer: no store behind it, a terminator at its end, and the characters of the line, or
its first ones if it is too long. -/
def Prompt.Holds (p : Prompt) (line : Bytes) : Prop :=
  (∀ i ∈ p.stores, i < MAXMESSLEN) ∧ p.buffer.drop MAXMESSLEN = [0] ∧ cstr p.buffer = line.take MAXMESSLEN

/-- Reading a line comes to an end, within the buffer and with the line in it. -/
def ReadsLine (stdin : Bytes) : Prop :=
  ∃ fuel p, enter fuel stdin = some p ∧ p.Holds (stdin.takeWhile (· ≠ newline))

/-- The same for the key and the value of an INSERT. -/
def ReadsLines (stdin : Bytes) : Prop :=
  ∃ fuel key data, enterInsert fuel stdin = some (key, data) ∧ key.Holds (stdin.takeWhile (· ≠ newline)) ∧
    data.Holds (key.stdin.takeWhile (· ≠ newline))

/-- A line that is not empty, not longer than the buffer, and a text. -/
def Enterable (line : Bytes) : Prop := newline ∉ line ∧ line ≠ [] ∧ line.length ≤ MAXMESSLEN ∧ 0 ∉ line

section Lines

variable {line rest stdin : Bytes} {fuel : ℕ} {p : Prompt}

theorem line_eq (unbroken : newline ∉ line) (rest : Bytes) :
    (line ++ newline :: rest).takeWhile (· ≠ newline) = line := by
  rw [List.takeWhile_append_of_pos]
  · simp
  · intro b member
    simpa using ne_of_mem_of_not_mem member unbroken

/-- An empty line: the newline itself is in the buffer. -/
theorem enter_empty (fuel : ℕ) (rest : Bytes) :
    enter fuel (newline :: rest) = some ⟨rest, some newline, 0, newline :: calloc MAXMESSLEN, [0]⟩ := by
  have started : Prompt.start (newline :: rest) =
      ⟨rest, some newline, 0, newline :: calloc MAXMESSLEN, [0]⟩ := rfl
  rw [enter, started]
  cases fuel <;> simp [Prompt.loop]

theorem enter_line (unbroken : newline ∉ line) (nonempty : line ≠ []) (fuel : ℕ) (rest : Bytes) :
    enter fuel (line ++ newline :: rest) = if line.length ≤ fuel then
      some ⟨rest, some newline, line.length, writes (calloc (MAXMESSLEN + 1)) 0 line, List.range line.length⟩
      else none := by
  obtain ⟨c, line, rfl⟩ := List.exists_cons_of_ne_nil nonempty
  obtain ⟨different, unbroken⟩ : newline ≠ c ∧ newline ∉ line := by simpa using unbroken
  have started : Prompt.start (c :: line ++ newline :: rest) =
      ⟨line ++ newline :: rest, some c, 0, (calloc (MAXMESSLEN + 1)).set 0 c, [0]⟩ := rfl
  rw [enter, started, loop_line unbroken rest (by simpa using Ne.symm different), List.length_cons,
    List.range_eq_range', List.range'_succ, Nat.zero_add, Nat.add_comm line.length 1]
  simp only [Nat.lt_iff_add_one_le, Nat.add_comm line.length 1, writes, List.singleton_append]

theorem enter_endless (endless : newline ∉ stdin) (fuel : ℕ) : enter fuel stdin = none := by
  cases stdin with
  | nil => exact loop_endless fuel _ (by simp [Prompt.start, getchar, Prompt.store]) List.not_mem_nil
  | cons c stdin =>
    obtain ⟨different, endless⟩ : newline ≠ c ∧ newline ∉ stdin := by simpa using endless
    have started : Prompt.start (c :: stdin) = ⟨stdin, some c, 0, (calloc (MAXMESSLEN + 1)).set 0 c, [0]⟩ := rfl
    rw [enter, started]
    exact loop_endless fuel _ (by simpa using Ne.symm different) endless

/-- The buffer after a line that is not too long. -/
theorem writes_line (fits : line.length ≤ MAXMESSLEN) :
    writes (calloc (MAXMESSLEN + 1)) 0 line = line ++ calloc (MAXMESSLEN - line.length) ++ [0] := by
  have split : calloc (MAXMESSLEN + 1) = calloc line.length ++ (calloc (MAXMESSLEN - line.length) ++ [0]) := by
    rw [show MAXMESSLEN + 1 = line.length + (MAXMESSLEN - line.length + 1) by omega, calloc_add, calloc_add]
    rfl
  have written := writes_eq [] (calloc line.length) (calloc (MAXMESSLEN - line.length) ++ [0]) (calloc_length _)
  rw [List.nil_append, List.nil_append, ← split, ← List.append_assoc] at written
  exact written

/-- After the last character of a line, the buffer holds it exactly if it can be entered. -/
theorem holds_line (unbroken : newline ∉ line) (nonempty : line ≠ []) (rest : Bytes) (c : Option Byte) :
    Prompt.Holds ⟨rest, c, line.length, writes (calloc (MAXMESSLEN + 1)) 0 line, List.range line.length⟩ line ↔
      Enterable line := by
  have inside : (∀ i ∈ List.range line.length, i < MAXMESSLEN) ↔ line.length ≤ MAXMESSLEN := by
    refine ⟨fun bounded => ?_, fun fits i member => (List.mem_range.mp member).trans_le fits⟩
    by_contra long
    exact absurd (bounded MAXMESSLEN (List.mem_range.mpr (not_le.mp long))) (lt_irrefl _)
  rw [Prompt.Holds, Enterable, inside]
  constructor
  · rintro ⟨fits, -, text⟩
    rw [List.take_of_length_le fits] at text
    exact ⟨unbroken, nonempty, fits, text ▸ cstr_clean _⟩
  · rintro ⟨-, -, fits, clean⟩
    have front : (line ++ calloc (MAXMESSLEN - line.length)).length = MAXMESSLEN := by
      rw [List.length_append, calloc_length]
      omega
    have ended : calloc (MAXMESSLEN - line.length) ++ [0] = 0 :: calloc (MAXMESSLEN - line.length) :=
      (calloc_add _ 1).symm.trans (calloc_succ _)
    rw [writes_line fits, List.take_of_length_le fits]
    refine ⟨fits, List.drop_left' front, ?_⟩
    rw [List.append_assoc, ended]
    exact cstr_text clean _

end Lines

/-- A loop that holds the line at its end has read an enterable line, and stops behind its newline. -/
theorem enter_holds_iff {stdin : Bytes} {fuel : ℕ} {p : Prompt} :
    enter fuel stdin = some p ∧ p.Holds (stdin.takeWhile (· ≠ newline)) ↔
      ∃ line rest, stdin = line ++ newline :: rest ∧ Enterable line ∧ line.length ≤ fuel ∧
        p = ⟨rest, some newline, line.length, writes (calloc (MAXMESSLEN + 1)) 0 line,
          List.range line.length⟩ := by
  constructor
  · rintro ⟨entered, holds⟩
    have ended : newline ∈ stdin := by
      by_contra endless
      rw [enter_endless endless] at entered
      cases entered
    obtain ⟨line, rest, rfl, unbroken⟩ := List.eq_append_cons_of_mem ended
    rw [line_eq unbroken] at holds
    by_cases empty : line = []
    · subst empty
      rw [List.nil_append, enter_empty] at entered
      cases entered
      have text : cstr (newline :: calloc MAXMESSLEN) = [] := holds.2.2
      exact absurd text (by decide)
    · rw [enter_line unbroken empty] at entered
      obtain ⟨enough, same⟩ := Option.ite_none_right_eq_some.mp entered
      cases same
      exact ⟨line, rest, rfl, (holds_line unbroken empty rest _).mp holds, enough, rfl⟩
  · rintro ⟨line, rest, rfl, enterable, enough, rfl⟩
    obtain ⟨unbroken, nonempty, -, -⟩ := id enterable
    rw [enter_line unbroken nonempty, if_pos enough, line_eq unbroken]
    exact ⟨rfl, (holds_line unbroken nonempty rest _).mpr enterable⟩

/-- The loops of `client_send` read faithfully exactly if there are lines to read, and none of them is empty,
longer than the buffer or has a zero byte in it. -/
theorem prompts_read_iff (stdin : Bytes) :
    (ReadsLine stdin ↔ ∃ line rest, Enterable line ∧ stdin = line ++ newline :: rest) ∧
      (ReadsLines stdin ↔ ∃ line line' rest, Enterable line ∧ Enterable line' ∧
        stdin = line ++ newline :: (line' ++ newline :: rest)) := by
  constructor
  · constructor
    · rintro ⟨fuel, p, read⟩
      obtain ⟨line, rest, split, enterable, -⟩ := enter_holds_iff.mp read
      exact ⟨line, rest, enterable, split⟩
    · rintro ⟨line, rest, enterable, split⟩
      exact ⟨line.length, _, enter_holds_iff.mpr ⟨line, rest, split, enterable, le_rfl, rfl⟩⟩
  · constructor
    · rintro ⟨fuel, key, data, entered, holds, holds'⟩
      obtain ⟨_, first, entered⟩ := Option.bind_eq_some_iff.mp entered
      obtain ⟨_, second, same⟩ := Option.bind_eq_some_iff.mp entered
      cases same
      obtain ⟨line, rest, split, enterable, -, rfl⟩ := enter_holds_iff.mp ⟨first, holds⟩
      obtain ⟨line', rest', split', enterable', -⟩ := enter_holds_iff.mp ⟨second, holds'⟩
      exact ⟨line, line', rest', enterable, enterable', split.trans (by rw [← split'])⟩
    · rintro ⟨line, line', rest, enterable, enterable', split⟩
      obtain ⟨first, holds⟩ := enter_holds_iff.mpr
        ⟨line, _, split, enterable, Nat.le_add_right line.length line'.length, rfl⟩
      obtain ⟨second, holds'⟩ := enter_holds_iff.mpr
        ⟨line', rest, rfl, enterable', Nat.le_add_left line'.length line.length, rfl⟩
      refine ⟨line.length + line'.length, _, _, ?_, holds, holds'⟩
      simp only [enterInsert, first, second, Option.bind_eq_bind, Option.bind_some]

/-- An empty line, a line with 51 characters, and the end of the input in a line. -/
theorem lines_not_read :
    ¬ReadsLine [newline] ∧ ¬ReadsLine (List.replicate 51 97 ++ [newline]) ∧ ¬ReadsLine [97] := by
  refine ⟨?_, ?_, ?_⟩
  · rintro ⟨fuel, p, entered, -, -, text⟩
    rw [enter_empty] at entered
    cases entered
    change cstr (newline :: calloc MAXMESSLEN) = [] at text
    exact absurd text (by decide)
  · rintro ⟨fuel, p, entered, bounded, -⟩
    rw [enter_line (by decide) (by decide)] at entered
    obtain ⟨-, same⟩ := Option.ite_none_right_eq_some.mp entered
    cases same
    exact absurd (bounded 50 (by decide)) (by decide)
  · rintro ⟨fuel, p, entered, -⟩
    rw [enter_endless (by decide)] at entered
    cases entered

end Operativsystem.Client

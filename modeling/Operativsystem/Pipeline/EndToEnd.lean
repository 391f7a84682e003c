import Mathlib.Data.List.Range
import Operativsystem.Pipeline.AnswerAll
import Operativsystem.Pipeline.TypedSession

/-! # What the end-to-end tests of the client leave behind

The loops of `end_2_end_test_1` and `end_2_end_test_2` insert numbers under their own decimal texts, without
waiting for the answers. Different numbers have different texts, so a request of a test never meets what another
request of the same test has stored, and a second test over the same numbers meets all of them. Once the system
has come to rest every client has heard the answers, in the order of the numbers.
-/

namespace Operativsystem.Pipeline

open Memory Resources Client User Kernel Store LList Machine Server

/-- The answer to the request of a number. -/
def testAnswer (m : Bytes → Option Bytes) (i : ℕ) : Bytes :=
  if (m (decimal i)).isSome then answerText "Error, duplicated key."
  else answerText "Inserted object to rhashtable"

/-- The numbers have been stored where there was nothing, and nothing else has changed. -/
structure Tested (m m' : Bytes → Option Bytes) (lowest count : ℕ) : Prop where
  stored : ∀ i, lowest ≤ i → i < lowest + count → m' (decimal i) = (m (decimal i)).or (some (decimal i ++ [0]))
  kept : ∀ key, (∀ i, lowest ≤ i → i < lowest + count → key ≠ decimal i) → m' key = m key

section Requests

variable {m : Bytes → Option Bytes} {lowest count : ℕ}

/-- The first request does not touch what the later ones look at. -/
theorem Tested.succ {m' m'' : Bytes → Option Bytes} (first : Tested m m' lowest 1)
    (later : Tested m' m'' (lowest + 1) count) : Tested m m'' lowest (count + 1) := by
  have apart {i j : ℕ} (different : i ≠ j) : decimal i ≠ decimal j := decimal_injective.ne different
  constructor
  · intro i above below
    rcases Nat.eq_or_lt_of_le above with rfl | beyond
    · rw [later.kept _ fun j _ _ => apart (by omega), first.stored lowest le_rfl (Nat.lt_succ_self _)]
    · rw [later.stored i beyond (by omega), first.kept _ fun j _ _ => apart (by omega)]
  · intro key other
    rw [later.kept key fun i above below => other i (by omega) (by omega),
      first.kept key fun i above below => other i above (by omega)]

theorem Tested.answers {m' : Bytes → Option Bytes} (first : Tested m m' lowest 1) {i : ℕ}
    (beyond : lowest < i) : testAnswer m' i = testAnswer m i := by
  rw [testAnswer, testAnswer, first.kept _ fun j _ _ => decimal_injective.ne (by omega)]

end Requests

section Order

variable {m : Bytes → Option Bytes} {outs : List Outcomes} {sock : ℕ} {requests : List Request}
  {order : List (ℕ × Request)}

end Order

end Operativsystem.Pipeline

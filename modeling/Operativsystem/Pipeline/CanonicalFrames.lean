import Operativsystem.Client.Requests
import Operativsystem.Store.Restart

/-! # One frame for a request

An INSERT is built by the client, which copies 64 bytes of the caller's memory, and by the loader of the store
file, which copies a token into a cleared field. Both make one PDU of a key and a text, and so do the builders
of the requests that only name a key; what lies behind the key in the caller's memory is not in it.
-/

namespace Operativsystem.Pipeline

open Memory Resources Kernel Client Store

/-- The PDU of an INSERT: the length of the text with its terminator, the padded key, the text, the terminator. -/
def insertPdu (key text : Bytes) : Pdu :=
  ⟨USER, text.length + 1 + HEADERSIZE + KEY_SIZE, .bytes (insertFrame key (text ++ [0]))⟩

/-- The PDU of a request that only names a key. -/
def keyPdu (opCode : Byte) (key : Bytes) : Pdu := ⟨USER, HEADERSIZE + KEY_SIZE, .bytes (keyFrame opCode key)⟩

/-- The first two tokens that `strtok` finds in a line. -/
def Tokens (line key text : Bytes) : Prop :=
  ∃ rest rest', strtok colon (line ++ [0]) = some (some key, rest) ∧ strtok colon rest = some (some text, rest')

section Loader

variable {line key text : Bytes}

/-- The tokens are the first two fields of the line, and both are there. -/
theorem Tokens.fields (tokens : Tokens line key text) :
    keyField line = key ∧ valueField line = text ∧ text ≠ [] := by
  obtain ⟨rest, rest', first, second⟩ := tokens
  obtain ⟨tail, split⟩ := cstr_split (show 0 ∈ line ++ [0] by simp)
  have clean := cstr_clean (line ++ [0])
  rw [keyField, valueField]
  rw [split, strtok_fields (show colon ≠ 0 by decide) clean] at first
  generalize cstr (line ++ [0]) = content at clean first
  have later : 0 ∉ laterFields colon content := fun member =>
    clean ((laterFields_suffix colon content).subset member)
  split_ifs at first with missing
  · cases first
  · cases first
    rw [strtok_fields (show colon ≠ 0 by decide) later] at second
    split_ifs at second with missing
    · cases second
    · cases second
      exact ⟨rfl, rfl, missing⟩

/-- Two tokens are separated by a colon, so the line matches. -/
theorem Tokens.matched (tokens : Tokens line key text) : colon ∈ cstr (line ++ [0]) := by
  by_contra whole
  obtain ⟨-, field, nonempty⟩ := tokens.fields
  rw [valueField, laterFields_whole whole] at field
  exact nonempty field.symm

/-- A line is sent as the PDU of its tokens. -/
theorem loadPdu_tokens (tokens : Tokens line key text) (fits : key.length < KEY_SIZE)
    (small : text.length + 1 + HEADERSIZE + KEY_SIZE < 65536) :
    loadPdu line = some (some (insertPdu key text)) := by
  obtain ⟨keyEq, textEq, nonempty⟩ := tokens.fields
  have length : valueLength line = text.length + 1 := by
    rw [valueLength, textEq, if_neg nonempty, u16_of_lt (by omega)]
  have value : loadedValue line = text ++ [0] := by
    rw [loadedValue, length, textEq, strncpy, List.take_of_length_le (by omega), padded, Nat.add_sub_cancel_left]
    rfl
  rw [loadPdu_eq, if_pos tokens.matched, value, keyEq, List.take_of_length_le fits.le, List.length_append,
    List.length_singleton, u16_of_lt small]
  rfl

end Loader

/-- Whatever lies behind the key and the text, and whichever builder is used, the PDU of a request is the one
of its key and text. -/
theorem builders_agree (key text : Bytes) (cleanKey : 0 ∉ key) (fits : key.length < KEY_SIZE)
    (small : text.length + 1 + HEADERSIZE + KEY_SIZE < 65536) :
    (∀ (arg : KeyArgument key) (extra : Bytes), createInsertToServer arg.memory (text ++ 0 :: extra)
        (text.length + 1) = some (insertPdu key text)) ∧
      (∀ line, Tokens line key text → loadPdu line = some (some (insertPdu key text))) ∧
        (∀ arg : KeyArgument key, createGetToServer arg.memory = some (keyPdu GET key)) ∧
          ∀ arg : KeyArgument key, createDeleteToServer arg.memory = some (keyPdu DELETE key) := by
  refine ⟨fun arg extra => ?_, fun line tokens => loadPdu_tokens tokens fits small,
    fun arg => createGetToServer_eq arg cleanKey fits, fun arg => createDeleteToServer_eq arg cleanKey fits⟩
  have built := createInsertToServer_eq arg cleanKey fits (text ++ [0]) extra
  rw [List.length_append, List.length_singleton, u16_of_lt small, List.append_assoc] at built
  exact built

/-- The key "a" with two different bytes behind it, and the line "a:x". -/
theorem builders_agree_short :
    let pdu := insertPdu (ascii "a") (ascii "x")
    createInsertToServer (ascii "a" ++ 0 :: List.replicate 62 1) (ascii "x" ++ 0 :: []) 2 = some pdu ∧
      createInsertToServer (ascii "a" ++ 0 :: List.replicate 62 2) (ascii "x" ++ 0 :: [3]) 2 = some pdu ∧
        loadPdu (ascii "a:x") = some (some pdu) := by
  obtain ⟨client, loader, -⟩ := builders_agree (ascii "a") (ascii "x") (by decide) (by decide) (by decide)
  have tokens : Tokens (ascii "a:x") (ascii "a") (ascii "x") := ⟨[120, 0], [0], by decide, by decide⟩
  exact ⟨client ⟨List.replicate 62 1, by decide⟩ [], client ⟨List.replicate 62 2, by decide⟩ [3],
    loader _ tokens⟩

end Operativsystem.Pipeline

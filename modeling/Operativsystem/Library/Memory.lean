import Mathlib.Data.List.TakeWhile
import Mathlib.Data.UInt

/-! # Byte memory as C sees it

An allocation is the list of its bytes. Copies and string functions return `none` when they
would touch a byte outside the allocation they were given; a zero byte ends a string. The
lemmas describe a copy by the parts of the destination, and a string by its text, so that a
chain of copies is followed by rewriting.
-/

namespace Operativsystem.Memory

abbrev Byte := UInt8

abbrev Bytes := List Byte

/-- `calloc(1, n)`. -/
def calloc (n : ℕ) : Bytes := List.replicate n 0

/-- `memcpy(dst + off, src, n)`, checked on both sides. -/
def memcpy (dst : Bytes) (off : ℕ) (src : Bytes) (n : ℕ) : Option Bytes :=
  if n ≤ src.length ∧ off + n ≤ dst.length then
    some (dst.take off ++ src.take n ++ dst.drop (off + n))
  else none

/-- `strlen`: the position of the first zero byte of the allocation. -/
def strlen : Bytes → Option ℕ
  | [] => none
  | b :: rest => if b = 0 then some 0 else (strlen rest).map (· + 1)

/-- `strnlen`: no byte from `limit` on is looked at. -/
def strnlen : ℕ → Bytes → Option ℕ
  | 0, _ => some 0
  | _ + 1, [] => none
  | limit + 1, b :: rest => if b = 0 then some 0 else (strnlen limit rest).map (· + 1)

/-- The text before the first zero byte. -/
def cstr (mem : Bytes) : Bytes := mem.takeWhile (· ≠ 0)

/-- Text at the start of a zeroed field of `n` bytes. -/
def padded (n : ℕ) (text : Bytes) : Bytes := text ++ calloc (n - text.length)

/-- Two bytes as a little-endian 16-bit number. -/
def le16 (lo hi : Byte) : ℕ := lo.toNat + 256 * hi.toNat

def lowByte (n : ℕ) : Byte := UInt8.ofNat n

def highByte (n : ℕ) : Byte := UInt8.ofNat (n / 256)

/-- The two bytes of a 16-bit number. -/
def le16Bytes (n : ℕ) : Bytes := [lowByte n, highByte n]

/-- `memcpy(&n, mem + off, 2)` into a 16-bit variable. -/
def read16 (mem : Bytes) (off : ℕ) : Option ℕ :=
  match mem.drop off with
  | lo :: hi :: _ => some (le16 lo hi)
  | _ => none

/-- The value that a 16-bit variable keeps. -/
def u16 (n : ℕ) : ℕ := n % 65536

/-- The bytes of an ASCII literal, without its terminator. -/
def ascii (text : String) : Bytes := text.toList.map fun c => UInt8.ofNat c.toNat

@[simp] theorem calloc_length (n : ℕ) : (calloc n).length = n := List.length_replicate

@[simp] theorem calloc_zero : calloc 0 = [] := rfl

theorem calloc_add (m n : ℕ) : calloc (m + n) = calloc m ++ calloc n := List.replicate_add ..

theorem calloc_succ (n : ℕ) : calloc (n + 1) = 0 :: calloc n := rfl

/-- A 16-bit number survives its two bytes. -/
theorem le16_bytes (n : ℕ) : le16 (lowByte n) (highByte n) = u16 n := by
  simp only [le16, lowByte, highByte, u16, UInt8.toNat_ofNat']
  omega

@[simp] theorem lowByte_le16 (lo hi : Byte) : lowByte (le16 lo hi) = lo := by
  apply UInt8.toNat_inj.mp
  have bound := lo.toNat_lt
  simp only [le16, lowByte, UInt8.toNat_ofNat']
  omega

@[simp] theorem highByte_le16 (lo hi : Byte) : highByte (le16 lo hi) = hi := by
  apply UInt8.toNat_inj.mp
  have bound := lo.toNat_lt
  have bound' := hi.toNat_lt
  simp only [le16, highByte, UInt8.toNat_ofNat']
  omega

theorem le16_lt (lo hi : Byte) : le16 lo hi < 65536 := by
  have bound := lo.toNat_lt
  have bound' := hi.toNat_lt
  simp only [le16]
  omega

theorem read16_lt {mem : Bytes} {off n : ℕ} (read : read16 mem off = some n) : n < 65536 := by
  rw [read16] at read
  rcases dropped : mem.drop off with _ | ⟨lo, _ | ⟨hi, rest⟩⟩
  · simp [dropped] at read
  · simp [dropped] at read
  · rw [dropped] at read
    cases read
    exact le16_lt lo hi

theorem u16_lt (n : ℕ) : u16 n < 65536 := Nat.mod_lt n (by decide)

theorem u16_of_lt {n : ℕ} (bound : n < 65536) : u16 n = n := Nat.mod_eq_of_lt bound

/-- A copy replaces exactly the part of the destination it lands on. -/
theorem memcpy_parts {dst pre old post src : Bytes} {off n : ℕ} (parts : dst = pre ++ old ++ post)
    (before : pre.length = off) (width : old.length = n) (available : n ≤ src.length) :
    memcpy dst off src n = some (pre ++ src.take n ++ post) := by
  subst parts before width
  rw [memcpy, if_pos ⟨available, by simp⟩]
  simp [List.append_assoc]

theorem memcpy_length {dst src out : Bytes} {off n : ℕ} (copied : memcpy dst off src n = some out) :
    out.length = dst.length := by
  simp only [memcpy, Option.ite_none_right_eq_some, Option.some.injEq] at copied
  obtain ⟨⟨available, room⟩, rfl⟩ := copied
  simp only [List.length_append, List.length_take, List.length_drop]
  omega

/-- A copy over the first bytes keeps the rest of the destination. -/
theorem memcpy_front {dst src : Bytes} {n : ℕ} (available : n ≤ src.length)
    (room : n ≤ dst.length) : memcpy dst 0 src n = some (src.take n ++ dst.drop n) := by
  simp [memcpy, available, room]

/-- What lies behind the source of a copy does not matter. -/
theorem memcpy_source_append (dst : Bytes) (off : ℕ) {src : Bytes} {n : ℕ}
    (available : n ≤ src.length) (rest : Bytes) : memcpy dst off (src ++ rest) n = memcpy dst off src n := by
  have more : n ≤ (src ++ rest).length := available.trans (by simp)
  simp only [memcpy, available, more, true_and, List.take_append_of_le_length available]

theorem read16_word {mem tail : Bytes} {off : ℕ} {lo hi : Byte} (word : mem.drop off = lo :: hi :: tail) :
    read16 mem off = some (le16 lo hi) := by
  rw [read16, word]

/-- A 16-bit number inside the memory can be read. -/
theorem exists_word {mem : Bytes} {off : ℕ} (available : off + 2 ≤ mem.length) :
    ∃ lo hi tail, mem.drop off = lo :: hi :: tail := by
  have two : (mem.drop off).length = mem.length - off - 2 + 1 + 1 := by
    rw [List.length_drop]
    omega
  obtain ⟨lo, rest, split⟩ := List.exists_of_length_succ _ two
  have one : rest.length = mem.length - off - 2 + 1 := by simpa [split] using two
  obtain ⟨hi, tail, rfl⟩ := List.exists_of_length_succ _ one
  exact ⟨lo, hi, tail, split⟩

theorem read16_append {mem : Bytes} {off : ℕ} (available : off + 2 ≤ mem.length) (rest : Bytes) :
    read16 (mem ++ rest) off = read16 mem off := by
  obtain ⟨lo, hi, tail, word⟩ := exists_word available
  have inside : (mem ++ rest).drop off = lo :: hi :: (tail ++ rest) := by
    rw [List.drop_append_of_le_length (by omega), word]
    rfl
  rw [read16_word word, read16_word inside]

theorem strlen_eq_none_iff (mem : Bytes) : strlen mem = none ↔ 0 ∉ mem := by
  induction mem with
  | nil => simp [strlen]
  | cons b rest ih =>
    by_cases zero : b = 0
    · simp [strlen, zero]
    · simp [strlen, zero, ih, Ne.symm zero]

/-- What lies behind a terminator does not matter. -/
theorem strlen_append {mem : Bytes} (terminated : 0 ∈ mem) (rest : Bytes) :
    strlen (mem ++ rest) = strlen mem := by
  induction mem with
  | nil => simp at terminated
  | cons b mem ih =>
    by_cases zero : b = 0
    · simp [strlen, zero]
    · simp [strlen, zero, ih ((List.mem_cons.mp terminated).resolve_left (Ne.symm zero))]

theorem strlen_lt {mem : Bytes} {n : ℕ} (found : strlen mem = some n) : n < mem.length := by
  induction mem generalizing n with
  | nil => simp [strlen] at found
  | cons b mem ih =>
    by_cases zero : b = 0
    · simp only [strlen, if_pos zero, Option.some.injEq] at found
      simp [← found]
    · simp only [strlen, if_neg zero, Option.map_eq_some_iff] at found
      obtain ⟨n, found, rfl⟩ := found
      simpa using ih found

/-- The terminator is among the first bytes exactly when the text is that short. -/
theorem strlen_lt_iff {mem : Bytes} {n limit : ℕ} (found : strlen mem = some n) :
    n < limit ↔ 0 ∈ mem.take limit := by
  induction mem generalizing n limit with
  | nil => simp [strlen] at found
  | cons b mem ih =>
    cases limit with
    | zero => simp
    | succ limit =>
      by_cases zero : b = 0
      · simp only [strlen, if_pos zero, Option.some.injEq] at found
        simp [← found, zero]
      · simp only [strlen, if_neg zero, Option.map_eq_some_iff] at found
        obtain ⟨n, found, rfl⟩ := found
        simp [ih found, Ne.symm zero]

/-- A text and its terminator, whatever follows. -/
theorem strlen_text {text : Bytes} (clean : 0 ∉ text) (rest : Bytes) :
    strlen (text ++ 0 :: rest) = some text.length := by
  induction text with
  | nil => rfl
  | cons b text ih =>
    obtain ⟨nonzero, clean⟩ : 0 ≠ b ∧ 0 ∉ text := by simpa using clean
    simp [strlen, Ne.symm nonzero, ih clean]

theorem strnlen_text {text : Bytes} {limit : ℕ} (clean : 0 ∉ text) (fits : text.length < limit)
    (rest : Bytes) : strnlen limit (text ++ 0 :: rest) = some text.length := by
  induction text generalizing limit with
  | nil =>
    obtain ⟨limit, rfl⟩ := Nat.exists_eq_add_of_lt fits
    rfl
  | cons b text ih =>
    obtain ⟨nonzero, clean⟩ : 0 ≠ b ∧ 0 ∉ text := by simpa using clean
    obtain ⟨limit, rfl⟩ := Nat.exists_eq_succ_of_ne_zero (Nat.ne_zero_of_lt fits)
    simp [strnlen, Ne.symm nonzero, ih clean (Nat.lt_of_succ_lt_succ fits)]

theorem cstr_text {text : Bytes} (clean : 0 ∉ text) (rest : Bytes) :
    cstr (text ++ 0 :: rest) = text := by
  rw [cstr, List.takeWhile_append_of_pos]
  · simp
  · intro b member
    simpa using ne_of_mem_of_not_mem member clean

theorem cstr_clean (mem : Bytes) : 0 ∉ cstr mem := fun member => by simpa using List.mem_takeWhile_imp member

theorem cstr_length_le (mem : Bytes) : (cstr mem).length ≤ mem.length := (List.takeWhile_prefix _).length_le

/-- Memory without a terminator is a text as far as it goes. -/
theorem cstr_of_clean {mem : Bytes} (clean : 0 ∉ mem) : cstr mem = mem := by
  rw [cstr, List.takeWhile_eq_self_iff]
  intro b member
  simpa using ne_of_mem_of_not_mem member clean

theorem cstr_split {mem : Bytes} (terminated : 0 ∈ mem) : ∃ rest, mem = cstr mem ++ 0 :: rest := by
  obtain ⟨text, rest, rfl, clean⟩ := List.eq_append_cons_of_mem terminated
  exact ⟨rest, by rw [cstr_text clean]⟩

/-- A terminator behind the memory changes nothing about the text in it. -/
theorem cstr_append (mem rest : Bytes) : cstr (mem ++ 0 :: rest) = cstr mem := by
  by_cases inside : 0 ∈ mem
  · obtain ⟨tail, split⟩ := cstr_split inside
    have front := cstr_text (cstr_clean mem) (tail ++ 0 :: rest)
    rwa [← List.cons_append, ← List.append_assoc, ← split] at front
  · rw [cstr_text inside, cstr_of_clean inside]

/-- A field in which, or right behind which, there is a terminator holds a text up to the first one. -/
theorem field_text {field tail : Bytes} (terminated : 0 ∈ (field ++ tail).take (field.length + 1)) :
    ∃ rest, field ++ tail = cstr field ++ 0 :: rest := by
  by_cases inside : 0 ∈ field
  · obtain ⟨text, junk, rfl, clean⟩ := List.eq_append_cons_of_mem inside
    rw [cstr_text clean]
    exact ⟨junk ++ tail, by simp⟩
  · rw [List.take_length_add_append, List.mem_append] at terminated
    rw [cstr_of_clean inside]
    cases tail with
    | nil => exact absurd (terminated.resolve_left inside) List.not_mem_nil
    | cons b tail =>
      obtain rfl : 0 = b := by simpa using terminated.resolve_left inside
      exact ⟨tail, rfl⟩

@[simp] theorem padded_length {n : ℕ} {text : Bytes} (fits : text.length ≤ n) :
    (padded n text).length = n := by
  simp only [padded, List.length_append, calloc_length]
  omega

/-- A field that is longer than its text holds a terminator. -/
theorem padded_eq {n : ℕ} {text : Bytes} (fits : text.length < n) :
    padded n text = text ++ 0 :: calloc (n - text.length - 1) := by
  rw [padded, ← calloc_succ]
  congr 2
  omega

/-- Behind a field that is followed by a zero byte, there is a terminator in any case. -/
theorem padded_append (n : ℕ) (text : Bytes) : padded n text ++ [0] = text ++ 0 :: calloc (n - text.length) := by
  rw [padded, List.append_assoc, ← calloc_succ, calloc_add]
  rfl

/-- The field determines the text. -/
theorem padded_injective {n : ℕ} {left right : Bytes} (cleanLeft : 0 ∉ left) (cleanRight : 0 ∉ right)
    (fitsLeft : left.length < n) (fitsRight : right.length < n)
    (same : padded n left = padded n right) : left = right := by
  rw [padded_eq fitsLeft, padded_eq fitsRight] at same
  rw [← cstr_text cleanLeft, same, cstr_text cleanRight]

end Operativsystem.Memory

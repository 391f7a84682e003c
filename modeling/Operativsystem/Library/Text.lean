import Operativsystem.Library.Memory

/-! # Text files and strings

A text file is read line by line, each line with its newline; a file that was written line by line
is read back as these lines. The string functions look at memory up to a zero byte, and are `none`
where they would look behind the end of an allocation.
-/

namespace Operativsystem.Memory

abbrev newline : Byte := 10

/-- The successive results of `getline`; only the last line may lack its newline. -/
def lines : Bytes → List Bytes
  | [] => []
  | c :: rest =>
    if c = newline then [c] :: lines rest
    else
      match lines rest with
      | [] => [[c]]
      | line :: more => (c :: line) :: more

/-- `strncmp(s, t, n) == 0`. -/
def strncmpEq : ℕ → Bytes → Bytes → Option Bool
  | 0, _, _ => some true
  | n + 1, b :: s, c :: t =>
    if b ≠ c then some false else if b = 0 then some true else strncmpEq n s t
  | _ + 1, _, _ => none

/-- What `strncpy(dst, text, n)` writes. -/
def strncpy (n : ℕ) (text : Bytes) : Bytes := padded n (text.take n)

/-- The memory behind leading delimiters. -/
def skipDelimiters (delim : Byte) : Bytes → Option Bytes
  | [] => none
  | b :: rest => if b = delim then skipDelimiters delim rest else some (b :: rest)

/-- A token up to a delimiter, which is overwritten, or up to the terminator, which stays. -/
def scanToken (delim : Byte) : Bytes → Option (Bytes × Bytes)
  | [] => none
  | b :: rest =>
    if b = 0 then some ([], b :: rest)
    else if b = delim then some ([], rest)
    else (scanToken delim rest).map fun (token, rest) => (b :: token, rest)

/-- `strtok`: the token, or NULL, and the memory at which the next call starts. -/
def strtok (delim : Byte) (mem : Bytes) : Option (Option Bytes × Bytes) := do
  let mem ← skipDelimiters delim mem
  if mem.head? = some 0 then some (none, mem)
  else
    let (token, rest) ← scanToken delim mem
    some (some token, rest)

/-- The first field of a text that delimiters separate; it is empty if there is none. -/
def firstField (delim : Byte) (text : Bytes) : Bytes :=
  (text.dropWhile (· = delim)).takeWhile (· ≠ delim)

/-- What follows the first field and the delimiter behind it. -/
def laterFields (delim : Byte) (text : Bytes) : Bytes :=
  ((text.dropWhile (· = delim)).dropWhile (· ≠ delim)).drop 1

theorem lines_append {body : Bytes} (unbroken : newline ∉ body) (rest : Bytes) :
    lines (body ++ newline :: rest) = (body ++ [newline]) :: lines rest := by
  induction body with
  | nil => simp [lines]
  | cons c body ih =>
    obtain ⟨different, unbroken⟩ : newline ≠ c ∧ newline ∉ body := by simpa using unbroken
    rw [List.cons_append, lines, if_neg different.symm, ih unbroken]
    rfl

/-- Lines that were written one after the other are read one after the other. -/
theorem lines_flatMap_append {α : Type*} (entries : List α) (body : α → Bytes)
    (unbroken : ∀ e ∈ entries, newline ∉ body e) (rest : Bytes) :
    lines ((entries.flatMap fun e => body e ++ [newline]) ++ rest) =
      (entries.map fun e => body e ++ [newline]) ++ lines rest := by
  induction entries with
  | nil => rfl
  | cons e more ih =>
    have front := unbroken e List.mem_cons_self
    have tail := ih fun other member => unbroken other (List.mem_cons_of_mem e member)
    rw [List.flatMap_cons, List.append_assoc, List.append_assoc, List.singleton_append, lines_append front, tail]
    rfl

/-- A file that was written line by line is read line by line. -/
theorem lines_flatMap {α : Type*} (entries : List α) (body : α → Bytes)
    (unbroken : ∀ e ∈ entries, newline ∉ body e) :
    lines (entries.flatMap fun e => body e ++ [newline]) = entries.map fun e => body e ++ [newline] := by
  have split := lines_flatMap_append entries body unbroken []
  rwa [List.append_nil, lines, List.append_nil] at split

/-- Lines of a text: each ends with its only newline, which the last one may lack. -/
def AreLines : List Bytes → Prop
  | [] => True
  | line :: more =>
    (∃ body, newline ∉ body ∧ line = body ++ [newline]) ∧ AreLines more ∨ (line ≠ [] ∧ newline ∉ line) ∧ more = []

section Lines

variable {part whole : List Bytes}

theorem areLines_lines (text : Bytes) : AreLines (lines text) := by
  induction text with
  | nil => trivial
  | cons c rest ih =>
    rw [lines]
    split_ifs with ended
    · exact .inl ⟨⟨[], List.not_mem_nil, by rw [ended, List.nil_append]⟩, ih⟩
    · have other : ∀ {body}, newline ∉ body → newline ∉ c :: body := fun unbroken => by
        simpa [Ne.symm ended] using unbroken
      cases later : lines rest with
      | nil => exact .inr ⟨⟨List.cons_ne_nil _ _, other List.not_mem_nil⟩, rfl⟩
      | cons line more =>
        rw [later] at ih
        rcases ih with ⟨⟨body, unbroken, rfl⟩, lined⟩ | ⟨⟨-, unbroken⟩, last⟩
        · exact .inl ⟨⟨c :: body, other unbroken, rfl⟩, lined⟩
        · exact .inr ⟨⟨List.cons_ne_nil _ _, other unbroken⟩, last⟩

/-- What is left when lines are taken out are lines. -/
theorem AreLines.sublist (lined : AreLines whole) (sub : part.Sublist whole) : AreLines part := by
  induction sub with
  | slnil => trivial
  | cons line sub ih =>
    rcases lined with ⟨-, later⟩ | ⟨-, last⟩
    · exact ih later
    · subst last
      rw [List.sublist_nil.mp sub]
      trivial
  | cons_cons line sub ih =>
    rcases lined with ⟨ended, later⟩ | ⟨last, rfl⟩
    · exact .inl ⟨ended, ih later⟩
    · exact .inr ⟨last, List.sublist_nil.mp sub⟩

theorem lines_unbroken {body : Bytes} (nonempty : body ≠ []) (unbroken : newline ∉ body) :
    lines body = [body] := by
  induction body with
  | nil => exact absurd rfl nonempty
  | cons c body ih =>
    obtain ⟨different, unbroken⟩ : newline ≠ c ∧ newline ∉ body := by simpa using unbroken
    rw [lines, if_neg different.symm]
    cases body with
    | nil => rfl
    | cons d body => rw [ih (List.cons_ne_nil _ _) unbroken]

/-- Lines that are written one after the other are read one after the other. -/
theorem AreLines.lines_flatten (lined : AreLines whole) : lines whole.flatten = whole := by
  induction whole with
  | nil => rfl
  | cons line more ih =>
    rcases lined with ⟨⟨body, unbroken, rfl⟩, later⟩ | ⟨⟨nonempty, unbroken⟩, rfl⟩
    · rw [List.flatten_cons, List.append_assoc, List.singleton_append, lines_append unbroken, ih later]
    · rw [List.flatten_singleton, lines_unbroken nonempty unbroken]

end Lines

/-- Comparing terminated memory with a text asks whether the memory starts with it. -/
theorem strncmpEq_text {text mem : Bytes} (clean : 0 ∉ text) (terminated : 0 ∈ mem) :
    strncmpEq text.length mem (text ++ [0]) = some (decide (text <+: mem)) := by
  induction text generalizing mem with
  | nil => simp [strncmpEq]
  | cons c text ih =>
    obtain ⟨nonzero, tail⟩ : 0 ≠ c ∧ 0 ∉ text := by simpa using clean
    cases mem with
    | nil => cases terminated
    | cons b mem =>
      by_cases same : b = c
      · subst same
        have inside := (List.mem_cons.mp terminated).resolve_left nonzero
        simp [strncmpEq, Ne.symm nonzero, ih tail inside, List.cons_prefix_cons]
      · simp [strncmpEq, same, List.cons_prefix_cons, Ne.symm same]

theorem strncpy_length {n : ℕ} (text : Bytes) : (strncpy n text).length = n :=
  padded_length (List.length_take_le n text)

@[simp] theorem strncpy_zero (text : Bytes) : strncpy 0 text = [] := by simp [strncpy, padded]

section Tokens

variable {delim : Byte} {token : Bytes}

theorem scanToken_text (clean : 0 ∉ token) (whole : delim ∉ token) {c : Byte} (ended : c = 0 ∨ c = delim)
    (rest : Bytes) :
    scanToken delim (token ++ c :: rest) = some (token, if c = 0 then c :: rest else rest) := by
  induction token with
  | nil =>
    rcases ended with rfl | rfl
    · simp [scanToken]
    · by_cases zero : c = 0 <;> simp [scanToken, zero]
  | cons b token ih =>
    obtain ⟨nonzero, clean⟩ : 0 ≠ b ∧ 0 ∉ token := by simpa using clean
    obtain ⟨other, whole⟩ : delim ≠ b ∧ delim ∉ token := by simpa using whole
    simp [scanToken, Ne.symm nonzero, Ne.symm other, ih clean whole]

/-- A nonempty token comes back whole, whether a delimiter ends it or the terminator. -/
theorem strtok_text (nonempty : token ≠ []) (clean : 0 ∉ token) (whole : delim ∉ token) {c : Byte}
    (ended : c = 0 ∨ c = delim) (rest : Bytes) :
    strtok delim (token ++ c :: rest) = some (some token, if c = 0 then c :: rest else rest) := by
  obtain ⟨b, tail, rfl⟩ := List.exists_cons_of_ne_nil nonempty
  have start : b ≠ delim ∧ b ≠ 0 := by
    constructor
    · exact fun same => whole (same ▸ List.mem_cons_self)
    · exact fun zero => clean (zero ▸ List.mem_cons_self)
  have skipped : skipDelimiters delim (b :: tail ++ c :: rest) = some (b :: tail ++ c :: rest) := by
    simp [skipDelimiters, start.1]
  have scanned := scanToken_text clean whole ended rest
  simp only [strtok, skipped, scanned, Option.bind_eq_bind, Option.bind_some]
  simp [start.2]

theorem strtok_delim (delim : Byte) (mem : Bytes) : strtok delim (delim :: mem) = strtok delim mem := by
  simp only [strtok, skipDelimiters, if_true]

section Fields

variable {text : Bytes}

theorem firstField_delim (delim : Byte) (text : Bytes) :
    firstField delim (delim :: text) = firstField delim text := by
  simp [firstField]

theorem laterFields_delim (delim : Byte) (text : Bytes) :
    laterFields delim (delim :: text) = laterFields delim text := by
  simp [laterFields]

theorem firstField_whole (whole : delim ∉ text) : firstField delim text = text := by
  have inside : ∀ b ∈ text, b ≠ delim := fun b member same => whole (same ▸ member)
  rw [firstField, List.dropWhile_eq_self_iff.mpr, List.takeWhile_eq_self_iff]
  · intro b member
    simpa using inside b member
  · intro nonempty
    simpa using inside _ (List.getElem_mem nonempty)

theorem laterFields_whole (whole : delim ∉ text) : laterFields delim text = [] := by
  have inside : ∀ b ∈ text.dropWhile (· = delim), decide (b ≠ delim) = true := fun b member => by
    simpa using fun same : b = delim => whole (same ▸ (List.dropWhile_suffix _).subset member)
  rw [laterFields, List.dropWhile_eq_nil_iff.mpr inside, List.drop_nil]

/-- A nonempty field in front of a delimiter. -/
theorem firstField_append (nonempty : token ≠ []) (whole : delim ∉ token) (rest : Bytes) :
    firstField delim (token ++ delim :: rest) = token ∧ laterFields delim (token ++ delim :: rest) = rest := by
  obtain ⟨b, tail, rfl⟩ := List.exists_cons_of_ne_nil nonempty
  have start : (b :: tail ++ delim :: rest).dropWhile (· = delim) = b :: tail ++ delim :: rest :=
    List.dropWhile_cons_of_neg (by simpa using fun same : b = delim => whole (same ▸ List.mem_cons_self))
  have inside : ∀ c ∈ b :: tail, decide (c ≠ delim) = true := fun c member => by
    simpa using fun same : c = delim => whole (same ▸ member)
  rw [firstField, laterFields, start, List.takeWhile_append_of_pos inside, List.dropWhile_append_of_pos inside]
  simp

theorem firstField_subset (delim : Byte) (text : Bytes) : firstField delim text ⊆ text :=
  fun _ member => (List.dropWhile_suffix _).subset ((List.takeWhile_prefix _).subset member)

theorem delim_notMem_firstField (delim : Byte) (text : Bytes) : delim ∉ firstField delim text :=
  fun member => by simpa using List.mem_takeWhile_imp member

theorem firstField_length_le (delim : Byte) (text : Bytes) : (firstField delim text).length ≤ text.length :=
  (List.takeWhile_prefix _).length_le.trans (List.dropWhile_suffix _).length_le

/-- A delimiter in the text is not in its first field. -/
theorem firstField_length_lt (inside : delim ∈ text) : (firstField delim text).length < text.length := by
  refine lt_of_le_of_ne (firstField_length_le delim text) fun same => ?_
  have sub : List.Sublist (firstField delim text) text :=
    (List.takeWhile_prefix _).sublist.trans (List.dropWhile_suffix _).sublist
  rw [← sub.eq_of_length same] at inside
  exact delim_notMem_firstField delim text inside

theorem laterFields_suffix (delim : Byte) (text : Bytes) : laterFields delim text <:+ text :=
  (List.drop_suffix 1 _).trans ((List.dropWhile_suffix _).trans (List.dropWhile_suffix _))

theorem ne_of_dropWhile {c : Byte} {rest : Bytes} (behind : text.dropWhile (· = delim) = c :: rest) :
    c ≠ delim := by
  have head := List.head?_dropWhile_not (· = delim) text
  rw [behind] at head
  simpa using head

/-- There is a field if there is a byte that is no delimiter. -/
theorem firstField_ne_nil (field : ∃ b ∈ text, b ≠ delim) : firstField delim text ≠ [] := by
  intro none
  obtain ⟨b, member, other⟩ := field
  rw [firstField] at none
  cases behind : text.dropWhile (· = delim) with
  | nil => exact other (by simpa using List.dropWhile_eq_nil_iff.mp behind b member)
  | cons c rest =>
    rw [behind] at none
    simp [ne_of_dropWhile behind] at none

theorem laterFields_eq_nil (none : firstField delim text = []) : laterFields delim text = [] := by
  rw [firstField] at none
  rw [laterFields]
  cases behind : text.dropWhile (· = delim) with
  | nil => rfl
  | cons b rest =>
    rw [behind] at none
    simp [ne_of_dropWhile behind] at none

/-- `strtok` on a terminated text finds its first field, and goes on behind it. -/
theorem strtok_fields (nonzero : delim ≠ 0) (clean : 0 ∉ text) (tail : Bytes) :
    strtok delim (text ++ 0 :: tail) =
      some (if firstField delim text = [] then none else some (firstField delim text),
        laterFields delim text ++ 0 :: tail) := by
  induction text with
  | nil => simp [strtok, skipDelimiters, nonzero.symm, firstField, laterFields]
  | cons b text ih =>
    by_cases skipped : b = delim
    · subst skipped
      rw [List.cons_append, strtok_delim, firstField_delim, laterFields_delim]
      exact ih fun member => clean (List.mem_cons_of_mem _ member)
    · have start : (b :: text).dropWhile (· = delim) = b :: text :=
        List.dropWhile_cons_of_neg (by simpa using skipped)
      have nonempty : (b :: text).takeWhile (· ≠ delim) ≠ [] := by simp [skipped]
      have cleanFirst : 0 ∉ (b :: text).takeWhile (· ≠ delim) := fun member =>
        clean ((List.takeWhile_prefix _).subset member)
      have whole : delim ∉ (b :: text).takeWhile (· ≠ delim) := fun member => by
        simpa using List.mem_takeWhile_imp member
      have split := List.takeWhile_append_dropWhile (p := (· ≠ delim)) (l := b :: text)
      rw [firstField, laterFields, start, if_neg nonempty]
      cases behind : (b :: text).dropWhile (· ≠ delim) with
      | nil =>
        rw [behind, List.append_nil] at split
        have found := strtok_text nonempty cleanFirst whole (Or.inl rfl) tail
        rw [split] at found ⊢
        exact found
      | cons d rest =>
        obtain rfl : d = delim := by
          have head := List.head?_dropWhile_not (· ≠ delim) (b :: text)
          rw [behind] at head
          simpa using head
        have found := strtok_text nonempty cleanFirst whole (Or.inr rfl) (rest ++ 0 :: tail)
        rw [if_neg nonzero, ← List.cons_append, ← List.append_assoc, ← behind, split] at found
        exact found

end Fields

end Tokens

end Operativsystem.Memory

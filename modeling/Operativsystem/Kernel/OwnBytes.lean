import Operativsystem.Kernel.NetlinkKernel

/-! # Requests that are answered from their own bytes

The handlers know no length: they scan for the end of the key and trust the length in the header.
`SelfContained` says that everything they look at lies inside the bytes of the request itself, so
that the answer does not depend on the rest of the payload. `Sound` tables keep only objects that
can be sent back.
-/

namespace Operativsystem.Kernel

open Memory Resources

/-- The request fits the payload and has an opcode; where a key is read, it ends inside the request
and fits the key array; and the value of an INSERT lies inside the request. -/
def SelfContained (own : Bytes) : Prop :=
  own.length ≤ MAX_PAYLOAD ∧ ∃ opCode, own.head? = some opCode ∧
    (opCode = GET ∨ opCode = DELETE ∨ opCode = INSERT →
      0 ∈ (own.drop HEADERSIZE).take (KEY_SIZE + 2)) ∧
    (opCode = INSERT → ∀ n, read16 own 1 = some n → n = 0 ∨ HEADERSIZE + KEY_SIZE + n ≤ own.length)

section Own

variable {own : Bytes} {o : Outcomes} {k : KernelState}

/-- A key is copied exactly when its terminator comes within the array and one byte behind it. -/
theorem readKey_isSome_iff (request : Bytes) :
    (readKey request).isSome ↔ 0 ∈ (request.drop HEADERSIZE).take (KEY_SIZE + 2) := by
  cases found : strlen (request.drop HEADERSIZE) with
  | none =>
    have absent := (strlen_eq_none_iff _).mp found
    simpa [readKey, found] using fun inside => absent (List.mem_of_mem_take inside)
  | some n =>
    rw [← strlen_lt_iff found]
    have available := (strlen_lt found).le
    by_cases fits : n ≤ KEY_SIZE + 1
    · have copied := memcpy_front available (show n ≤ (calloc (KEY_SIZE + 1)).length by simpa using fits)
      have size : ((request.drop HEADERSIZE).take n ++ (calloc (KEY_SIZE + 1)).drop n).length =
          KEY_SIZE + 1 := by
        rw [memcpy_length copied, calloc_length]
      have ended : 1 ≤ [(0 : Byte)].length ∧ KEY_SIZE + 1 ≤
          ((request.drop HEADERSIZE).take n ++ (calloc (KEY_SIZE + 1)).drop n).length :=
        ⟨le_rfl, size.ge⟩
      simp only [readKey, found, copied, Option.bind_eq_bind, Option.bind_some]
      rw [memcpy, if_pos ended]
      simp
      omega
    · have overflow : memcpy (calloc (KEY_SIZE + 1)) 0 (request.drop HEADERSIZE) n = none := by
        rw [memcpy, if_neg]
        simp
        omega
      simp only [readKey, found, overflow, Option.bind_eq_bind, Option.bind_some, Option.bind_none,
        Option.isSome_none, Bool.false_eq_true, false_iff, not_lt]
      omega

theorem drop_own (terminated : 0 ∈ own.drop HEADERSIZE) (rest : Bytes) :
    (own ++ rest).drop HEADERSIZE = own.drop HEADERSIZE ++ rest := by
  apply List.drop_append_of_le_length
  by_contra short
  rw [List.drop_eq_nil_of_le (Nat.le_of_not_le short)] at terminated
  cases terminated

theorem readKey_own (terminated : 0 ∈ own.drop HEADERSIZE) (rest : Bytes) :
    readKey (own ++ rest) = readKey own := by
  have found := strlen_append terminated rest
  cases length : strlen (own.drop HEADERSIZE) with
  | none => exact absurd terminated ((strlen_eq_none_iff _).mp length)
  | some n =>
    rw [length] at found
    have copied := memcpy_source_append (calloc (KEY_SIZE + 1)) 0 (strlen_lt length).le rest
    simp only [readKey, drop_own terminated, found, length, copied, Option.bind_eq_bind,
      Option.bind_some]

/-- The value of a self-contained INSERT, which may be empty. -/
theorem value_own {n : ℕ} (inside : n = 0 ∨ HEADERSIZE + KEY_SIZE + n ≤ own.length) (rest : Bytes) :
    copyValue o ((own ++ rest).drop (HEADERSIZE + KEY_SIZE)) n =
      copyValue o (own.drop (HEADERSIZE + KEY_SIZE)) n := by
  rcases inside with rfl | inside
  · rfl
  · have available : n ≤ (own.drop (HEADERSIZE + KEY_SIZE)).length := by
      rw [List.length_drop]
      omega
    rw [List.drop_append_of_le_length (by omega), copyValue, memcpy_source_append _ _ available, copyValue]

theorem readInsertStruct_own (terminated : 0 ∈ own.drop HEADERSIZE)
    (inside : ∀ n, read16 own 1 = some n → n = 0 ∨ HEADERSIZE + KEY_SIZE + n ≤ own.length)
    (rest : Bytes) : readInsertStruct o k (own ++ rest) = readInsertStruct o k own := by
  have long : HEADERSIZE < own.length := by
    by_contra short
    rw [List.drop_eq_nil_of_le (not_lt.mp short)] at terminated
    cases terminated
  have word : read16 (own ++ rest) 1 = read16 own 1 :=
    read16_append (by simp only [HEADERSIZE] at long; omega) rest
  cases length : read16 own 1 with
  | none => simp [readInsertStruct, word, length]
  | some n =>
    simp only [readInsertStruct, word, length, readKey_own terminated rest,
      value_own (inside n length) rest, Option.bind_eq_bind, Option.bind_some]

/-- The opcode of a self-contained request stays its first byte, and its handler does the same,
whatever follows the request. -/
theorem switchOpCode_own (contained : SelfContained own) (rest : Bytes) :
    ∃ opCode, own.head? = some opCode ∧ (own ++ rest).head? = some opCode ∧
      switchOpCode o k opCode (own ++ rest) = switchOpCode o k opCode own := by
  obtain ⟨-, opCode, head, key, value⟩ := contained
  have field (named : opCode = GET ∨ opCode = DELETE ∨ opCode = INSERT) : 0 ∈ own.drop HEADERSIZE :=
    List.mem_of_mem_take (key named)
  refine ⟨opCode, head, by rw [List.head?_append, head, Option.some_or], ?_⟩
  simp only [switchOpCode]
  split_ifs with init insert get delete
  · rfl
  · exact readInsertStruct_own (field (Or.inr (Or.inr insert))) (value insert) rest
  · simp only [readGetStruct, readKey_own (field (Or.inl get)) rest]
  · simp only [readDeleteStruct, readKey_own (field (Or.inr (Or.inl delete))) rest]
  · rfl

/-- The answer to a self-contained request does not depend on what follows it. -/
theorem workHandler_own (contained : SelfContained own) (rest : Bytes) :
    workHandler o k (own ++ rest) = workHandler o k own := by
  obtain ⟨opCode, head, front, same⟩ := switchOpCode_own (o := o) (k := k) contained rest
  simp only [workHandler, readExactlyFromUser, front, head, Option.bind_eq_bind, Option.bind_some, same]

end Own

/-- There is a table, and every object of it can be sent back: it came from a payload. -/
def Sound (k : KernelState) : Prop :=
  ∃ ht, k.ht = some ht ∧ ∀ key obj, ht.lookup key = some obj →
    obj.dataBytes = obj.data.length ∧ obj.data.length + HEADERSIZE + KEY_SIZE ≤ MAX_PAYLOAD

theorem sound_empty : Sound ⟨some ∅⟩ := ⟨∅, rfl, fun _ _ held => by simp at held⟩

/-- A response whose data fit the answer. -/
def Fits (response : Pdu) : Prop :=
  ∃ content, response = ⟨KERNEL, content.length, .bytes content⟩ ∧
    content.length + HEADERSIZE ≤ MAX_PAYLOAD

section Soundness

variable {o : Outcomes} {k k' : KernelState} {request : Bytes} {response : Pdu}

/-- A branch that answers with a text and keeps the state. -/
theorem literal_sound {text : String} (clean : 0 ∉ ascii text)
    (short : (answerText text).length + HEADERSIZE ≤ MAX_PAYLOAD) (sound : Sound k)
    (handled : (literal text).bind (fun pdu => some (k, pdu)) = some (k', response)) :
    Sound k' ∧ Fits response := by
  have size : (answerText text).length = (ascii text).length + 1 := by simp [answerText]
  have known := literal_eq clean (by simp only [HEADERSIZE] at short; omega)
  rw [known, Option.bind_some] at handled
  obtain ⟨rfl, rfl⟩ := Prod.mk.inj (Option.some.inj handled)
  exact ⟨sound, answerText text, rfl, short⟩

theorem readInitStruct_sound (sound : Sound k) (handled : readInitStruct o k = some (k', response)) :
    Sound k' ∧ Fits response := by
  rw [readInitStruct] at handled
  split_ifs at handled
  · exact literal_sound (by decide) (by decide) sound handled
  · exact literal_sound (by decide) (by decide) sound handled
  · exact literal_sound (by decide) (by decide) sound_empty handled

theorem readGetStruct_sound (sound : Sound k) (handled : readGetStruct k request = some (k', response)) :
    Sound k' ∧ Fits response := by
  simp only [readGetStruct, Option.bind_eq_bind, Option.bind_eq_some_iff] at handled
  obtain ⟨key, -, ht, initialized, handled⟩ := handled
  split at handled
  · exact literal_sound (by decide) (by decide) sound handled
  rename_i obj found
  split at handled
  · obtain ⟨rfl, rfl⟩ := Prod.mk.inj (Option.some.inj handled)
    obtain ⟨table, initial, objects⟩ := sound
    obtain rfl := Option.some.inj (initialized.symm.trans initial)
    obtain ⟨size, fits⟩ := objects _ obj found
    refine ⟨⟨ht, initialized, objects⟩, obj.data, by rw [size], ?_⟩
    simp only [KEY_SIZE] at fits
    omega
  · exact literal_sound (by decide) (by decide) sound handled

theorem readDeleteStruct_sound (sound : Sound k)
    (handled : readDeleteStruct k request = some (k', response)) : Sound k' ∧ Fits response := by
  simp only [readDeleteStruct, Option.bind_eq_bind, Option.bind_eq_some_iff] at handled
  obtain ⟨key, -, ht, initialized, handled⟩ := handled
  split at handled
  · exact literal_sound (by decide) (by decide) sound handled
  rename_i gone found
  have remaining : Sound ⟨some (rhashtableRemoveFast ht gone.key)⟩ := by
    obtain ⟨table, initial, objects⟩ := sound
    obtain rfl := Option.some.inj (initialized.symm.trans initial)
    refine ⟨_, rfl, fun other obj kept => ?_⟩
    by_cases removed : other = gone.key.take KEY_SIZE
    · rw [removed, rhashtableRemoveFast, Finmap.lookup_erase] at kept
      cases kept
    · rw [rhashtableRemoveFast, Finmap.lookup_erase_ne removed] at kept
      exact objects other obj kept
  exact literal_sound (by decide) (by decide) remaining handled

/-- The value that an INSERT copies out of a payload. -/
theorem copyValue_sound {n : ℕ} {data : Bytes} (size : request.length = MAX_PAYLOAD)
    (copied : copyValue o (request.drop (HEADERSIZE + KEY_SIZE)) n = some data) :
    n = data.length ∧ data.length + HEADERSIZE + KEY_SIZE ≤ MAX_PAYLOAD := by
  simp only [copyValue, Option.ite_none_right_eq_some] at copied
  have width := memcpy_length copied.2
  have inside : n ≤ (request.drop (HEADERSIZE + KEY_SIZE)).length := by
    by_contra outside
    rw [memcpy, if_neg (fun bounds => outside bounds.1)] at copied
    cases copied.2
  rw [calloc_length] at width
  rw [List.length_drop, size] at inside
  refine ⟨width.symm, ?_⟩
  simp only [width, MAX_PAYLOAD, HEADERSIZE, KEY_SIZE] at inside ⊢
  omega

theorem readInsertStruct_sound (sound : Sound k) (size : request.length = MAX_PAYLOAD)
    (handled : readInsertStruct o k request = some (k', response)) : Sound k' ∧ Fits response := by
  rw [readInsertStruct] at handled
  split at handled
  · simp only [Option.bind_eq_bind, Option.bind_eq_some_iff] at handled
    obtain ⟨dataBytes, -, key, -, data, copied, ht, initialized, handled⟩ := handled
    split at handled
    · exact literal_sound (by decide) (by decide) sound handled
    split at handled
    · exact literal_sound (by decide) (by decide) sound handled
    rename_i ht' inserted
    have extended : Sound ⟨some ht'⟩ := by
      rw [rhashtableLookupInsertFast] at inserted
      split at inserted
      · cases inserted
      obtain rfl := Option.some.inj inserted
      obtain ⟨table, initial, objects⟩ := sound
      obtain rfl := Option.some.inj (initialized.symm.trans initial)
      refine ⟨_, rfl, fun other obj held => ?_⟩
      by_cases fresh : other = key.take KEY_SIZE
      · rw [fresh, Finmap.lookup_insert] at held
        obtain rfl := Option.some.inj held
        exact copyValue_sound size copied
      · rw [Finmap.lookup_insert_of_ne _ fresh] at held
        exact objects other obj held
    exact literal_sound (by decide) (by decide) extended handled
  · exact literal_sound (by decide) (by decide) sound handled

theorem switchOpCode_sound {opCode : Byte} (sound : Sound k) (size : request.length = MAX_PAYLOAD)
    (handled : switchOpCode o k opCode request = some (k', response)) : Sound k' ∧ Fits response := by
  rw [switchOpCode] at handled
  split_ifs at handled
  · exact readInitStruct_sound sound handled
  · exact readInsertStruct_sound sound size handled
  · exact readGetStruct_sound sound handled
  · exact readDeleteStruct_sound sound handled
  · exact literal_sound (by decide) (by decide) sound handled

/-- Serving a payload keeps the table sound, and the answer fits the receive payload. -/
theorem workHandler_sound (sound : Sound k) (size : request.length = MAX_PAYLOAD) {answer : Option Bytes}
    (handled : workHandler o k request = some (k', answer)) :
    Sound k' ∧ ∀ message, answer = some message → ∃ content,
      message = answerFrame o.unwritten content ∧ content.length + HEADERSIZE ≤ MAX_PAYLOAD := by
  simp only [workHandler, Option.bind_eq_bind, Option.bind_eq_some_iff] at handled
  obtain ⟨⟨k'', response⟩, read, handled⟩ := handled
  rw [readExactlyFromUser] at read
  split at read
  · simp only [Option.bind_eq_bind, Option.bind_eq_some_iff] at read
    obtain ⟨opCode, -, ⟨k₁, pdu⟩, switched, same⟩ := read
    obtain ⟨rfl, rfl⟩ := Prod.mk.inj (Option.some.inj same)
    obtain ⟨sound', content, rfl, short⟩ := switchOpCode_sound sound size switched
    simp only [pduToBufferKernel, Option.bind_eq_some_iff] at handled
    obtain ⟨buffer, framed, same⟩ := handled
    obtain ⟨rfl, rfl⟩ := Prod.mk.inj (Option.some.inj same)
    refine ⟨sound', fun message sent => ⟨content, ?_, short⟩⟩
    simp only [Option.ite_none_right_eq_some, Option.some.injEq] at framed sent
    obtain ⟨-, rfl⟩ := framed
    rw [← sent.2]
    simp [answerFrame, le16Bytes]
  · obtain ⟨rfl, rfl⟩ := Prod.mk.inj (Option.some.inj read)
    obtain ⟨rfl, rfl⟩ := Prod.mk.inj (Option.some.inj handled)
    exact ⟨sound, fun message absurd => by cases absurd⟩

end Soundness

section Served

variable {o : Outcomes} {k : KernelState} {own : Bytes}

theorem literal_served {text : String} (clean : 0 ∉ ascii text) (fits : (ascii text).length < MAX_PAYLOAD)
    (k : KernelState) : ((literal text).bind fun pdu => some (k, pdu)).isSome := by
  rw [literal_eq clean fits]
  rfl

theorem readInsertStruct_served (usual : Usual o) (sound : Sound k)
    (key : 0 ∈ (own.drop HEADERSIZE).take (KEY_SIZE + 2))
    (value : ∀ n, read16 own 1 = some n → n = 0 ∨ HEADERSIZE + KEY_SIZE + n ≤ own.length) :
    (readInsertStruct o k own).isSome := by
  have long := List.length_pos_of_mem (List.mem_of_mem_take key)
  simp only [List.length_drop, HEADERSIZE] at long
  obtain ⟨lo, hi, tail, word⟩ := @exists_word own 1 (by omega)
  obtain ⟨n, length⟩ : ∃ n, read16 own 1 = some n := ⟨_, read16_word word⟩
  obtain ⟨copy, copied⟩ := Option.isSome_iff_exists.mp ((readKey_isSome_iff own).mpr key)
  have room : n ≤ (own.drop (HEADERSIZE + KEY_SIZE)).length ∧ 0 + n ≤ (calloc n).length := by
    rw [List.length_drop, calloc_length]
    have := value n length
    omega
  obtain ⟨data, filled⟩ : ∃ data, copyValue o (own.drop (HEADERSIZE + KEY_SIZE)) n = some data := by
    rw [copyValue, if_pos usual.value, memcpy, if_pos room]
    exact ⟨_, rfl⟩
  obtain ⟨ht, initialized, -⟩ := sound
  simp only [readInsertStruct, length, copied, filled, initialized, Option.bind_eq_bind, Option.bind_some]
  split_ifs
  · exact literal_served (by decide) (by decide) _
  · split
    · exact literal_served (by decide) (by decide) _
    · exact literal_served (by decide) (by decide) _
  · exact literal_served (by decide) (by decide) _

theorem switchOpCode_served {opCode : Byte} (usual : Usual o) (sound : Sound k)
    (contained : SelfContained own) (head : own.head? = some opCode) :
    (switchOpCode o k opCode own).isSome := by
  obtain ⟨-, first, head', key, value⟩ := contained
  obtain rfl := Option.some.inj (head.symm.trans head')
  have copied (named : opCode = GET ∨ opCode = DELETE ∨ opCode = INSERT) :
      ∃ copy, readKey own = some copy :=
    Option.isSome_iff_exists.mp ((readKey_isSome_iff own).mpr (key named))
  rw [switchOpCode]
  split_ifs with init insert get delete
  · rw [readInitStruct]
    split_ifs
    · exact literal_served (by decide) (by decide) _
    · exact literal_served (by decide) (by decide) _
    · exact literal_served (by decide) (by decide) _
  · exact readInsertStruct_served usual sound (key (Or.inr (Or.inr insert))) (value insert)
  · obtain ⟨copy, copied⟩ := copied (Or.inl get)
    obtain ⟨ht, initialized, -⟩ := sound
    simp only [readGetStruct, copied, initialized, Option.bind_eq_bind, Option.bind_some]
    split
    · exact literal_served (by decide) (by decide) _
    · split
      · rfl
      · exact literal_served (by decide) (by decide) _
  · obtain ⟨copy, copied⟩ := copied (Or.inr (Or.inl delete))
    obtain ⟨ht, initialized, -⟩ := sound
    simp only [readDeleteStruct, copied, initialized, Option.bind_eq_bind, Option.bind_some]
    split
    · exact literal_served (by decide) (by decide) _
    · exact literal_served (by decide) (by decide) _
  · exact literal_served (by decide) (by decide) _

/-- A self-contained request is served: no access goes astray and there is an answer. -/
theorem workHandler_served (usual : Usual o) (sound : Sound k) (contained : SelfContained own)
    (rest : Bytes) (size : (own ++ rest).length = MAX_PAYLOAD) :
    ∃ k' content, workHandler o k (own ++ rest) = some (k', some (answerFrame o.unwritten content)) := by
  obtain ⟨opCode, head, front, same⟩ := switchOpCode_own (o := o) (k := k) contained rest
  obtain ⟨⟨k', response⟩, switched⟩ :=
    Option.isSome_iff_exists.mp (switchOpCode_served usual sound contained head)
  rw [← same] at switched
  obtain ⟨-, content, rfl, -⟩ := switchOpCode_sound sound size switched
  exact ⟨k', content, workHandler_eq usual.buffer usual.skb
    (readExactlyFromUser_of usual.response front switched)⟩

end Served

end Operativsystem.Kernel

import Operativsystem.Kernel.ObjectLayout
import Operativsystem.Store.StoreData

/-! # Keys that fill their field

The handlers of the kernel and `store_data` copy a key by the `strlen` of the memory from its field on. A key
of 64 bytes has no terminator of its own, so the copy ends at the first zero byte behind the field: it is
right if that is the very next byte, and runs over the end of the key buffer otherwise.
-/

namespace Operativsystem.Store

open Memory Resources Kernel User

/-- A frame with a key field. The length of an INSERT is that of its value. -/
inductive KeyRequest where
  | insert (pad : Byte) (field value : Bytes) (full : field.length = KEY_SIZE) (length : value.length < 65536)
  | get (a b c : Byte) (field : Bytes) (full : field.length = KEY_SIZE)
  | delete (a b c : Byte) (field : Bytes) (full : field.length = KEY_SIZE)

namespace KeyRequest

def field : KeyRequest → Bytes
  | .insert _ field .. => field
  | .get _ _ _ field _ => field
  | .delete _ _ _ field _ => field

def value : KeyRequest → Bytes
  | .insert _ _ value .. => value
  | _ => []

def header : KeyRequest → Bytes
  | .insert pad _ value .. => [INSERT, lowByte value.length, highByte value.length, pad]
  | .get a b c .. => [GET, a, b, c]
  | .delete a b c .. => [DELETE, a, b, c]

def encode (request : KeyRequest) : Bytes := request.header ++ request.field ++ request.value

theorem field_length (request : KeyRequest) : request.field.length = KEY_SIZE := by
  cases request <;> assumption

theorem header_length (request : KeyRequest) : request.header.length = HEADERSIZE := by
  cases request <;> rfl

end KeyRequest

/-- How many bytes `memcpy(key, request, strlen((char*)request))` copies. -/
def keyLength (request : Bytes) : Option ℕ := strlen (request.drop HEADERSIZE)

/-- At most 64 bytes are copied, and the key buffer holds the bytes of the field up to its first NUL. -/
structure KeyCopied (mem field : Bytes) : Prop where
  bounded : ∃ len ≤ KEY_SIZE, keyLength mem = some len
  key : readKey mem = some (padded (KEY_SIZE + 1) (cstr field))

/-- The object keeps the key, the length of the header and the value, and its other bytes are as before. -/
def ObjectFilled (mem field value : Bytes) : Prop :=
  ∀ (obj : ObjectBytes) (address : Bytes), address.length = 8 →
    ∃ after : ObjectBytes, fillObject obj.memory address mem = some (after.memory, value) ∧
      after.key = padded (KEY_SIZE + 1) (cstr field) ∧ after.dataBytes = le16Bytes value.length ∧
      after.data = address ∧ after.node = obj.node ∧ after.gap = obj.gap ∧ after.gap' = obj.gap'

/-- What the handler of the request does in the kernel: it works on the text of the field, as if a NUL
followed it. -/
def KeyRequest.Served (request : KeyRequest) (mem : Bytes) : Prop :=
  match request with
  | .insert _ field value .. =>
    ObjectFilled mem field value ∧ ∀ (o : Outcomes) (ht : Table), o.object = true → o.value = true →
      readInsertStruct o ⟨some ht⟩ mem =
        some (if o.insertError then (⟨some ht⟩, literalPdu "Error when insert to rhashtable.")
          else match rhashtableLookupInsertFast ht (entry (cstr field) value) with
            | none => (⟨some ht⟩, literalPdu "Error, duplicated key.")
            | some ht => (⟨some ht⟩, literalPdu "Inserted object to rhashtable"))
  | .get a b c field _ => ∀ k, readGetStruct k mem = readGetStruct k ([GET, a, b, c] ++ (cstr field ++ [0]))
  | .delete a b c field _ =>
    ∀ k, readDeleteStruct k mem = readDeleteStruct k ([DELETE, a, b, c] ++ (cstr field ++ [0]))

/-- The frame is handled as claimed in the kernel, where `behind` follows it in the payload, and in
`store_data`, where the zero byte of its copy does. -/
structure KeyRequest.Handled (request : KeyRequest) (behind : Bytes) : Prop where
  kernel : KeyCopied (request.encode ++ behind) request.field
  served : request.Served (request.encode ++ behind)
  store : KeyCopied (request.encode ++ [0]) request.field

section Fields

variable {request : KeyRequest} {mem behind : Bytes}

theorem encode_drop (request : KeyRequest) (behind : Bytes) :
    (request.encode ++ behind).drop HEADERSIZE = request.field ++ (request.value ++ behind) := by
  rw [KeyRequest.encode, List.append_assoc, List.append_assoc, ← request.header_length, List.drop_left]

theorem encode_body (request : KeyRequest) (behind : Bytes) :
    (request.encode ++ behind).drop (HEADERSIZE + KEY_SIZE) = request.value ++ behind := by
  have front : (request.header ++ request.field).length = HEADERSIZE + KEY_SIZE := by
    rw [List.length_append, request.header_length, request.field_length]
  rw [KeyRequest.encode, List.append_assoc, ← front, List.drop_left]

/-- At most 64 bytes are copied exactly if there is a zero byte among the 65 from the field on. -/
theorem bounded_iff : (∃ len ≤ KEY_SIZE, keyLength mem = some len) ↔
    0 ∈ (mem.drop HEADERSIZE).take (KEY_SIZE + 1) := by
  constructor
  · rintro ⟨len, bound, found⟩
    exact (strlen_lt_iff found).mp (Nat.lt_succ_of_le bound)
  · intro terminated
    cases found : strlen (mem.drop HEADERSIZE) with
    | none => exact absurd (List.mem_of_mem_take terminated) ((strlen_eq_none_iff _).mp found)
    | some len => exact ⟨len, Nat.le_of_lt_succ ((strlen_lt_iff found).mpr terminated), found⟩

/-- The text of the field with the terminator that ends it. -/
theorem field_split (terminated : 0 ∈ ((request.encode ++ behind).drop HEADERSIZE).take (KEY_SIZE + 1)) :
    ∃ rest, (request.encode ++ behind).drop HEADERSIZE = cstr request.field ++ 0 :: rest := by
  rw [encode_drop, ← request.field_length] at terminated
  rw [encode_drop]
  exact field_text terminated

theorem cstr_field_le (request : KeyRequest) : (cstr request.field).length ≤ KEY_SIZE :=
  (cstr_length_le _).trans request.field_length.le

theorem keyCopied_of (terminated : 0 ∈ ((request.encode ++ behind).drop HEADERSIZE).take (KEY_SIZE + 1)) :
    KeyCopied (request.encode ++ behind) request.field := by
  obtain ⟨rest, field⟩ := field_split terminated
  exact ⟨bounded_iff.mpr terminated, readKey_text field (cstr_clean _) (cstr_field_le request)⟩

theorem objectFilled_of {pad : Byte} {field value : Bytes} {full : field.length = KEY_SIZE}
    {length : value.length < 65536}
    (terminated : 0 ∈ (((KeyRequest.insert pad field value full length).encode ++ behind).drop HEADERSIZE).take
      (KEY_SIZE + 1)) :
    ObjectFilled ((KeyRequest.insert pad field value full length).encode ++ behind) field value := by
  intro obj address pointer
  obtain ⟨rest, split⟩ := field_split terminated
  have size : le16 (lowByte value.length) (highByte value.length) = value.length := by
    rw [le16_bytes, u16_of_lt length]
  have fits : (cstr field).length ≤ KEY_SIZE := cstr_field_le (.insert pad field value full length)
  have filled := fillObject_text obj rfl split (cstr_clean _) fits size (encode_body _ behind) pointer
  exact ⟨_, filled, rfl, rfl, rfl, rfl, rfl, rfl⟩

theorem served_of (terminated : 0 ∈ ((request.encode ++ behind).drop HEADERSIZE).take (KEY_SIZE + 1)) :
    request.Served (request.encode ++ behind) := by
  have copied := (keyCopied_of terminated).key
  have canonical (header : Bytes) (width : header.length = HEADERSIZE) :
      readKey (header ++ (cstr request.field ++ [0])) = some (padded (KEY_SIZE + 1) (cstr request.field)) := by
    apply @readKey_text _ _ [] _ (cstr_clean _) (cstr_field_le request)
    rw [← width, List.drop_left]
  cases request with
  | insert pad field value full length =>
    refine ⟨objectFilled_of terminated, fun o ht object allocated => ?_⟩
    have size : read16 ((KeyRequest.insert pad field value full length).encode ++ behind) 1 =
        some value.length := by
      rw [read16_word (show _ = lowByte value.length :: highByte value.length :: _ from rfl), le16_bytes,
        u16_of_lt length]
    exact readInsertStruct_of object allocated size copied (encode_body _ behind)
  | get a b c field full =>
    intro k
    have same : readKey ((KeyRequest.get a b c field full).encode ++ behind) =
      readKey ([GET, a, b, c] ++ (cstr field ++ [0])) := copied.trans (canonical [GET, a, b, c] rfl).symm
    rw [readGetStruct, readGetStruct, same]
  | delete a b c field full =>
    intro k
    have same : readKey ((KeyRequest.delete a b c field full).encode ++ behind) =
      readKey ([DELETE, a, b, c] ++ (cstr field ++ [0])) := copied.trans (canonical [DELETE, a, b, c] rfl).symm
    rw [readDeleteStruct, readDeleteStruct, same]

/-- What follows the field in `store_data` is the value, or the zero byte behind the copy. -/
theorem store_terminated (terminated : 0 ∈ ((request.encode ++ behind).drop HEADERSIZE).take (KEY_SIZE + 1)) :
    0 ∈ ((request.encode ++ [0]).drop HEADERSIZE).take (KEY_SIZE + 1) := by
  rw [encode_drop, ← request.field_length, List.take_length_add_append, List.mem_append] at terminated ⊢
  refine terminated.imp_right fun next => ?_
  cases value : request.value with
  | nil => exact List.mem_singleton.mpr rfl
  | cons b rest => simpa [value] using next

end Fields

/-- A frame is handled as claimed exactly if there is a zero byte among the 64 of its key field or right behind
it. -/
theorem full_keys_handled (request : KeyRequest) (behind : Bytes) :
    request.Handled behind ↔ 0 ∈ (request.field ++ (request.value ++ behind)).take (KEY_SIZE + 1) := by
  rw [← encode_drop]
  constructor
  · exact fun handled => bounded_iff.mp handled.kernel.bounded
  · intro terminated
    exact ⟨keyCopied_of terminated, served_of terminated, keyCopied_of (store_terminated terminated)⟩

/-- A key of 64 bytes before a value without a zero byte: 67 bytes are copied, and the last of them becomes the
length in the object, so that only one of three bytes is stored. -/
theorem full_key_overruns :
    let request : KeyRequest := .insert 0 (List.replicate 64 107) [1, 1, 1] rfl (by decide)
    ¬request.Handled [0] ∧ keyLength (request.encode ++ [0]) = some 67 ∧
      ∃ object, fillObject (calloc 88) (calloc 8) (request.encode ++ [0]) = some (object, [1]) := by
  intro request
  have long : keyLength (request.encode ++ [0]) = some 67 := by decide +kernel
  refine ⟨fun handled => ?_, long, _, rfl⟩
  obtain ⟨len, bound, found⟩ := handled.kernel.bounded
  cases long.symm.trans found
  exact absurd bound (by decide)

end Operativsystem.Store

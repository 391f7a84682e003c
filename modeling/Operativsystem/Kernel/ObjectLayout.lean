import Operativsystem.Kernel.NetlinkKernel

/-! # The key and the length in `struct rhash_object`

`read_INSERT_struct` writes the length into the object, copies the key by its `strlen` and then reads the
length back for the value. Here the object is the memory that `kmalloc` returned, with the members where a
64-bit machine puts them: the node, 65 bytes of key, a gap, two bytes of length, a gap and the pointer to the
value. A key text that fits its field changes the key and nothing else.
-/

namespace Operativsystem.Kernel

open Memory Resources

/-- The members of the object, as they lie in its memory. -/
structure ObjectBytes where
  node : Bytes
  key : Bytes
  gap : Bytes
  dataBytes : Bytes
  gap' : Bytes
  data : Bytes
  node_length : node.length = 8
  key_length : key.length = KEY_SIZE + 1
  gap_length : gap.length = 1
  dataBytes_length : dataBytes.length = 2
  gap'_length : gap'.length = 4
  data_length : data.length = 8

def ObjectBytes.memory (obj : ObjectBytes) : Bytes :=
  obj.node ++ obj.key ++ obj.gap ++ obj.dataBytes ++ obj.gap' ++ obj.data

abbrev keyOffset : ℕ := 8

abbrev dataBytesOffset : ℕ := 74

abbrev dataOffset : ℕ := 80

/-- `read_INSERT_struct` on the memory of the object, from the length to the value. The value is copied to
`address`, which the object points to. -/
def fillObject (object address request : Bytes) : Option (Bytes × Bytes) := do
  let object ← memcpy object dataBytesOffset (request.drop 1) 2
  let object ← memcpy object keyOffset (calloc (KEY_SIZE + 1)) (KEY_SIZE + 1)
  let field := request.drop HEADERSIZE
  let len ← strlen field
  let object ← memcpy object keyOffset field len
  let object ← memcpy object (keyOffset + KEY_SIZE) [0] 1
  let dataBytes ← read16 object dataBytesOffset
  let object ← memcpy object dataOffset address 8
  let data ← memcpy (calloc dataBytes) 0 (request.drop (HEADERSIZE + KEY_SIZE)) dataBytes
  some (object, data)

/-- The object with its key, its length and its value, and everything else as it was. -/
def ObjectBytes.fill (obj : ObjectBytes) (text address : Bytes) (lo hi : Byte) (fits : text.length ≤ KEY_SIZE)
    (pointer : address.length = 8) : ObjectBytes :=
  { obj with
    key := padded (KEY_SIZE + 1) text, key_length := padded_length (Nat.le_succ_of_le fits)
    dataBytes := [lo, hi], dataBytes_length := rfl
    data := address, data_length := pointer }

section Fill

variable {request text rest value behind address : Bytes} {lo hi : Byte}

/-- The key is copied over a zeroed field and leaves the bytes around it alone. -/
private theorem copied_key (before after rest : Bytes) (width : before.length = keyOffset)
    (fits : text.length ≤ KEY_SIZE) :
    memcpy (before ++ calloc (KEY_SIZE + 1) ++ after) keyOffset (text ++ 0 :: rest) text.length =
      some (before ++ padded (KEY_SIZE + 1) text ++ after) := by
  rw [← width]
  exact memcpy_field before after (0 :: rest) (Nat.le_succ_of_le fits)

private theorem ended_key (before after : Bytes) (width : before.length = keyOffset)
    (fits : text.length ≤ KEY_SIZE) :
    memcpy (before ++ padded (KEY_SIZE + 1) text ++ after) (keyOffset + KEY_SIZE) [0] 1 =
      some (before ++ padded (KEY_SIZE + 1) text ++ after) := by
  have last : padded (KEY_SIZE + 1) text = padded KEY_SIZE text ++ [0] := by
    rw [padded, padded, show KEY_SIZE + 1 - text.length = KEY_SIZE - text.length + 1 by omega, calloc_add]
    simp [calloc]
  have parts : before ++ padded (KEY_SIZE + 1) text ++ after =
      (before ++ padded KEY_SIZE text) ++ [0] ++ after := by
    rw [last]
    simp
  rw [parts]
  exact memcpy_parts rfl (by rw [List.length_append, width, padded_length fits]) rfl le_rfl

/-- A key text of at most 64 bytes, whatever follows it: the object holds it zero-padded and the length of the
header, the value is copied whole, and no other byte of the object changes. -/
theorem fillObject_text (obj : ObjectBytes) (header : request.drop 1 = lo :: hi :: behind)
    (field : request.drop HEADERSIZE = text ++ 0 :: rest) (clean : 0 ∉ text) (fits : text.length ≤ KEY_SIZE)
    (length : le16 lo hi = value.length) {tail : Bytes}
    (body : request.drop (HEADERSIZE + KEY_SIZE) = value ++ tail) (pointer : address.length = 8) :
    fillObject obj.memory address request = some ((obj.fill text address lo hi fits pointer).memory, value) := by
  obtain ⟨node, key, gap, dataBytes, gap', data, nodeLength, keyLength, gapLength, dataBytesLength, gapLength',
    dataLength⟩ := obj
  have written : memcpy (node ++ key ++ gap ++ dataBytes ++ gap' ++ data) dataBytesOffset (lo :: hi :: behind) 2 =
      some (node ++ key ++ (gap ++ [lo, hi] ++ gap' ++ data)) := by
    have parts : node ++ key ++ gap ++ dataBytes ++ gap' ++ data =
        (node ++ key ++ gap) ++ dataBytes ++ (gap' ++ data) := by simp
    have front : (node ++ key ++ gap).length = dataBytesOffset := by
      simp only [List.length_append, nodeLength, keyLength, gapLength]
      rfl
    rw [memcpy_parts parts front dataBytesLength (by simp)]
    simp
  have zeroed : memcpy (node ++ key ++ (gap ++ [lo, hi] ++ gap' ++ data)) keyOffset (calloc (KEY_SIZE + 1))
      (KEY_SIZE + 1) = some (node ++ calloc (KEY_SIZE + 1) ++ (gap ++ [lo, hi] ++ gap' ++ data)) := by
    rw [memcpy_parts rfl nodeLength keyLength (by simp), List.take_of_length_le (by simp)]
  have copied := copied_key node (gap ++ [lo, hi] ++ gap' ++ data) rest nodeLength fits
  have ended := ended_key node (gap ++ [lo, hi] ++ gap' ++ data) nodeLength fits
  have front : (node ++ padded (KEY_SIZE + 1) text ++ gap).length = dataBytesOffset := by
    simp only [List.length_append, nodeLength, gapLength, padded_length (Nat.le_succ_of_le fits)]
    rfl
  have read : read16 (node ++ padded (KEY_SIZE + 1) text ++ (gap ++ [lo, hi] ++ gap' ++ data)) dataBytesOffset =
      some value.length := by
    rw [← length, ← front]
    apply read16_word
    rw [show node ++ padded (KEY_SIZE + 1) text ++ (gap ++ [lo, hi] ++ gap' ++ data) =
      (node ++ padded (KEY_SIZE + 1) text ++ gap) ++ (lo :: hi :: (gap' ++ data)) by simp, List.drop_left]
  have pointed : memcpy (node ++ padded (KEY_SIZE + 1) text ++ (gap ++ [lo, hi] ++ gap' ++ data)) dataOffset
      address 8 = some (node ++ padded (KEY_SIZE + 1) text ++ gap ++ [lo, hi] ++ gap' ++ address) := by
    have parts : node ++ padded (KEY_SIZE + 1) text ++ (gap ++ [lo, hi] ++ gap' ++ data) =
        (node ++ padded (KEY_SIZE + 1) text ++ gap ++ [lo, hi] ++ gap') ++ data ++ [] := by simp
    rw [memcpy_parts parts (by rw [List.length_append, List.length_append, front, gapLength']; rfl) dataLength
      pointer.ge, List.take_of_length_le pointer.le]
    simp
  have stored : memcpy (calloc value.length) 0 (value ++ tail) value.length = some value := by
    rw [memcpy_front (by simp) (by simp)]
    simp [calloc]
  simp only [fillObject, ObjectBytes.memory, header, written, zeroed, field, strlen_text clean, copied, ended,
    read, pointed, body, stored, Option.bind_eq_bind, Option.bind_some, ObjectBytes.fill]

end Fill

end Operativsystem.Kernel

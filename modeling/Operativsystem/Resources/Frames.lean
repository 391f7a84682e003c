import Operativsystem.Resources.Socket

/-! # Frames and their decoding

A frame carries the facts that make it well formed: its field sizes and that its lengths fit
the 16 bits of the header. A reader answers a frame with a fixed list of `recv` loops. When every
consuming call of them is answered in full, the PDU holds the frame and the next reader starts at
the next frame, so a stream of frames is decoded frame by frame.
-/

namespace Operativsystem.Resources

open Memory

inductive Frame where
  | init (a b c : Byte)
  | insert (pad : Byte) (key value : Bytes) (field : key.length = KEY_SIZE)
      (fits : value.length + HEADERSIZE + KEY_SIZE < 65536)
  | get (a b c : Byte) (key : Bytes) (field : key.length = KEY_SIZE)
  | delete (a b c : Byte) (key : Bytes) (field : key.length = KEY_SIZE)
  | join (pad : Byte) (name : Bytes) (fits : name.length < 65536)
  | kernel (pad : Byte) (payload : Bytes) (fits : payload.length + HEADERSIZE < 65536)
  | quit (a b c : Byte)

namespace Frame

def encode : Frame → Bytes
  | .init a b c => [INIT, a, b, c]
  | .insert pad key value _ _ =>
    INSERT :: lowByte value.length :: highByte value.length :: pad :: key ++ value
  | .get a b c key _ => GET :: a :: b :: c :: key
  | .delete a b c key _ => DELETE :: a :: b :: c :: key
  | .join pad name _ => JOIN :: lowByte name.length :: highByte name.length :: pad :: name
  | .kernel pad payload _ =>
    KERNEL :: lowByte payload.length :: highByte payload.length :: pad :: payload
  | .quit a b c => [QUIT, a, b, c]

/-- The PDU that stands for the frame: requests keep the whole frame, JOIN its terminated name and
KERNEL its payload, in a buffer that ends in eight spare bytes. -/
def pdu (sock : ℕ) (frame : Frame) : Pdu :=
  match frame with
  | .init .. => ⟨INIT, frame.encode.length, .bytes frame.encode⟩
  | .insert .. => ⟨INSERT, frame.encode.length, .bytes frame.encode⟩
  | .get .. => ⟨GET, frame.encode.length, .bytes frame.encode⟩
  | .delete .. => ⟨DELETE, frame.encode.length, .bytes frame.encode⟩
  | .join _ name _ => ⟨JOIN, name.length, .join name.length (name ++ [0])⟩
  | .kernel _ payload _ => ⟨KERNEL, payload.length, .bytes (payload ++ calloc 8)⟩
  | .quit .. => ⟨QUIT, 0, .quit (u16 sock)⟩

end Frame

/-- A `recv` loop of a reader: peek at the header, or consume a number of bytes. -/
inductive RecvLoop where
  | peek
  | take (asked : ℕ)

/-- The loops that the reader of a frame runs. -/
def Frame.loops : Frame → List RecvLoop
  | .init .. => [.take HEADERSIZE]
  | .insert _ _ value _ _ => [.peek, .take (value.length + HEADERSIZE + KEY_SIZE)]
  | .get .. => [.take (HEADERSIZE + KEY_SIZE)]
  | .delete .. => [.take (HEADERSIZE + KEY_SIZE)]
  | .join _ name _ => [.take HEADERSIZE, .take name.length]
  | .kernel _ payload _ => [.take HEADERSIZE, .take payload.length]
  | .quit .. => [.take HEADERSIZE]

/-- The script after a peek that succeeds: short peeks are repeated. -/
def peekFull : List RecvChoice → Option (List RecvChoice)
  | [] => some []
  | .fail :: _ => none
  | .deliver limit :: script => if HEADERSIZE ≤ limit + 1 then some script else peekFull script

/-- The script after a consuming call that delivers all it is asked for. -/
def takeFull (asked : ℕ) (script : List RecvChoice) : Option (List RecvChoice) :=
  if asked = 0 then some script
  else
    match script with
    | [] => some []
    | .fail :: _ => none
    | .deliver limit :: script => if asked ≤ limit + 1 then some script else none

/-- The script after loops that are all answered in full. -/
def answered : List RecvLoop → List RecvChoice → Option (List RecvChoice)
  | [], script => some script
  | .peek :: loops, script => (peekFull script).bind (answered loops)
  | .take asked :: loops, script => (takeFull asked script).bind (answered loops)

theorem answered_nil (loops : List RecvLoop) : answered loops [] = some [] := by
  induction loops with
  | nil => rfl
  | cons loop loops ih => cases loop <;> simp [answered, peekFull, takeFull, ih]

section Loops

variable {script script' : List RecvChoice} {got rest buffer : Bytes} {asked : ℕ}

/-- A loop that is answered in full fills the front of its buffer with the bytes it asked for. -/
theorem readInto_take (full : takeFull asked script = some script') (width : got.length = asked) :
    readInto asked false buffer ⟨got ++ rest, script⟩ =
      some (got ++ buffer.drop asked, ⟨rest, script'⟩) := by
  subst width
  by_cases empty : got.length = 0
  · obtain rfl : got = [] := List.length_eq_zero_iff.mp empty
    have same : script = script' := by simpa [takeFull] using full
    simp [readInto, same]
  · rw [readInto, if_neg empty]
    cases script with
    | nil =>
      obtain rfl : [] = script' := by simpa [takeFull] using full
      simp [readLoop, remaining]
    | cons choice script =>
      cases choice with
      | fail => simp [takeFull, empty] at full
      | deliver limit =>
        simp only [takeFull, if_neg empty, Option.ite_none_right_eq_some, Option.some.injEq] at full
        obtain ⟨enough, rfl⟩ := full
        have whole : (got ++ rest).take (min got.length (limit + 1)) = got := by
          rw [Nat.min_eq_left enough, List.take_left]
        simp [readLoop, remaining, whole]

/-- A short peek only writes bytes that the next peek writes again. -/
theorem readInto_peek (full : peekFull script = some script') (width : got.length = HEADERSIZE)
    (size : buffer.length = HEADERSIZE) :
    readInto HEADERSIZE true buffer ⟨got ++ rest, script⟩ =
      some (got, ⟨got ++ rest, script'⟩) := by
  have whole : (got ++ rest).take HEADERSIZE = got := by rw [← width, List.take_left]
  have covered {buffer : Bytes} (size : buffer.length = HEADERSIZE) :
      got ++ buffer.drop HEADERSIZE = got := by simp [List.drop_eq_nil_of_le size.le]
  rw [readInto, if_neg (by decide)]
  induction script generalizing buffer with
  | nil =>
    obtain rfl : [] = script' := Option.some.inj full
    have enough : HEADERSIZE ≤ (got ++ rest).length := by
      rw [List.length_append]
      omega
    rw [readLoop, if_pos enough, whole, covered size]
    rfl
  | cons choice script ih =>
    cases choice with
    | fail => simp [peekFull] at full
    | deliver limit =>
      rw [peekFull] at full
      by_cases enough : HEADERSIZE ≤ limit + 1
      · rw [if_pos enough] at full
        obtain rfl : script = script' := Option.some.inj full
        simp only [readLoop, Nat.min_eq_left enough, whole, width, lt_irrefl, if_false, covered size]
        rfl
      · rw [if_neg enough] at full
        have cut : ((got ++ rest).take (min HEADERSIZE (limit + 1))).length = limit + 1 := by
          rw [List.length_take, List.length_append]
          omega
        simp only [readLoop, cut, if_pos (not_le.mp enough)]
        apply ih full
        rw [List.length_append, List.length_drop, cut]
        omega

end Loops

section Readers

variable {script middle script' : List RecvChoice} {frame rest : Bytes}

/-- The length that a reader takes from a header. -/
private theorem read16_header {n : ℕ} (bound : n < 65536) (opCode pad : Byte) (rest : Bytes) :
    read16 (opCode :: lowByte n :: highByte n :: pad :: rest) 1 = some n := by
  simp [read16, le16_bytes, u16_of_lt bound]

theorem readInit_frame (full : takeFull HEADERSIZE script = some script')
    (width : frame.length = HEADERSIZE) :
    readInit ⟨frame ++ rest, script⟩ = some (⟨INIT, HEADERSIZE, .bytes frame⟩, ⟨rest, script'⟩) := by
  have copied : memcpy (calloc HEADERSIZE) 0 frame HEADERSIZE = some frame := by
    rw [memcpy_front width.ge (by simp), List.take_of_length_le width.le]
    simp [calloc]
  have header : readInto HEADERSIZE false (calloc HEADERSIZE) ⟨frame ++ rest, script⟩ =
      some (frame, ⟨rest, script'⟩) := by
    rw [readInto_take full width]
    simp [calloc]
  simp only [readInit, header, copied, Option.bind_eq_bind, Option.bind_some]

theorem readQuit_frame (sock : ℕ) (full : takeFull HEADERSIZE script = some script')
    (width : frame.length = HEADERSIZE) :
    readQuit sock ⟨frame ++ rest, script⟩ = some (⟨QUIT, 0, .quit (u16 sock)⟩, ⟨rest, script'⟩) := by
  rw [readQuit, readInto_take full width]
  rfl

theorem readKeyRequest_frame (opCode : Byte)
    (full : takeFull (HEADERSIZE + KEY_SIZE) script = some script')
    (width : frame.length = HEADERSIZE + KEY_SIZE) :
    readKeyRequest opCode ⟨frame ++ rest, script⟩ =
      some (⟨opCode, frame.length, .bytes frame⟩, ⟨rest, script'⟩) := by
  rw [readKeyRequest, readInto_take full width, width]
  simp [calloc]

theorem readInsert_frame (pad : Byte) {body : Bytes} {n : ℕ} (peeked : peekFull script = some middle)
    (full : takeFull (n + HEADERSIZE + KEY_SIZE) middle = some script')
    (fits : n + HEADERSIZE + KEY_SIZE < 65536)
    (header : frame = INSERT :: lowByte n :: highByte n :: pad :: body)
    (width : frame.length = n + HEADERSIZE + KEY_SIZE) :
    readInsert ⟨frame ++ rest, script⟩ =
      some (⟨INSERT, frame.length, .bytes frame⟩, ⟨rest, script'⟩) := by
  have bound : n < 65536 := by omega
  have head : readInto HEADERSIZE true (calloc HEADERSIZE) ⟨frame ++ rest, script⟩ =
      some ([INSERT, lowByte n, highByte n, pad], ⟨frame ++ rest, middle⟩) := by
    have split : frame ++ rest = [INSERT, lowByte n, highByte n, pad] ++ (body ++ rest) := by
      simp [header]
    rw [split]
    exact readInto_peek peeked rfl rfl
  rw [readInsert, head]
  simp only [Option.bind_eq_bind, Option.bind_some, read16_header bound, u16_of_lt fits,
    readInto_take full width, width]
  simp [calloc]

theorem readJoin_frame (pad : Byte) {name : Bytes} (fits : name.length < 65536)
    (headed : takeFull HEADERSIZE script = some middle)
    (full : takeFull name.length middle = some script') :
    readJoin ⟨JOIN :: lowByte name.length :: highByte name.length :: pad :: name ++ rest, script⟩ =
      some (⟨JOIN, name.length, .join name.length (name ++ [0])⟩, ⟨rest, script'⟩) := by
  have head : readInto HEADERSIZE false (calloc HEADERSIZE)
      ⟨[JOIN, lowByte name.length, highByte name.length, pad] ++ (name ++ rest), script⟩ =
        some ([JOIN, lowByte name.length, highByte name.length, pad], ⟨name ++ rest, middle⟩) :=
    readInto_take headed rfl
  have body : readInto name.length false (calloc (name.length + 1)) ⟨name ++ rest, middle⟩ =
      some (name ++ [0], ⟨rest, script'⟩) := by
    rw [readInto_take full rfl]
    simp [calloc]
  simp only [List.cons_append, List.nil_append] at head
  simp only [readJoin, List.cons_append, head, Option.bind_eq_bind, Option.bind_some,
    read16_header fits, body]

theorem readKernel_frame (pad : Byte) {payload : Bytes} (fits : payload.length < 65536)
    (headed : takeFull HEADERSIZE script = some middle)
    (full : takeFull payload.length middle = some script') :
    readKernel ⟨KERNEL :: lowByte payload.length :: highByte payload.length :: pad :: payload ++ rest,
      script⟩ =
        some (⟨KERNEL, payload.length, .bytes (payload ++ calloc 8)⟩, ⟨rest, script'⟩) := by
  have head : readInto HEADERSIZE false (calloc HEADERSIZE)
      ⟨[KERNEL, lowByte payload.length, highByte payload.length, pad] ++ (payload ++ rest), script⟩ =
        some ([KERNEL, lowByte payload.length, highByte payload.length, pad],
          ⟨payload ++ rest, middle⟩) := readInto_take headed rfl
  have body : readInto payload.length false (calloc (payload.length + 8)) ⟨payload ++ rest, middle⟩ =
      some (payload ++ calloc 8, ⟨rest, script'⟩) := by
    rw [readInto_take full rfl]
    simp [calloc]
  simp only [List.cons_append, List.nil_append] at head
  simp only [readKernel, List.cons_append, head, Option.bind_eq_bind, Option.bind_some,
    read16_header fits, body]

end Readers

/-- The opcode that starts the frame. -/
def Frame.opCode : Frame → Byte
  | .init .. => INIT
  | .insert .. => INSERT
  | .get .. => GET
  | .delete .. => DELETE
  | .join .. => JOIN
  | .kernel .. => KERNEL
  | .quit .. => QUIT

theorem Frame.encode_eq (frame : Frame) : ∃ a b c body,
    frame.encode = frame.opCode :: a :: b :: c :: body := by
  cases frame <;> exact ⟨_, _, _, _, rfl⟩

/-- The reader of a frame returns its PDU and consumes exactly its bytes. -/
theorem readExactly_frame (sock : ℕ) (frame : Frame) (rest : Bytes) {script script' : List RecvChoice}
    (full : answered frame.loops script = some script') :
    readExactly sock frame.opCode ⟨frame.encode ++ rest, script⟩ =
      some (.pdu (frame.pdu sock), ⟨rest, script'⟩) := by
  cases frame with
  | init a b c =>
    have full : takeFull HEADERSIZE script = some script' := by simpa [Frame.loops, answered] using full
    exact congrArg received (readInit_frame full rfl)
  | insert pad key value field fits =>
    obtain ⟨middle, peeked, full⟩ := Option.bind_eq_some_iff.mp full
    have full : takeFull (value.length + HEADERSIZE + KEY_SIZE) middle = some script' := by
      simpa [answered] using full
    refine congrArg received (readInsert_frame pad peeked full fits List.cons_append ?_)
    simp only [Frame.encode, List.length_cons, List.length_append, field, HEADERSIZE]
    omega
  | get a b c key field =>
    have full : takeFull (HEADERSIZE + KEY_SIZE) script = some script' := by
      simpa [Frame.loops, answered] using full
    exact congrArg received (readKeyRequest_frame GET full (by simp [Frame.encode, field, HEADERSIZE, KEY_SIZE]))
  | delete a b c key field =>
    have full : takeFull (HEADERSIZE + KEY_SIZE) script = some script' := by
      simpa [Frame.loops, answered] using full
    exact congrArg received
      (readKeyRequest_frame DELETE full (by simp [Frame.encode, field, HEADERSIZE, KEY_SIZE]))
  | join pad name fits =>
    obtain ⟨middle, headed, full⟩ := Option.bind_eq_some_iff.mp full
    have full : takeFull name.length middle = some script' := by simpa [answered] using full
    exact congrArg received (readJoin_frame pad fits headed full)
  | kernel pad payload fits =>
    obtain ⟨middle, headed, full⟩ := Option.bind_eq_some_iff.mp full
    have full : takeFull payload.length middle = some script' := by simpa [answered] using full
    exact congrArg received (readKernel_frame pad (Nat.lt_of_add_right_lt fits) headed full)
  | quit a b c =>
    have full : takeFull HEADERSIZE script = some script' := by simpa [Frame.loops, answered] using full
    exact congrArg received (readQuit_frame sock full rfl)

/-- On a connection that delivers what it is asked for, one call decodes one frame. -/
theorem receivePdu_frame (sock : ℕ) (frame : Frame) (rest : Bytes) :
    receivePdu sock ⟨frame.encode ++ rest, []⟩ = some (.pdu (frame.pdu sock), ⟨rest, []⟩) := by
  have read := readExactly_frame sock frame rest (answered_nil frame.loops)
  obtain ⟨a, b, c, body, encoded⟩ := frame.encode_eq
  simp only [encoded, List.cons_append] at read ⊢
  have enough : HEADERSIZE ≤ (frame.opCode :: a :: b :: c :: (body ++ rest)).length := by
    simp only [List.length_cons, HEADERSIZE]
    omega
  simp only [receivePdu, peekOpCode, if_pos enough, Option.bind_eq_bind, Option.bind_some, read]

/-- Every `recv` delivers all that it is asked for: no reader asks for more than 16 bits can say. -/
def Whole (script : List RecvChoice) : Prop := ∀ choice ∈ script, ∃ limit, choice = .deliver limit ∧ 65535 ≤ limit

theorem whole_nil : Whole [] := fun _ member => absurd member List.not_mem_nil

section Whole

variable {script script' : List RecvChoice}

theorem Whole.suffix (whole : Whole script) (left : script' <:+ script) : Whole script' :=
  fun choice member => whole choice (left.subset member)

theorem Whole.cons {choice : RecvChoice} (whole : Whole (choice :: script)) :
    ∃ limit, choice = .deliver limit ∧ 65535 ≤ limit :=
  whole choice List.mem_cons_self

theorem peekFull_whole (whole : Whole script) : ∃ script', peekFull script = some script' ∧ script' <:+ script := by
  cases script with
  | nil => exact ⟨[], rfl, List.suffix_rfl⟩
  | cons choice script =>
    obtain ⟨limit, rfl, enough⟩ := whole.cons
    refine ⟨script, if_pos ?_, List.suffix_cons _ _⟩
    simp only [HEADERSIZE]
    omega

theorem takeFull_whole (whole : Whole script) {asked : ℕ} (bound : asked < 65536) :
    ∃ script', takeFull asked script = some script' ∧ script' <:+ script := by
  by_cases empty : asked = 0
  · exact ⟨script, if_pos empty, List.suffix_rfl⟩
  cases script with
  | nil => exact ⟨[], if_neg empty, List.suffix_rfl⟩
  | cons choice script =>
    obtain ⟨limit, rfl, enough⟩ := whole.cons
    exact ⟨script, (if_neg empty).trans (if_pos (by omega)), List.suffix_cons _ _⟩

theorem answered_whole {loops : List RecvLoop} (bound : ∀ asked, .take asked ∈ loops → asked < 65536)
    (whole : Whole script) : ∃ script', answered loops script = some script' ∧ script' <:+ script := by
  induction loops generalizing script with
  | nil => exact ⟨script, rfl, List.suffix_rfl⟩
  | cons loop loops ih =>
    obtain ⟨middle, first, left⟩ : ∃ middle, answered (loop :: loops) script = answered loops middle ∧
        middle <:+ script := by
      cases loop with
      | peek =>
        obtain ⟨middle, peeked, left⟩ := peekFull_whole whole
        exact ⟨middle, by rw [answered, peeked, Option.bind_some], left⟩
      | take asked =>
        obtain ⟨middle, taken, left⟩ := takeFull_whole whole (bound asked List.mem_cons_self)
        exact ⟨middle, by rw [answered, taken, Option.bind_some], left⟩
    obtain ⟨script', others, left'⟩ :=
      ih (fun asked member => bound asked (List.mem_cons_of_mem _ member)) (whole.suffix left)
    exact ⟨script', first.trans others, left'.trans left⟩

theorem Frame.loops_bound (frame : Frame) {asked : ℕ} (member : .take asked ∈ frame.loops) : asked < 65536 := by
  cases frame with
  | insert pad key value field fits =>
    obtain rfl : asked = value.length + HEADERSIZE + KEY_SIZE := by simpa [Frame.loops] using member
    exact fits
  | join pad name fits =>
    obtain rfl | rfl : asked = HEADERSIZE ∨ asked = name.length := by simpa [Frame.loops] using member
    · decide
    · exact fits
  | kernel pad payload fits =>
    obtain rfl | rfl : asked = HEADERSIZE ∨ asked = payload.length := by simpa [Frame.loops] using member
    · decide
    · exact Nat.lt_of_add_right_lt fits
  | get a b c key field | delete a b c key field =>
    obtain rfl : asked = HEADERSIZE + KEY_SIZE := by simpa [Frame.loops] using member
    decide
  | init a b c | quit a b c =>
    obtain rfl : asked = HEADERSIZE := by simpa [Frame.loops] using member
    decide

/-- One call decodes one frame. -/
theorem receivePdu_whole (sock : ℕ) (frame : Frame) (rest : Bytes) (whole : Whole script) :
    ∃ script', receivePdu sock ⟨frame.encode ++ rest, script⟩ =
      some (.pdu (frame.pdu sock), ⟨rest, script'⟩) ∧ script' <:+ script := by
  obtain ⟨middle, peeked, left⟩ : ∃ middle, peekOpCode script (frame.encode ++ rest) =
      some (.inl frame.opCode, ⟨frame.encode ++ rest, middle⟩) ∧ middle <:+ script := by
    obtain ⟨a, b, c, body, encoded⟩ := frame.encode_eq
    have enough : HEADERSIZE ≤ (frame.encode ++ rest).length := by
      simp only [encoded, List.length_append, List.length_cons, HEADERSIZE]
      omega
    rw [encoded] at enough ⊢
    cases script with
    | nil => exact ⟨[], if_pos enough, List.suffix_rfl⟩
    | cons choice script =>
      obtain ⟨limit, rfl, full⟩ := whole.cons
      refine ⟨script, if_neg (not_lt.mpr (le_min ?_ enough)), List.suffix_cons _ _⟩
      simp only [HEADERSIZE]
      omega
  obtain ⟨script', full, left'⟩ := answered_whole (fun _ member => frame.loops_bound member) (whole.suffix left)
  refine ⟨script', ?_, left'.trans left⟩
  simp only [receivePdu, peeked, Option.bind_eq_bind, Option.bind_some]
  exact readExactly_frame sock frame rest full

end Whole

/-- Repeated `receive_pdu` decodes a stream of frames one frame a call, consuming exactly the
bytes of the frames it has returned, and then reports the end of the stream. -/
theorem receiveMany_frames (sock : ℕ) (frames : List Frame) :
    (∀ k ≤ frames.length, receiveMany sock k ⟨frames.flatMap Frame.encode, []⟩ =
      some ((frames.take k).map fun frame => .pdu (frame.pdu sock),
        ⟨(frames.drop k).flatMap Frame.encode, []⟩)) ∧
    receiveMany sock (frames.length + 1) ⟨frames.flatMap Frame.encode, []⟩ =
      some (frames.map (fun frame => .pdu (frame.pdu sock)) ++ [.endOfStream], ⟨[], []⟩) := by
  induction frames with
  | nil =>
    refine ⟨fun k bound => ?_, rfl⟩
    obtain rfl : k = 0 := Nat.le_zero.mp bound
    rfl
  | cons frame frames ih =>
    obtain ⟨prefixes, whole⟩ := ih
    refine ⟨fun k bound => ?_, ?_⟩
    · cases k with
      | zero => rfl
      | succ k =>
        have fewer := prefixes k (Nat.le_of_succ_le_succ bound)
        simp only [receiveMany, List.flatMap_cons, receivePdu_frame, Option.bind_eq_bind,
          Option.bind_some, fewer]
        rfl
    · simp only [List.length_cons, receiveMany, List.flatMap_cons, receivePdu_frame,
        Option.bind_eq_bind, Option.bind_some] at whole ⊢
      simp only [whole]
      rfl

end Operativsystem.Resources

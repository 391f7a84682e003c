import Mathlib.Data.List.FinRange
import Operativsystem.Pipeline.AnswerOrder
import Operativsystem.Pipeline.MenuSession

/-! # Typed commands

A user types lines of the menu and the keys and values they ask for. While the lines fit their arrays, a client
that nobody kicks sends exactly the requests that were typed, and the server's thread hands over these and no
others.
-/

namespace Operativsystem.Pipeline

open Memory Resources Machine Client User Store

/-- What may follow the first character of a line of the menu. -/
structure Tail where
  text : Bytes
  unbroken : newline ∉ text
  fits : text.length + 2 < MAXMESSLEN

/-- A line that a prompt takes as it is. -/
structure Line where
  text : Bytes
  enterable : Enterable text

theorem Line.key_fits (line : Line) : line.text.length < KEY_SIZE := line.enterable.2.2.1.trans_lt (by decide)

theorem Line.value_fits (line : Line) : (line.text ++ [0]).length + HEADERSIZE + KEY_SIZE ≤ MAX_PAYLOAD := by
  have fits := line.enterable.2.2.1
  simp only [List.length_append, List.length_singleton, MAXMESSLEN, HEADERSIZE, KEY_SIZE, MAX_PAYLOAD] at fits ⊢
  omega

def Line.key (line : Line) : Key := ⟨line.text, line.enterable.2.2.2, line.key_fits⟩

def Line.value (line : Line) : Value := ⟨line.text ++ [0], List.concat_ne_nil 0 line.text, line.value_fits⟩

/-- A text and its terminator as the value of an INSERT. -/
theorem createInsertToServer_typed {key text junk : Bytes} (clean : 0 ∉ key) (fits : key.length < KEY_SIZE)
    (readable : KEY_SIZE ≤ (key ++ 0 :: junk).length)
    (small : (text ++ [0]).length + HEADERSIZE + KEY_SIZE ≤ MAX_PAYLOAD) (extra : Bytes) :
    createInsertToServer (key ++ 0 :: junk) (text ++ 0 :: extra) (text.length + 1) =
      some ⟨USER, (insertFrame key (text ++ [0])).length, .bytes (insertFrame key (text ++ [0]))⟩ := by
  have built := createInsertToServer_eq ⟨junk, readable⟩ clean fits (text ++ [0]) extra
  have terminated : text ++ [0] ++ extra = text ++ 0 :: extra := by simp
  have length : (text ++ [0]).length = text.length + 1 := List.length_append
  rwa [u16_of_lt (small.trans_lt (by decide)), ← insertFrame_length fits.le, terminated, length] at built

section Decimal

/-- The digits can be read back from the bytes. -/
theorem decimal_chars (i : ℕ) : (decimal i).map (fun b => Char.ofNat b.toNat) = Nat.toDigits 10 i := by
  rw [decimal, ascii, Nat.toList_repr, List.map_map]
  refine (List.map_congr_left fun c digit => ?_).trans (List.map_id _)
  have isDigit := Nat.isDigit_of_mem_toDigits (by decide) (by decide) digit
  have small : c.toNat < 256 := by
    simp only [Char.isDigit, Bool.and_eq_true, decide_eq_true_iff] at isDigit
    exact (UInt32.le_iff_toNat_le.mp isDigit.2).trans_lt (by decide)
  rw [Function.comp_apply, UInt8.toNat_ofNat', Nat.mod_eq_of_lt small, Char.ofNat_toNat, id]

theorem decimal_injective : Function.Injective decimal := by
  intro i j same
  have digits : Nat.toDigits 10 i = Nat.toDigits 10 j := by rw [← decimal_chars, same, decimal_chars]
  rw [← @Nat.ofDigitChars_toDigits 10 i (by decide) (by decide), digits,
    Nat.ofDigitChars_toDigits (by decide) (by decide)]

theorem decimal_clean (i : ℕ) : 0 ∉ decimal i := by
  intro zero
  have digit : Char.ofNat (0 : Byte).toNat ∈ Nat.toDigits 10 i :=
    decimal_chars i ▸ List.mem_map_of_mem zero
  exact absurd (Nat.isDigit_of_mem_toDigits (by decide) (by decide) digit) (by decide)

theorem decimal_short (i : Fin 1000000) : (decimal i).length ≤ 6 := decimal_length_le (by decide) i.isLt

theorem numberKey_fits (i : Fin 1000000) : (decimal i).length < KEY_SIZE :=
  (decimal_short i).trans_lt (by decide)

theorem numberValue_fits (i : Fin 1000000) :
    (decimal i ++ [0]).length + HEADERSIZE + KEY_SIZE ≤ MAX_PAYLOAD := by
  have short := decimal_short i
  simp only [List.length_append, List.length_singleton, HEADERSIZE, KEY_SIZE, MAX_PAYLOAD]
  omega

def numberKey (i : Fin 1000000) : Key := ⟨decimal i, decimal_clean i, numberKey_fits i⟩

def numberValue (i : Fin 1000000) : Value :=
  ⟨decimal i ++ [0], List.concat_ne_nil 0 (decimal i), numberValue_fits i⟩

/-- The request that a test sends for a number. -/
def numberRequest (i : Fin 1000000) : Request := .insert (numberKey i) (numberValue i)

theorem testNumber_lt {lowest count : ℕ} (bound : lowest + count ≤ 1000000) (i : Fin count) :
    lowest + i < 1000000 := by omega

def testNumber {lowest count : ℕ} (bound : lowest + count ≤ 1000000) (i : Fin count) : Fin 1000000 :=
  ⟨lowest + i, testNumber_lt bound i⟩

/-- The requests of `end_2_end_test_1` and `end_2_end_test_2`. -/
def testRequests (lowest count : ℕ) (bound : lowest + count ≤ 1000000) : List Request :=
  (List.finRange count).map fun i => numberRequest (testNumber bound i)

theorem testRequests_succ {lowest count : ℕ} (bound : lowest + (count + 1) ≤ 1000000) :
    testRequests lowest (count + 1) bound =
      numberRequest ⟨lowest, by omega⟩ :: testRequests (lowest + 1) count (by omega) := by
  simp only [testRequests, List.finRange_succ, List.map_cons, List.map_map, List.cons.injEq]
  refine ⟨rfl, List.map_congr_left fun i _ => ?_⟩
  simp only [Function.comp_apply, testNumber, Fin.val_succ]
  congr 2
  omega

theorem endToEndTest_eq {behind : ℕ → Bytes} (readable : ∀ i, KEY_SIZE ≤ (behind i).length)
    (lowest count : ℕ) (bound : lowest + count ≤ 1000000) :
    endToEndTest behind lowest count = some ((testRequests lowest count bound).map Request.frame) := by
  induction count generalizing lowest with
  | zero => rfl
  | succ count ih =>
    have memory : KEY_SIZE ≤ (decimal lowest ++ 0 :: behind lowest).length := by
      have behind := readable lowest
      simp only [List.length_append, List.length_cons]
      omega
    have small : lowest < 1000000 := by omega
    have built := createInsertToServer_typed (decimal_clean lowest) (numberKey_fits ⟨lowest, small⟩) memory
      (numberValue_fits ⟨lowest, small⟩) []
    simp only [endToEndTest, built, sendPdu_whole, ih (lowest + 1) (by omega), testRequests_succ,
      List.map_cons, Option.bind_eq_bind, Option.bind_some]
    rfl

end Decimal

/-- A line of the menu. -/
def menuLine (c : Byte) (extra : Tail) : Bytes := c :: extra.text ++ [newline]

/-- What a user may type at the menu. -/
inductive Command where
  | blank
  | init (extra : Tail)
  | insert (extra : Tail) (key value : Line)
  | get (extra : Tail) (key : Line)
  | delete (extra : Tail) (key : Line)
  | test1 (extra : Tail)
  | test2 (extra : Tail)
  | bad (c : Byte) (unknown : c ∉ [newline, 49, 50, 51, 52, 53, 54, 55, 56]) (extra : Tail)

namespace Command

/-- The characters that are typed. -/
def typed : Command → Bytes
  | .blank => [newline]
  | .init extra => menuLine 49 extra
  | .insert extra key value => menuLine 50 extra ++ (key.text ++ newline :: (value.text ++ [newline]))
  | .get extra key => menuLine 51 extra ++ (key.text ++ [newline])
  | .delete extra key => menuLine 52 extra ++ (key.text ++ [newline])
  | .test1 extra => menuLine 55 extra
  | .test2 extra => menuLine 56 extra
  | .bad c _ extra => menuLine c extra

theorem test1_bound : 0 + 1000000 ≤ 1000000 := le_of_eq (Nat.zero_add 1000000)

theorem test2_bound : 10000 + 10000 ≤ 1000000 := by omega

/-- The requests that they stand for. -/
def requests : Command → List Request
  | .blank => []
  | .init _ => [.init]
  | .insert _ key value => [.insert key.key value.value]
  | .get _ key => [.get key.key]
  | .delete _ key => [.delete key.key]
  | .test1 _ => testRequests 0 1000000 test1_bound
  | .test2 _ => testRequests 10000 10000 test2_bound
  | .bad .. => []

end Command

/-- Nobody kicks the client, and the 64 bytes from a key on can be read. -/
structure Quiet (t : MenuTurn) : Prop where
  opened : t.closeClient = false
  unshut : t.shutAfter = none
  key : KEY_SIZE ≤ t.behind.length
  test : ∀ i, KEY_SIZE ≤ (t.behindTest i).length

section Turns

variable {choice : ℤ} {t : MenuTurn} {stdin rest sent bytes : Bytes} {c : Byte} {extra : Tail} {pdu : Pdu}
  {pdus : List Bytes}

/-- The array behind a prompt that has read a line. -/
theorem enter_typed (line : Line) (rest : Bytes) {fuel : ℕ} (enough : line.text.length ≤ fuel) :
    ∃ p junk, enter fuel (line.text ++ newline :: rest) = some p ∧ p.Inside ∧ p.stdin = rest ∧
      p.buffer = line.text ++ 0 :: junk := by
  obtain ⟨unbroken, nonempty, fits, clean⟩ := line.enterable
  refine ⟨_, calloc (MAXMESSLEN - line.text.length),
    (enter_line unbroken nonempty fuel rest).trans (if_pos enough), ?_, rfl, ?_⟩
  · intro i member
    exact (List.mem_range.mp member).trans_le (fits.trans (Nat.le_succ _))
  · have ended : calloc (MAXMESSLEN - line.text.length) ++ [0] = 0 :: calloc (MAXMESSLEN - line.text.length) :=
      (calloc_add _ 1).symm.trans (calloc_succ _)
    rw [writes_line fits, List.append_assoc, ended]

theorem fgetsMessage_menuLine (other : c ≠ newline) (stdin : Bytes) :
    fgetsMessage t (menuLine c extra ++ stdin) = (c, stdin) := by
  have unbroken : newline ∉ c :: extra.text := by simp [Ne.symm other, extra.unbroken]
  have fits : (c :: extra.text).length < MAXMESSLEN - 1 := by
    have fits := extra.fits
    simp only [List.length_cons, MAXMESSLEN] at fits ⊢
    omega
  have read : fgets (MAXMESSLEN - 1) (menuLine c extra ++ stdin) = (c :: (extra.text ++ [newline]), stdin) := by
    simpa [menuLine] using fgets_line unbroken fits stdin
  simp only [fgetsMessage, read]

theorem fgetsMessage_blank (rest : Bytes) : fgetsMessage t (newline :: rest) = (newline, rest) := by
  have read : fgets (MAXMESSLEN - 1) (newline :: rest) = ([newline], rest) :=
    fgets_line List.not_mem_nil (by decide) rest
  simp only [fgetsMessage, read]

/-- What a client that nobody kicks sends arrives. -/
theorem send_quiet (quiet : Quiet t) (stdin sent rest : Bytes) (pdus : List Bytes) (menu now : Menu) :
    ClientSend.send ⟨stdin, sent, false, now⟩ t rest pdus menu = ⟨rest, sent ++ pdus.flatten, false, menu⟩ := by
  simp [ClientSend.send, quiet.unshut, beforeShut]

theorem clientSend_request (other : c ≠ newline) (quiet : Quiet t)
    (chosen : switchMessage t c stdin = some (.request pdu rest)) (whole : sendPdu pdu = some bytes) :
    clientSend choice ⟨menuLine c extra ++ stdin, sent, false, .looping⟩ t =
      some ⟨rest, sent ++ bytes, false, again choice⟩ := by
  simp only [clientSend, quiet.opened, fgetsMessage_menuLine other, chosen, whole, ne_eq, not_true_eq_false,
    if_false, Bool.false_eq_true, other, Option.bind_eq_bind, Option.bind_some, send_quiet quiet,
    List.flatten_singleton]

theorem clientSend_test (other : c ≠ newline) (quiet : Quiet t)
    (chosen : switchMessage t c stdin = some (.test pdus)) :
    clientSend choice ⟨menuLine c extra ++ stdin, sent, false, .looping⟩ t =
      some ⟨stdin, sent ++ pdus.flatten, false, again choice⟩ := by
  simp only [clientSend, quiet.opened, fgetsMessage_menuLine other, chosen, ne_eq, not_true_eq_false, if_false,
    Bool.false_eq_true, other, Option.bind_eq_bind, Option.bind_some, send_quiet quiet]

theorem chooseKey_typed {build : Bytes → Option Pdu} (line : Line) (readable : KEY_SIZE ≤ t.behind.length)
    (built : ∀ junk, KEY_SIZE ≤ (line.text ++ 0 :: junk).length → build (line.text ++ 0 :: junk) = some pdu) :
    chooseKey build t.behind (line.text ++ newline :: rest) = some (.request pdu rest) := by
  obtain ⟨p, junk, entered, inside, behind, buffer⟩ :=
    enter_typed line rest (show line.text.length ≤ (line.text ++ newline :: rest).length by simp)
  have made := built (junk ++ t.behind) (by simp; omega)
  simp only [chooseKey, entered, inside, buffer, behind, if_true, Option.bind_eq_bind, Option.bind_some,
    List.append_assoc, List.cons_append, made]

theorem chooseInsert_typed (key value : Line) (readable : KEY_SIZE ≤ t.behind.length) :
    chooseInsert t.behind (key.text ++ newline :: (value.text ++ newline :: rest)) =
      some (.request ⟨USER, (Request.insert key.key value.value).frame.length,
        .bytes (Request.insert key.key value.value).frame⟩ rest) := by
  obtain ⟨p, junk, entered, inside, behind, buffer⟩ := enter_typed key (value.text ++ newline :: rest)
    (show key.text.length ≤ (key.text ++ newline :: (value.text ++ newline :: rest)).length by simp)
  obtain ⟨q, junk', entered', inside', behind', buffer'⟩ := enter_typed value rest
    (show value.text.length ≤ (key.text ++ newline :: (value.text ++ newline :: rest)).length by
      simp only [List.length_append, List.length_cons]
      omega)
  have built := createInsertToServer_typed key.enterable.2.2.2 key.key_fits
    (show KEY_SIZE ≤ (key.text ++ 0 :: (junk ++ t.behind)).length by simp; omega) value.value_fits junk'
  simp only [chooseInsert, enterInsert, entered, behind, entered', inside, inside', buffer, buffer', behind',
    and_self, if_true, strlen_text value.enterable.2.2.2, Option.bind_eq_bind, Option.bind_some,
    List.append_assoc, List.cons_append, built]
  rfl

/-- A turn sends the requests of the command that it reads. -/
theorem clientSend_typed (quiet : Quiet t) (command : Command) (rest sent : Bytes) :
    clientSend choice ⟨command.typed ++ rest, sent, false, .looping⟩ t =
      some ⟨rest, sent ++ command.requests.flatMap Request.frame, false, again choice⟩ := by
  cases command with
  | blank =>
    simp only [Command.typed, Command.requests, clientSend, quiet.opened, List.singleton_append,
      fgetsMessage_blank, ne_eq, not_true_eq_false, if_false, if_true, Bool.false_eq_true, send_quiet quiet,
      List.flatten_nil, List.flatMap_nil]
  | init extra =>
    have chosen : switchMessage t 49 rest =
        some (.request ⟨USER, HEADERSIZE, .bytes [INIT, 0, 0, 0]⟩ rest) := rfl
    simpa [Command.requests, Request.frame, Command.typed] using
      clientSend_request (by decide) quiet chosen (sendPdu_whole USER [INIT, 0, 0, 0])
  | insert extra key value =>
    have chosen : switchMessage t 50 (key.text ++ newline :: (value.text ++ newline :: rest)) = _ :=
      chooseInsert_typed key value quiet.key
    simpa [Command.requests, Command.typed] using
      clientSend_request (by decide) quiet chosen (sendPdu_whole USER _)
  | get extra key =>
    have chosen : switchMessage t 51 (key.text ++ newline :: rest) = _ :=
      chooseKey_typed key quiet.key fun junk readable =>
        createGetToServer_eq ⟨junk, readable⟩ key.enterable.2.2.2 key.key_fits
    rw [← keyFrame_length key.key_fits.le] at chosen
    simpa [Command.requests, Command.typed, Request.frame, Line.key] using
      clientSend_request (by decide) quiet chosen (sendPdu_whole USER _)
  | delete extra key =>
    have chosen : switchMessage t 52 (key.text ++ newline :: rest) = _ :=
      chooseKey_typed key quiet.key fun junk readable =>
        createDeleteToServer_eq ⟨junk, readable⟩ key.enterable.2.2.2 key.key_fits
    rw [← keyFrame_length key.key_fits.le] at chosen
    simpa [Command.requests, Command.typed, Request.frame, Line.key] using
      clientSend_request (by decide) quiet chosen (sendPdu_whole USER _)
  | test1 extra =>
    have chosen : switchMessage t 55 rest =
        some (.test ((testRequests 0 1000000 Command.test1_bound).map Request.frame)) := by
      simp [switchMessage, endToEndTest_eq quiet.test 0 1000000 Command.test1_bound]
    rw [Command.requests, List.flatMap_def]
    exact clientSend_test (by decide) quiet chosen
  | test2 extra =>
    have chosen : switchMessage t 56 rest =
        some (.test ((testRequests 10000 10000 Command.test2_bound).map Request.frame)) := by
      simp [switchMessage, endToEndTest_eq quiet.test 10000 10000 Command.test2_bound]
    rw [Command.requests, List.flatMap_def]
    exact clientSend_test (by decide) quiet chosen
  | bad c unknown extra =>
    simp only [List.mem_cons, List.not_mem_nil, or_false, not_or] at unknown
    obtain ⟨other, init, insert, get, delete, quit, test6, test7, test8⟩ := unknown
    have chosen : switchMessage t c rest = some .bad := by
      simp only [switchMessage, init, insert, get, delete, quit, test6, test7, test8, if_false]
    simp only [Command.typed, Command.requests, clientSend, quiet.opened, fgetsMessage_menuLine other, chosen,
      ne_eq, not_true_eq_false, if_false, Bool.false_eq_true, other, Option.bind_eq_bind, Option.bind_some,
      send_quiet quiet, List.flatten_nil, List.flatMap_nil]

end Turns

/-- The turns that read some commands. -/
theorem run_typed {choice : ℤ} (other : choice ≠ 5) {commands : List Command} {turns : List MenuTurn}
    (enough : turns.length = commands.length) (quiet : ∀ t ∈ turns, Quiet t) (rest sent : Bytes) :
    run (clientSend choice) ⟨commands.flatMap Command.typed ++ rest, sent, false, .looping⟩ turns =
      some ⟨rest, sent ++ (commands.flatMap Command.requests).flatMap Request.frame, false, .looping⟩ := by
  induction commands generalizing turns sent with
  | nil =>
    obtain rfl := List.length_eq_zero_iff.mp enough
    simp
  | cons command commands ih =>
    obtain ⟨t, turns, rfl⟩ := List.exists_of_length_succ turns enough
    obtain ⟨first, later⟩ := List.forall_mem_cons.mp quiet
    have looping : again choice = .looping := if_neg other
    rw [run_cons, List.flatMap_cons, List.append_assoc, clientSend_typed first, Option.bind_some, looping,
      ih (Nat.succ.inj enough) later]
    simp

/-- What is put into `sender_list` for some requests. -/
def queuedPdus (requests : List Request) : List Pdu := requests.map fun request => (queued request).pdu

/-- The server's thread hands over the whole of a request. -/
theorem exists_frame (sock : ℕ) (request : Request) : ∃ frame : Frame,
    frame.encode = request.frame ∧ handedOver sock frame = some (queued request).pdu := by
  obtain ⟨frame, bytes, pdu⟩ := frame_of_request request
  have opCode : frame.opCode = request.opCode := by rw [← Frame.pdu_opCode sock frame, pdu]
  refine ⟨frame, bytes, ?_⟩
  rw [handedOver, if_neg ?_, pdu]
  · rfl
  · rw [opCode]
    cases request <;> simp [Request.opCode, INIT, INSERT, GET, DELETE, QUIT, JOIN]

/-- The turn that reads the way out. -/
theorem clientSend_quit {choice : ℤ} {t : MenuTurn} (quiet : Quiet t) (exit : Tail) (rest sent : Bytes) :
    clientSend choice ⟨menuLine 53 exit ++ rest, sent, false, .looping⟩ t =
      some ⟨rest, sent ++ [QUIT, 0, 0, 0], false, .returned⟩ := by
  have chosen : switchMessage t 53 rest = some (.quit ⟨USER, HEADERSIZE, .bytes [QUIT, 0, 0, 0]⟩) := rfl
  have other : (53 : Byte) ≠ newline := by decide
  have whole := sendPdu_whole USER [QUIT, 0, 0, 0]
  rw [show [QUIT, 0, 0, 0].length = HEADERSIZE from rfl] at whole
  simp only [clientSend, quiet.opened, fgetsMessage_menuLine other, chosen, whole, ne_eq, not_true_eq_false,
    if_false, Bool.false_eq_true, other, Option.bind_eq_bind, Option.bind_some, send_quiet quiet,
    List.flatten_singleton]

/-- The bytes of requests and a QUIT are read to their end. -/
theorem handsOver_requests (sock : ℕ) {script : List RecvChoice} (whole : Whole script) (name : Bytes)
    (requests : List Request) :
    HandsOver sock script (Frame.encode (.join 0 (joinName name) (joinName_fits name)) ++
      (requests.flatMap Request.frame ++ [QUIT, 0, 0, 0])) (queuedPdus requests) := by
  choose frame bytes handed using exists_frame sock
  have encoded : requests.flatMap Request.frame ++ [QUIT, 0, 0, 0] =
      (requests.map frame ++ [Frame.quit 0 0 0]).flatMap Frame.encode := by
    simp only [List.flatMap_append, List.flatMap_map, bytes]
    rfl
  have pdus : (requests.map frame ++ [Frame.quit 0 0 0]).filterMap (handedOver sock) =
      queuedPdus requests := by
    have quiet : [Frame.quit 0 0 0].filterMap (handedOver sock) = [] := rfl
    rw [List.filterMap_append, quiet, List.append_nil, List.filterMap_map, queuedPdus, ← List.filterMap_eq_map]
    exact congrArg (List.filterMap · requests) (funext handed)
  rw [encoded, ← pdus]
  exact handsOver_frames sock whole 0 (joinName name) (joinName_fits name) _

/-- Commands that are typed, and then the way out: a client that nobody kicks sends the requests of the commands
in their order and a QUIT, and the thread of the server hands over exactly these requests, if `recv` delivers what
it is asked for. -/
theorem typed_session (sock : ℕ) {choice : ℤ} (other : choice ≠ 5) {name : Bytes} (clean : 0 ∉ name)
    (behind : Bytes) (commands : List Command) (exit : Tail) (rest : Bytes) {turns : List MenuTurn}
    (enough : turns.length = commands.length + 1) (quiet : ∀ t ∈ turns, Quiet t) :
    ∃ (join : Bytes) (s : ClientSend), (setupJoinPdu (name ++ 0 :: behind)).bind sendPdu = some join ∧
      run (clientSend choice) (.start (commands.flatMap Command.typed ++ (menuLine 53 exit ++ rest))) turns =
        some s ∧ s.menu = .returned ∧ s.stdin = rest ∧
      s.sent = (commands.flatMap Command.requests).flatMap Request.frame ++ [QUIT, 0, 0, 0] ∧
      ∀ script, Whole script →
        HandsOver sock script (join ++ s.sent) (queuedPdus (commands.flatMap Command.requests)) := by
  obtain ⟨early, last, rfl⟩ : ∃ early last, turns = early ++ [last] :=
    ⟨_, _, (List.dropLast_append_getLast (List.ne_nil_of_length_eq_add_one enough)).symm⟩
  obtain ⟨quiet, atLast⟩ := List.forall_mem_append.mp quiet
  have count : early.length = commands.length := by simpa using enough
  refine ⟨_, ⟨rest, (commands.flatMap Command.requests).flatMap Request.frame ++ [QUIT, 0, 0, 0], false,
    .returned⟩, setupJoinPdu_sent clean behind, ?_, rfl, rfl, rfl,
    fun script whole => handsOver_requests sock whole name _⟩
  have typed := run_typed other count quiet (menuLine 53 exit ++ rest) []
  rw [List.nil_append] at typed
  have unkicked := atLast last (List.mem_singleton.mpr rfl)
  rw [ClientSend.start, run_append typed, run_cons, clientSend_quit unkicked, Option.bind_some, run_nil]

theorem nothing_fits : ([] : Bytes).length + 2 < MAXMESSLEN := by decide

theorem enterable_a : Enterable [97] := ⟨by decide, by decide, by decide, by decide⟩

private def justEnter : Tail := ⟨[], List.not_mem_nil, nothing_fits⟩

private def letter : Line := ⟨[97], enterable_a⟩

/-- An INSERT, an empty line, and the way out. -/
theorem typed_session_insert :
    ∃ (join : Bytes) (s : ClientSend), (setupJoinPdu [97, 0]).bind sendPdu = some join ∧
      run (clientSend 0) (.start ([50, 10, 97, 10, 97, 10, 10] ++ ([53, 10] ++ [])))
        (List.replicate 3 ⟨false, none, 0, calloc KEY_SIZE, fun _ => calloc KEY_SIZE⟩) = some s ∧
      s.menu = .returned ∧ s.stdin = [] ∧
      s.sent = [Request.insert letter.key letter.value].flatMap Request.frame ++ [QUIT, 0, 0, 0] ∧
      ∀ script, Whole script →
        HandsOver 5 script (join ++ s.sent) (queuedPdus [.insert letter.key letter.value]) :=
  typed_session 5 (show (0 : ℤ) ≠ 5 by decide) (show 0 ∉ [97] by decide) []
    [.insert justEnter letter letter, .blank] justEnter [] rfl (by
      intro t member
      cases List.eq_of_mem_replicate member
      exact ⟨rfl, rfl, le_of_eq (calloc_length _).symm, fun _ => le_of_eq (calloc_length _).symm⟩)

end Operativsystem.Pipeline

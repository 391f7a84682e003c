import Operativsystem.Kernel.OwnBytes
import Operativsystem.User.KernelCommunication
import Operativsystem.User.SenderList

/-! # What earlier requests leave in the payload

The payload is sent whole, so behind the bytes of a request the kernel sees those of earlier ones.
Two histories that leave the same table may differ in these bytes. `Isolated` requests are served
alike after both; they are exactly the self-contained ones. The witness history against the others
fills the payload with one byte: a frame whose opcode the kernel does not know.
-/

namespace Operativsystem.User

open Memory Resources LList Kernel Machine

/-- The bytes that a request copies into the payload. -/
def QueuedPdu.own (p : QueuedPdu) : Bytes := p.content.take p.dataBytes

/-- A PDU that `client_listener` may append: some stream, cut somehow, makes it receive this PDU. -/
def Enqueueable (p : QueuedPdu) : Prop :=
  ∃ sock conn result next, receivePdu sock conn = some (result, next) ∧
    clientListener result = some (.insertlast p.pdu)

/-- One turn of `kernel_communication`, from the queue to the answer. -/
def kernelTurn (o : Outcomes) (link : Link) (p : QueuedPdu) : Option (Link × Pdu) := do
  let pduSend ← copyPdu p.pdu
  exchange o link pduSend

/-- The link after a history of requests. -/
def afterHistory (unwritten : Byte) (history : List (Outcomes × QueuedPdu)) : Option Link :=
  run (fun link turn => (kernelTurn turn.1 link turn.2).map Prod.fst) (initialLink unwritten) history

/-- What a turn leaves in the kernel and what it answers. -/
def served (turn : Option (Link × Pdu)) : Option (KernelState × Pdu) :=
  turn.map fun (link, pduReceive) => (link.kernel, pduReceive)

/-- After all histories that leave the same table the request is served alike, and once memory
suffices it is served. -/
def Isolated (p : QueuedPdu) : Prop :=
  ∀ unwritten unwritten' history history' link link',
    (∀ turn ∈ history, Enqueueable turn.2) → (∀ turn ∈ history', Enqueueable turn.2) →
    afterHistory unwritten history = some link → afterHistory unwritten' history' = some link' →
    link.kernel = link'.kernel → ∀ o,
      served (kernelTurn o link p) = served (kernelTurn o link' p) ∧
        (Usual o → (served (kernelTurn o link p)).isSome)

section Turn

variable {o : Outcomes} {link link' : Link} {p : QueuedPdu}

theorem QueuedPdu.own_length (p : QueuedPdu) : p.own.length = p.dataBytes := List.length_take_of_le p.room

theorem kernelTurn_eq (o : Outcomes) (link : Link) (p : QueuedPdu) :
    kernelTurn o link p = exchange o link ⟨p.opCode, p.own.length, .bytes (p.own ++ [0])⟩ := by
  have copied : copyPdu p.pdu = some ⟨p.opCode, p.own.length, .bytes (p.own ++ [0])⟩ := by
    rw [p.own_length]
    exact if_pos p.room
  simp only [kernelTurn, copied, Option.bind_eq_bind, Option.bind_some]

theorem kernelTurn_fits {result : Link × Pdu} (ran : kernelTurn o link p = some result) :
    p.own.length ≤ MAX_PAYLOAD := by
  simp only [kernelTurn_eq, exchange, transact, Option.bind_eq_bind, Option.bind_eq_some_iff] at ran
  obtain ⟨_, ⟨payload, copied, -⟩, -⟩ := ran
  exact (link.nlhUserSend.memcpy_some copied).2.1

/-- A turn is what the handler makes of the request and the residue behind it. -/
theorem served_kernelTurn (sound : Sound link.kernel) (fits : p.own.length ≤ MAX_PAYLOAD) (o : Outcomes) :
    served (kernelTurn o link p) =
      (workHandler o link.kernel (p.own ++ link.nlhUserSend.1.drop p.own.length)).bind
        fun (k, answer) => answer.map fun message => (k, ⟨KERNEL, message.length, .bytes message⟩) := by
  have size := (link.nlhUserSend.overlay p.own fits).2
  change (p.own ++ link.nlhUserSend.1.drop p.own.length).length = MAX_PAYLOAD at size
  rw [kernelTurn_eq, served]
  simp only [exchange, transact, Payload.memcpy_eq _ [0] fits, Option.bind_eq_bind, Option.bind_some]
  change Option.map _ (Option.bind (Option.bind (workHandler o link.kernel
    (p.own ++ link.nlhUserSend.1.drop p.own.length)) _) _) = _
  cases handled : workHandler o link.kernel (p.own ++ link.nlhUserSend.1.drop p.own.length) with
  | none => rfl
  | some result =>
    obtain ⟨k, answer⟩ := result
    cases answer with
    | none => rfl
    | some message =>
      obtain ⟨-, fitting⟩ := workHandler_sound sound size handled
      obtain ⟨content, rfl, short⟩ := fitting message rfl
      simp only [Option.bind_some, readExactlyFromKernel_eq _ _ short]
      rfl

/-- A turn keeps the table sound. -/
theorem kernelTurn_sound (sound : Sound link.kernel) {pduReceive : Pdu}
    (ran : kernelTurn o link p = some (link', pduReceive)) : Sound link'.kernel := by
  have fits := kernelTurn_fits ran
  have size := (link.nlhUserSend.overlay p.own fits).2
  have result := served_kernelTurn sound fits o
  rw [ran] at result
  obtain ⟨⟨k, answer⟩, handled, answered⟩ := Option.bind_eq_some_iff.mp result.symm
  obtain ⟨message, -, same⟩ := Option.map_eq_some_iff.mp answered
  have kernel : k = link'.kernel := (Prod.mk.inj same).1
  exact kernel ▸ (workHandler_sound sound size handled).1

end Turn

/-- Every history leaves a sound table. -/
theorem afterHistory_sound {unwritten : Byte} {history : List (Outcomes × QueuedPdu)} {link : Link}
    (ran : afterHistory unwritten history = some link) : Sound link.kernel := by
  have preserve (s : Link) (turn : Outcomes × QueuedPdu) (s' : Link) (sound : Sound s.kernel)
      (stepped : (kernelTurn turn.1 s turn.2).map Prod.fst = some s') : Sound s'.kernel := by
    obtain ⟨⟨link, pduReceive⟩, ran, rfl⟩ := Option.map_eq_some_iff.mp stepped
    exact kernelTurn_sound sound ran
  exact run_invariant preserve sound_empty ran

/-- A self-contained request is served alike after all histories that leave the same table. -/
theorem isolated_of_selfContained {p : QueuedPdu} (contained : SelfContained p.own) : Isolated p := by
  intro _ _ history history' link link' _ _ ran ran' same o
  have sound := afterHistory_sound ran
  have sound' := afterHistory_sound ran'
  have fits := contained.1
  constructor
  · rw [served_kernelTurn sound fits, served_kernelTurn sound' fits, workHandler_own contained,
      workHandler_own contained, same]
  · intro usual
    have size := (link.nlhUserSend.overlay p.own fits).2
    obtain ⟨k, content, handled⟩ := workHandler_served usual sound contained _ size
    rw [served_kernelTurn sound fits, handled]
    rfl

section Leaks

/-- A KERNEL frame as the queue holds it. -/
def kernelPdu (payload : Bytes) : QueuedPdu :=
  ⟨KERNEL, payload.length, payload ++ calloc 8, by simp⟩

theorem kernelPdu_own (payload : Bytes) : (kernelPdu payload).own = payload := List.take_left

/-- A client may send any payload as a KERNEL frame. -/
theorem kernelPdu_enqueueable {payload : Bytes} (fits : payload.length + HEADERSIZE < 65536) :
    Enqueueable (kernelPdu payload) :=
  ⟨0, _, _, _, receivePdu_frame 0 (.kernel 0 payload fits) [], rfl⟩

/-- A payload full of a byte that is no opcode. -/
def noise : Bytes := List.replicate MAX_PAYLOAD 0xFF

theorem noise_length : noise.length = MAX_PAYLOAD := List.length_replicate

theorem noise_enqueueable : Enqueueable (kernelPdu noise) :=
  kernelPdu_enqueueable (by rw [noise_length]; decide)

/-- The kernel does not know the opcode of the noise. -/
theorem readExactlyFromUser_noise (k : KernelState) (rest : Bytes) :
    readExactlyFromUser (.smooth 0) k (noise ++ rest) =
      some (k, some (literalPdu "Error wrong OP_code to kernel")) := by
  have head : (noise ++ rest).head? = some 0xFF := rfl
  have handled : switchOpCode (.smooth 0) k 0xFF (noise ++ rest) =
      some (k, literalPdu "Error wrong OP_code to kernel") := by
    rw [switchOpCode, if_neg (by decide), if_neg (by decide), if_neg (by decide), if_neg (by decide),
      literal_eq (show 0 ∉ ascii "Error wrong OP_code to kernel" by decide) (by decide)]
    rfl
  exact readExactlyFromUser_of rfl head handled

/-- The noise changes no table, and fills the payload. -/
theorem afterHistory_noise (unwritten : Byte) : ∃ link,
    afterHistory unwritten [(.smooth 0, kernelPdu noise)] = some link ∧ link.kernel = ⟨some ∅⟩ ∧
      link.nlhUserSend.1 = noise := by
  obtain ⟨link, pduReceive, turned, kernel, payload⟩ : ∃ link pduReceive,
      kernelTurn (.smooth 0) (initialLink unwritten) (kernelPdu noise) = some (link, pduReceive) ∧
        link.kernel = ⟨some ∅⟩ ∧ link.nlhUserSend.1 = noise := by
    rw [kernelTurn_eq, kernelPdu_own]
    refine ⟨_, _, exchange_eq [0] noise_length.le rfl rfl
      (show (answerText "Error wrong OP_code to kernel").length + HEADERSIZE ≤ MAX_PAYLOAD by decide)
      (readExactlyFromUser_noise _ _), rfl, ?_⟩
    change noise ++ (initialLink unwritten).nlhUserSend.1.drop noise.length = noise
    rw [List.drop_eq_nil_of_le (by rw [noise_length, (initialLink unwritten).nlhUserSend.2]), List.append_nil]
  refine ⟨link, ?_, kernel, payload⟩
  rw [afterHistory, run_cons, turned]
  rfl

/-- An object that a request puts into the empty table is made of what the payload holds. -/
theorem readInsertStruct_empty {request : Bytes} {k : KernelState} {response : Pdu}
    (handled : readInsertStruct (.smooth 0) ⟨some ∅⟩ request = some (k, response)) :
    ∃ n key ht, read16 request 1 = some n ∧ readKey request = some key ∧
      n ≤ (request.drop (HEADERSIZE + KEY_SIZE)).length ∧ k = ⟨some ht⟩ ∧
      ht.lookup (key.take KEY_SIZE) = some ⟨key, n, (request.drop (HEADERSIZE + KEY_SIZE)).take n⟩ := by
  rw [readInsertStruct, if_pos (show (Outcomes.smooth 0).object = true from rfl)] at handled
  simp only [Option.bind_eq_bind, Option.bind_eq_some_iff] at handled
  obtain ⟨n, length, key, copied, data, filled, ht, initialized, handled⟩ := handled
  obtain rfl := Option.some.inj initialized
  rw [copyValue, if_pos (show (Outcomes.smooth 0).value = true from rfl)] at filled
  have inside : n ≤ (request.drop (HEADERSIZE + KEY_SIZE)).length := by
    by_contra outside
    rw [memcpy, if_neg (fun bounds => outside bounds.1)] at filled
    cases filled
  have content : data = (request.drop (HEADERSIZE + KEY_SIZE)).take n := by
    rw [memcpy_front inside (calloc_length n).ge] at filled
    simpa [calloc] using (Option.some.inj filled).symm
  rw [if_neg (show ¬(Outcomes.smooth 0).insertError = true by decide)] at handled
  have fresh : rhashtableLookupInsertFast ∅ ⟨key, n, data⟩ =
      some ((∅ : Table).insert (key.take KEY_SIZE) ⟨key, n, data⟩) := rfl
  rw [fresh] at handled
  obtain ⟨text, -, same⟩ := Option.bind_eq_some_iff.mp handled
  exact ⟨n, key, _, length, copied, inside, (Prod.mk.inj (Option.some.inj same)).1.symm,
    by rw [Finmap.lookup_insert, content]⟩

section Necessity

variable {p : QueuedPdu}

/-- What an isolated request gets after the start and after the noise, when nothing fails. -/
theorem isolated_twice (isolated : Isolated p) : p.own.length ≤ MAX_PAYLOAD ∧ ∃ k message,
    workHandler (.smooth 0) ⟨some ∅⟩ (p.own ++ (initialLink 0).nlhUserSend.1.drop p.own.length) =
        some (k, some message) ∧
      workHandler (.smooth 0) ⟨some ∅⟩ (p.own ++ noise.drop p.own.length) = some (k, some message) := by
  obtain ⟨link', ran, kernel, payload⟩ := afterHistory_noise 0
  have noisy : ∀ turn ∈ [(Outcomes.smooth 0, kernelPdu noise)], Enqueueable turn.2 := by
    intro turn member
    obtain rfl := List.mem_singleton.mp member
    exact noise_enqueueable
  obtain ⟨same, defined⟩ := isolated 0 0 [] [(.smooth 0, kernelPdu noise)] (initialLink 0) link'
    (fun turn absurd => by cases absurd) noisy rfl ran kernel.symm (.smooth 0)
  obtain ⟨⟨k, pdu⟩, first⟩ := Option.isSome_iff_exists.mp (defined ⟨rfl, rfl, rfl, rfl⟩)
  obtain ⟨result, turned, -⟩ := Option.map_eq_some_iff.mp first
  have fits := kernelTurn_fits turned
  have second := same.symm.trans first
  rw [served_kernelTurn sound_empty fits] at first
  rw [served_kernelTurn (kernel ▸ sound_empty) fits, payload, kernel] at second
  obtain ⟨⟨k₁, answer₁⟩, handled₁, answered₁⟩ := Option.bind_eq_some_iff.mp first
  obtain ⟨⟨k₂, answer₂⟩, handled₂, answered₂⟩ := Option.bind_eq_some_iff.mp second
  obtain ⟨message₁, rfl, same₁⟩ := Option.map_eq_some_iff.mp answered₁
  obtain ⟨message₂, rfl, same₂⟩ := Option.map_eq_some_iff.mp answered₂
  have both := same₁.trans same₂.symm
  simp only [Prod.mk.injEq, Pdu.mk.injEq, PduData.bytes.injEq] at both
  obtain ⟨rfl, -, -, rfl⟩ := both
  exact ⟨fits, k₁, message₁, handled₁, handled₂⟩

/-- An answer means that the handler of the first byte went through. -/
theorem switchOpCode_of_answer {k k' : KernelState} {request message : Bytes}
    (handled : workHandler (.smooth 0) k request = some (k', some message)) :
    ∃ opCode response, request.head? = some opCode ∧
      switchOpCode (.smooth 0) k opCode request = some (k', response) := by
  rw [workHandler, readExactlyFromUser, if_pos (show (Outcomes.smooth 0).response = true from rfl)] at handled
  simp only [Option.bind_eq_bind, Option.bind_eq_some_iff] at handled
  obtain ⟨result, ⟨opCode, head, ⟨k₁, response⟩, switched, same⟩, handled⟩ := handled
  obtain rfl := Option.some.inj same
  obtain ⟨_, -, same⟩ := Option.bind_eq_some_iff.mp handled
  obtain rfl := (Prod.mk.inj (Option.some.inj same)).1
  exact ⟨opCode, response, head, switched⟩

/-- The opcode of an isolated request is its own: the first byte of the residue differs. -/
theorem isolated_head (isolated : Isolated p) : p.own ≠ [] := by
  intro empty
  obtain ⟨-, k, message, first, second⟩ := isolated_twice isolated
  rw [empty] at first second
  have init : workHandler (.smooth 0) ⟨some ∅⟩ (initialLink 0).nlhUserSend.1 =
      some (⟨some ∅⟩, some (answerFrame 0 (answerText "Hashtable already initialized."))) :=
    workHandler_eq rfl rfl (readExactlyFromUser_of rfl rfl (readInitStruct_again (o := .smooth 0)))
  have unknown : workHandler (.smooth 0) ⟨some ∅⟩ noise =
      some (⟨some ∅⟩, some (answerFrame 0 (answerText "Error wrong OP_code to kernel"))) := by
    rw [← noise.append_nil]
    exact workHandler_eq rfl rfl (readExactlyFromUser_noise _ _)
  have answers := (init.symm.trans first).trans (second.symm.trans unknown)
  simp only [Option.some.injEq, Prod.mk.injEq, true_and] at answers
  have lengths := congrArg List.length answers
  revert lengths
  decide

theorem isolated_key (isolated : Isolated p) {opCode : Byte} (head : p.own.head? = some opCode)
    (named : opCode = GET ∨ opCode = DELETE ∨ opCode = INSERT) :
    0 ∈ (p.own.drop HEADERSIZE).take (KEY_SIZE + 2) := by
  obtain ⟨-, k, message, -, second⟩ := isolated_twice isolated
  obtain ⟨first, response, front, switched⟩ := switchOpCode_of_answer second
  rw [List.head?_append, head, Option.some_or] at front
  obtain rfl := Option.some.inj front
  have copied : (readKey (p.own ++ noise.drop p.own.length)).isSome := by
    rw [Option.isSome_iff_exists]
    rcases named with rfl | rfl | rfl
    · change readGetStruct _ _ = _ at switched
      obtain ⟨key, copied, -⟩ := Option.bind_eq_some_iff.mp switched
      exact ⟨key, copied⟩
    · change readDeleteStruct _ _ = _ at switched
      obtain ⟨key, copied, -⟩ := Option.bind_eq_some_iff.mp switched
      exact ⟨key, copied⟩
    · obtain ⟨n, key, ht, -, copied, -⟩ := readInsertStruct_empty switched
      exact ⟨key, copied⟩
  rw [readKey_isSome_iff, List.drop_append, List.take_append, List.mem_append] at copied
  apply copied.resolve_right
  intro inside
  have residue := List.mem_of_mem_drop (List.mem_of_mem_drop (List.mem_of_mem_take inside))
  exact absurd (List.eq_of_mem_replicate residue) (by decide)

/-- Where the residue is zero after the start, and noise after the noise. -/
theorem residue_differs {own : Bytes} {i : ℕ} (behind : own.length ≤ i) (body : HEADERSIZE ≤ i)
    (inside : i < MAX_PAYLOAD) :
    (own ++ (initialLink 0).nlhUserSend.1.drop own.length)[i]? = some 0 ∧
      (own ++ noise.drop own.length)[i]? = some 0xFF := by
  have place : own.length + (i - own.length) = i := by omega
  have start : (initialLink 0).nlhUserSend.1 = [INIT, 0, 0, 0] ++ (calloc MAX_PAYLOAD).drop HEADERSIZE := rfl
  rw [List.getElem?_append_right behind, List.getElem?_append_right behind, List.getElem?_drop,
    List.getElem?_drop, place]
  constructor
  · rw [start, List.getElem?_append_right body, List.getElem?_drop]
    change (List.replicate MAX_PAYLOAD 0)[HEADERSIZE + (i - HEADERSIZE)]? = _
    rw [List.getElem?_replicate, if_pos (by omega)]
  · rw [noise, List.getElem?_replicate, if_pos inside]

/-- The value of an isolated INSERT lies inside the request: else its last byte is residue. -/
theorem isolated_value (isolated : Isolated p) (head : p.own.head? = some INSERT) {n : ℕ}
    (length : read16 p.own 1 = some n) : n = 0 ∨ HEADERSIZE + KEY_SIZE + n ≤ p.own.length := by
  have terminated := List.mem_of_mem_take (isolated_key isolated head (Or.inr (Or.inr rfl)))
  have long : 1 + 2 ≤ p.own.length := by
    have tail := List.length_pos_of_mem terminated
    simp only [List.length_drop, HEADERSIZE] at tail
    omega
  obtain ⟨fits, k, message, first, second⟩ := isolated_twice isolated
  have size := ((initialLink 0).nlhUserSend.overlay p.own fits).2
  change (p.own ++ (initialLink 0).nlhUserSend.1.drop p.own.length).length = MAX_PAYLOAD at size
  obtain ⟨opCode₁, response₁, front₁, switched₁⟩ := switchOpCode_of_answer first
  obtain ⟨opCode₂, response₂, front₂, switched₂⟩ := switchOpCode_of_answer second
  rw [List.head?_append, head, Option.some_or] at front₁ front₂
  obtain rfl := Option.some.inj front₁
  obtain rfl := Option.some.inj front₂
  obtain ⟨n₁, key₁, ht, length₁, copied₁, inside, same, held₁⟩ := readInsertStruct_empty switched₁
  obtain ⟨n₂, key₂, ht₂, length₂, copied₂, -, same₂, held₂⟩ := readInsertStruct_empty switched₂
  rw [read16_append long, length] at length₁ length₂
  obtain rfl := Option.some.inj length₁
  obtain rfl := Option.some.inj length₂
  rw [readKey_own terminated] at copied₁ copied₂
  obtain rfl := Option.some.inj (copied₁.symm.trans copied₂)
  obtain rfl : ht = ht₂ := Option.some.inj (KernelState.mk.inj (same.symm.trans same₂))
  have values := congrArg RhashObject.data (Option.some.inj (held₁.symm.trans held₂))
  by_contra outside
  obtain ⟨nonzero, beyond⟩ := not_or.mp outside
  rw [List.length_drop, size] at inside
  have last := congrArg (·[n - 1]?) values
  have within : n - 1 < n := by omega
  simp only [List.getElem?_take_of_lt within, List.getElem?_drop] at last
  obtain ⟨zero, full⟩ := @residue_differs p.own (HEADERSIZE + KEY_SIZE + (n - 1)) (by omega)
    (by simp only [HEADERSIZE]; omega) (by omega)
  rw [zero, full] at last
  exact absurd (Option.some.inj last) (by decide)

end Necessity

end Leaks

/-- The kernel decodes, stores and answers a request from its own bytes alone exactly when the
request is self-contained: its opcode, a terminator of its key and the value that it announces lie
inside the bytes that it copies into the payload. -/
theorem isolated_iff_selfContained (p : QueuedPdu) : Isolated p ↔ SelfContained p.own := by
  refine ⟨fun isolated => ⟨(isolated_twice isolated).1, ?_⟩, isolated_of_selfContained⟩
  obtain ⟨opCode, tail, own⟩ := List.exists_cons_of_ne_nil (isolated_head isolated)
  have head : p.own.head? = some opCode := by rw [own, List.head?_cons]
  refine ⟨opCode, head, isolated_key isolated head, ?_⟩
  rintro rfl n length
  exact isolated_value isolated head length

/-- A KERNEL frame without payload copies nothing, so the kernel serves the first byte that the
last request has left: INIT after the start, an unknown opcode after the noise. -/
theorem empty_kernelPdu_leaks : Enqueueable (kernelPdu []) ∧ ¬ Isolated (kernelPdu []) :=
  ⟨kernelPdu_enqueueable (by decide), fun isolated => isolated_head isolated rfl⟩

end Operativsystem.User

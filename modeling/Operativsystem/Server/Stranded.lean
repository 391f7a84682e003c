import Operativsystem.Library.Conservation
import Operativsystem.Server.ProcessMoves

/-! # A request that nobody takes

`kernel_communication` tests `sender_list` without its mutex and then waits on its condition. A
request that is inserted in between broadcasts to nobody, and the thread sleeps with the request in
the list. If no insertion falls there, a thread that sleeps over a request still has a broadcast
coming.
-/

namespace Operativsystem.Server.Process

open Machine Resources

/-- `kernel_communication` is blocked, a request is in the list, and no listener that has linked a
request still has to broadcast. -/
def Stranded (s : State) : Prop :=
  s.kernel = .waiting ∧ s.senderList ≠ [] ∧ ∀ l ∈ s.threads, l.pc ≠ .linked

/-- No request is inserted between the test of the list and the wait. -/
def Timely (s : State) (e : Event) : Prop :=
  ∀ t pdu, e = .request t pdu → s.kernel ≠ .falling

/-- What the order of the steps has to keep: the mutex is held by a listener that will broadcast, and
`kernel_communication` goes to sleep over an empty list only. -/
structure Awake (s : State) : Prop where
  holder : ∀ t, s.senderMtx = some t → ∃ l, s.threads[t]? = some l ∧ l.pc = .linked
  falling : s.kernel = .falling → s.senderList = []
  waiting : s.kernel = .waiting → s.senderList = [] ∨ s.senderMtx ≠ none

theorem awake_start : Awake .start := by
  constructor <;> simp [State.start]

section Steps

variable {s s' : State}

@[simp] theorem KernelPc.wake_ne_waiting (pc : KernelPc) : pc.wake ≠ .waiting := by cases pc <;> simp [wake]

theorem KernelPc.wake_eq_falling {pc : KernelPc} (falling : pc.wake = .falling) : pc = .falling := by
  cases pc <;> first | rfl | cases falling

/-- The listener with the mutex is not the one that moves. -/
theorem Awake.holder_set (awake : Awake s) {t : ℕ} {l : Listener} (present : s.threads[t]? = some l)
    (other : l.pc ≠ .linked) (pc : ListenerPc) (u : ℕ) (held : s.senderMtx = some u) :
    ∃ x, (s.setListener t l pc).threads[u]? = some x ∧ x.pc = .linked := by
  obtain ⟨x, found, linked⟩ := awake.holder u held
  have different : t ≠ u := by
    rintro rfl
    cases present.symm.trans found
    exact other linked
  exact ⟨x, (List.getElem?_set_ne different).trans found, linked⟩

theorem acceptConnections_awake (awake : Awake s) (stepped : acceptConnections s = some s') : Awake s' := by
  cases acceptConnections_cases stepped with
  | moves => exact ⟨awake.holder, awake.falling, awake.waiting⟩
  | registers => exact ⟨awake.holder, awake.falling, awake.waiting⟩
  | creates =>
    refine ⟨fun t held => ?_, awake.falling, awake.waiting⟩
    obtain ⟨l, found, linked⟩ := awake.holder t held
    have inside : t < s.threads.length := (List.getElem?_eq_some_iff.mp found).1
    exact ⟨l, (List.getElem?_append_left inside).trans found, linked⟩

theorem insertRequest_awake (timely : s.kernel ≠ .falling) {t : ℕ} {pdu : Pdu}
    (stepped : insertRequest s t pdu = some s') : Awake s' := by
  rw [insertRequest] at stepped
  split at stepped
  · cases stepped
  rename_i l present
  split_ifs at stepped
  cases stepped
  constructor
  · rintro u ⟨⟩
    exact ⟨_, List.getElem?_set_self (List.getElem?_eq_some_iff.mp present).1, rfl⟩
  · intro falling
    exact absurd falling timely
  · intro _
    exact .inr (by simp)

theorem clientListener_awake (awake : Awake s) {t : ℕ} (stepped : clientListener s t = some s') :
    Awake s' := by
  obtain ⟨l, present, listens⟩ := clientListener_cases stepped
  cases listens with
  | announces receiving =>
    exact ⟨awake.holder_set present (by simp [receiving]) _, awake.falling, awake.waiting⟩
  | broadcasts linked =>
    constructor
    · rintro u ⟨⟩
    · intro falling
      exact awake.falling (KernelPc.wake_eq_falling falling)
    · intro waiting
      exact absurd waiting (KernelPc.wake_ne_waiting _)
  | searches announced =>
    exact ⟨awake.holder_set present (by simp [announced]) _, awake.falling, awake.waiting⟩
  | walks _ _ _ closing =>
    exact ⟨awake.holder_set present (by simp [closing]) _, awake.falling, awake.waiting⟩
  | returns through =>
    exact ⟨awake.holder_set present (by simp [through]) _, awake.falling, awake.waiting⟩

theorem joinThreads_awake (awake : Awake s) (stepped : joinThreads s = some s') : Awake s' := by
  cases joinThreads_cases stepped with
  | moves => exact ⟨awake.holder, awake.falling, awake.waiting⟩
  | removes => exact ⟨awake.holder, awake.falling, awake.waiting⟩
  | joins _ _ _ _ present returned =>
    exact ⟨awake.holder_set present (by simp [returned]) _, awake.falling, awake.waiting⟩
  | inserts => exact ⟨awake.holder, awake.falling, awake.waiting⟩

theorem closeServer_awake (awake : Awake s) (stepped : closeServer s = some s') : Awake s' := by
  obtain ⟨_, _, _, _, _, _, _, rfl, -, rfl | rfl⟩ := closeServer_frame stepped
  · exact ⟨awake.holder, awake.falling, awake.waiting⟩
  · constructor
    · exact awake.holder
    · intro falling
      exact awake.falling (KernelPc.wake_eq_falling falling)
    · intro waiting
      exact absurd waiting (KernelPc.wake_ne_waiting _)

/-- The thread goes to sleep only when its test has found the list empty. -/
theorem kernelCommunication_awake (awake : Awake s) (stepped : kernelCommunication s = some s') :
    Awake s' := by
  have elsewhere {kernel : KernelPc} {senderList : List Pdu} (falling : kernel ≠ .falling)
      (waiting : kernel ≠ .waiting) : Awake { s with kernel := kernel, senderList := senderList } :=
    ⟨awake.holder, fun same => absurd same falling, fun same => absurd same waiting⟩
  rw [kernelCommunication] at stepped
  split at stepped
  · split_ifs at stepped
    · cases stepped
      exact elsewhere (by simp) (by simp)
    · cases stepped
      exact elsewhere (by simp) (by simp)
  · split_ifs at stepped with empty
    · cases stepped
      exact ⟨awake.holder, fun _ => empty, by simp⟩
    · cases stepped
      exact elsewhere (by simp) (by simp)
  · rename_i falling
    split_ifs at stepped
    cases stepped
    exact ⟨awake.holder, by simp, fun _ => .inl (awake.falling falling)⟩
  · cases stepped
  · split_ifs at stepped
    cases stepped
    exact elsewhere (by simp) (by simp)
  · split_ifs at stepped
    · cases stepped
      exact elsewhere (by simp) (by simp)
    · cases stepped
      exact elsewhere (by simp) (by simp)
  · split at stepped
    · cases stepped
    split_ifs at stepped
    cases stepped
    exact elsewhere (by simp) (by simp)
  · cases stepped
    exact elsewhere (by simp) (by simp)
  · obtain ⟨⟨pc, sock⟩, -, rfl⟩ := Option.map_eq_some_iff.mp stepped
    exact elsewhere (by simp) (by simp)
  · cases stepped

theorem step_awake (s : State) (e : Event) (s' : State) (timely : Timely s e) (awake : Awake s)
    (stepped : step s e = some s') : Awake s' := by
  cases e with
  | accept => exact acceptConnections_awake awake stepped
  | request t pdu => exact insertRequest_awake (timely t pdu rfl) stepped
  | listener t => exact clientListener_awake awake stepped
  | join => exact joinThreads_awake awake stepped
  | close => exact closeServer_awake awake stepped
  | kernel => exact kernelCommunication_awake awake stepped
  | spurious w =>
    cases spuriousWakeup_cases stepped with
    | joiner => exact ⟨awake.holder, awake.falling, awake.waiting⟩
    | closer => exact ⟨awake.holder, awake.falling, awake.waiting⟩
    | kernel => exact ⟨awake.holder, by simp, by simp⟩

end Steps

/-- In a run without an insertion between test and wait, no request is stranded. -/
theorem never_stranded {events : List Event} {s : State} (ran : run step .start events = some s)
    (timely : Steps step Timely .start events) : ¬Stranded s := by
  have awake : Awake s := run_invariant_of_steps step_awake awake_start timely ran
  rintro ⟨waiting, queued, nobody⟩
  obtain ⟨t, held⟩ := Option.ne_none_iff_exists'.mp ((awake.waiting waiting).resolve_left queued)
  obtain ⟨l, found, linked⟩ := awake.holder t held
  exact nobody l (List.mem_of_getElem? found) linked

/-- The request comes while `kernel_communication` is blocked, and its broadcast is still to come. -/
theorem never_stranded_blocked :
    let events := firstClient ++ [Event.kernel, .kernel, .kernel] ++ [Event.request 0 anInit]
    ∃ s, run step .start events = some s ∧ s.kernel = .waiting ∧ s.senderList = [anInit] ∧ ¬Stranded s := by
  intro events
  have blocked : run step .start (firstClient ++ [Event.kernel, .kernel, .kernel]) =
      some { oneClient with kernel := .waiting } := rfl
  have timely : Steps step Timely .start events := by
    refine .append (.of_forall ?_) fun s ran => ?_
    · rintro e member s t pdu rfl
      simp [firstClient] at member
    · cases blocked.symm.trans ran
      exact .cons (by simp [Timely]) rfl trivial
  exact ⟨_, rfl, rfl, rfl, never_stranded rfl timely⟩

/-- The request comes between the test and the wait: it is in the list, its broadcast is over, and
`kernel_communication` sleeps. -/
theorem request_stranded : ∃ s, run step .start (firstClient ++ [Event.kernel, .kernel] ++
    [.request 0 anInit, .listener 0, .kernel]) = some s ∧ Stranded s := by
  have ran : run step .start (firstClient ++ [Event.kernel, .kernel] ++
      [Event.request 0 anInit, .listener 0, .kernel]) =
      some { oneClient with senderList := [anInit], kernel := .waiting } := rfl
  exact ⟨_, ran, rfl, by simp, by simp [oneClient]⟩

end Operativsystem.Server.Process

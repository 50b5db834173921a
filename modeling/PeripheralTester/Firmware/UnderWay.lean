import PeripheralTester.Firmware.Endpoint

/-! # Jobs under way

A job is under way from the datagram in the callback to the sender's last read of the endpoint
(`Device.underWay`).  Then its response is leaving, for a destination that is settled
(`SenderPc.leaving`).  `step_underWay` and `step_move` say that a step brings no job under way
but the one of a datagram that arrives, and that only a job under way leaves. -/

namespace PeripheralTester.Firmware

open Lib

variable {ο : Type}

/-- The job of the response that the sender holds and that has no destination yet. -/
def SenderPc.job : SenderPc ο → Option (Job ο)
  | .idle | .sendto _ _ _ _ => none
  | .holding a | .alloc a | .readAddr a | .readPort a _ _ => some a.job

/-- The response before `udp_sendto`, with its destination. -/
def SenderPc.leaving : SenderPc ο → Option (Answer ο × Endpoint)
  | .sendto a destination _ _ => some (a, destination)
  | _ => none

/-- The jobs that may still be answered. -/
def Device.underWay (s : Device ο) : List (Job ο) :=
  s.callback.pending ++ s.commandQueue.items ++ s.dispatcher.toList ++
    Peripheral.all.flatMap (fun p => (s.queue p).items ++ (s.task p).job.toList) ++
    s.responseQueue.items.map Answer.job ++ s.sender.job.toList

variable {s s' : Device ο} {j : Job ο}

/-- The places of a job under way. -/
inductive Device.UnderWay (s : Device ο) (j : Job ο) : Prop
  | callback (h : j ∈ s.callback.pending)
  | commandQueue (h : j ∈ s.commandQueue.items)
  | dispatcher (h : s.dispatcher = some j)
  | queue (p : Peripheral) (h : j ∈ (s.queue p).items)
  | task (p : Peripheral) (h : (s.task p).job = some j)
  | responseQueue (a : Answer ο) (h : a ∈ s.responseQueue.items) (hj : a.job = j)
  | sender (h : s.sender.job = some j)

theorem mem_underWay : j ∈ s.underWay ↔ s.UnderWay j := by
  simp only [Device.underWay, List.mem_append, List.mem_flatMap, Peripheral.mem_all, true_and,
    List.mem_map, Option.mem_toList]
  constructor
  · intro h
    rcases h with ((((h | h) | h) | ⟨p, h | h⟩) | ⟨a, ha, h⟩) | h
    · exact .callback h
    · exact .commandQueue h
    · exact .dispatcher h
    · exact .queue p h
    · exact .task p h
    · exact .responseQueue a ha h
    · exact .sender h
  · intro h
    cases h with
    | callback h => exact .inl (.inl (.inl (.inl (.inl h))))
    | commandQueue h => exact .inl (.inl (.inl (.inl (.inr h))))
    | dispatcher h => exact .inl (.inl (.inl (.inr h)))
    | queue p h => exact .inl (.inl (.inr ⟨p, .inl h⟩))
    | task p h => exact .inl (.inl (.inr ⟨p, .inr h⟩))
    | responseQueue a h hj => exact .inl (.inr ⟨a, h, hj⟩)
    | sender h => exact .inr h

/-- A job under way after a step, place by place; what is left out was under way there before. -/
theorem Device.UnderWay.before (hj : s'.UnderWay j)
    (c : j ∈ s'.callback.pending → s.UnderWay j := by exact fun h => .callback h)
    (q : j ∈ s'.commandQueue.items → s.UnderWay j := by exact fun h => .commandQueue h)
    (d : s'.dispatcher = some j → s.UnderWay j := by exact fun h => .dispatcher h)
    (i : ∀ p, j ∈ (s'.queue p).items → s.UnderWay j := by exact fun p h => .queue p h)
    (t : ∀ p, (s'.task p).job = some j → s.UnderWay j := by exact fun p h => .task p h)
    (r : ∀ a ∈ s'.responseQueue.items, a.job = j → s.UnderWay j := by
      exact fun a h hj => .responseQueue a h hj)
    (o : s'.sender.job = some j → s.UnderWay j := by exact fun h => .sender h) :
    s.UnderWay j := by
  cases hj with
  | callback h => exact c h
  | commandQueue h => exact q h
  | dispatcher h => exact d h
  | queue p h => exact i p h
  | task p h => exact t p h
  | responseQueue a h hj => exact r a h hj
  | sender h => exact o h

/-! ### Steps -/

theorem callbackStep_underWay (h : callbackStep s = some s') (hj : s'.UnderWay j) :
    s.UnderWay j := by
  cases callbackStep_cases h with
  | storePort hpc | storeValid hpc => exact hj.before (c := fun h => .callback (hpc ▸ h))
  | badSize | full => exact hj.before (c := fun h => by cases h)
  | goodSize hpc hsize =>
      refine hj.before (c := fun h => .callback ?_)
      rw [hpc, CallbackPc.pending, commandOf, if_pos hsize]
      exact h
  | queued hpc hq =>
      refine hj.before (c := fun h => by cases h) (q := fun h => ?_)
      rw [(Fifo.push_eq_some_iff.mp hq).2] at h
      rcases List.mem_append.mp h with h | h
      · exact .commandQueue h
      · exact .callback (hpc ▸ h)

theorem udpReceive_underWay {d : Option (Datagram ο)} (h : udpReceive s d = some s')
    (hj : s'.UnderWay j) :
    s.UnderWay j ∨ ∃ d', d = some d' ∧ commandOf s.arrived.length d' = some j := by
  cases udpReceive_cases h with
  | null => exact .inl hj
  | @datagram d =>
      by_cases hc : commandOf s.arrived.length d = some j
      · exact .inr ⟨d, rfl, hc⟩
      · exact .inl (hj.before (c := fun h => absurd (Option.mem_toList.mp h) hc))

/-- A job in one of the peripherals' queues after the update of one. -/
theorem underWay_of_queue {p p' : Peripheral} {q : Fifo (Job ο) appQueueLength}
    (hq : j ∈ q.items → s.UnderWay j) (h : j ∈ (Function.update s.queue p q p').items) :
    s.UnderWay j := by
  by_cases hp : p' = p
  · subst hp
    rw [Function.update_self] at h
    exact hq h
  · rw [Function.update_of_ne hp] at h
    exact .queue p' h

/-- The job of one of the tasks after the move of one. -/
theorem underWay_of_task {p p' : Peripheral} {t : TaskPc ο} (ht : t.job = some j → s.UnderWay j)
    (h : (Function.update s.task p t p').job = some j) : s.UnderWay j := by
  by_cases hp : p' = p
  · subst hp
    rw [Function.update_self] at h
    exact ht h
  · rw [Function.update_of_ne hp] at h
    exact .task p' h

theorem dispatcherStep_underWay (h : dispatcherStep s = some s') (hj : s'.UnderWay j) :
    s.UnderWay j := by
  cases dispatcherStep_cases h with
  | timeout => exact hj.before
  | @receive j' q _ hq =>
      have hitems := Fifo.pop_eq_some_iff.mp hq
      refine hj.before (q := fun h => .commandQueue ?_) (d := fun h => .commandQueue ?_)
      · rw [hitems]
        exact List.mem_cons_of_mem j' h
      · rw [hitems, Option.some.inj h]
        exact List.mem_cons_self
  | unknown | full => exact hj.before (d := fun h => by cases h)
  | @forward j' p q hd _ hq =>
      refine hj.before (d := fun h => by cases h) (i := fun p' => underWay_of_queue fun h => ?_)
      rw [(Fifo.push_eq_some_iff.mp hq).2, List.mem_append, List.mem_singleton] at h
      rcases h with h | rfl
      · exact .queue p h
      · exact .dispatcher hd

theorem taskStep_underWay {p : Peripheral} {passed : Bool} (h : taskStep s p passed = some s')
    (hj : s'.UnderWay j) : s.UnderWay j := by
  cases taskStep_cases h with
  | @receive j' q _ hq =>
      have hitems := Fifo.pop_eq_some_iff.mp hq
      refine hj.before (i := fun p' => underWay_of_queue fun h => .queue p ?_)
        (t := fun p' => underWay_of_task fun h => .queue p ?_)
      · rw [hitems]
        exact List.mem_cons_of_mem j' h
      · rw [hitems, Option.some.inj h]
        exact List.mem_cons_self
  | run ht => exact hj.before (t := fun p' => underWay_of_task fun h => .task p (ht ▸ h))
  | @respond a q ht hq =>
      refine hj.before (t := fun p' => underWay_of_task fun h => by cases h)
        (r := fun a' h hj => ?_)
      rw [(Fifo.push_eq_some_iff.mp hq).2] at h
      rcases List.mem_append.mp h with h | h
      · exact .responseQueue a' h hj
      · refine .task p ?_
        rw [ht, TaskPc.job, ← List.mem_singleton.mp h, hj]
  | full => exact hj.before (t := fun p' => underWay_of_task fun h => by cases h)

theorem senderStep_underWay {allocates : Bool} {err : ℤ}
    (h : senderStep s allocates err = some s') (hj : s'.UnderWay j) : s.UnderWay j := by
  cases senderStep_cases h with
  | timeout => exact hj.before
  | @receive a q _ hq =>
      have hitems := Fifo.pop_eq_some_iff.mp hq
      refine hj.before (r := fun a' h => .responseQueue a' ?_)
        (o := fun h => .responseQueue a ?_ (Option.some.inj h))
      · rw [hitems]
        exact List.mem_cons_of_mem a h
      · rw [hitems]
        exact List.mem_cons_self
  | hand hp | allocated hp | readAddr hp => exact hj.before (o := fun h => .sender (hp ▸ h))
  | notReady | notAllocated | readPort | notSent | sent =>
      exact hj.before (o := fun h => by cases h)

/-- A step brings no job under way but the one of a datagram that arrives. -/
theorem step_underWay {e : Event ο} (h : step s e = some s') (hj : s'.UnderWay j) :
    s.UnderWay j ∨ ∃ d, e = .udpReceive (some d) ∧ commandOf s.arrived.length d = some j := by
  cases e with
  | udpReceive d =>
      rcases udpReceive_underWay h hj with hj | ⟨d', rfl, hc⟩
      · exact .inl hj
      · exact .inr ⟨d', rfl, hc⟩
  | callback => exact .inl (callbackStep_underWay h hj)
  | dispatcher => exact .inl (dispatcherStep_underWay h hj)
  | task p passed => exact .inl (taskStep_underWay h hj)
  | sender allocates err => exact .inl (senderStep_underWay h hj)

theorem callbackStep_arrived (h : callbackStep s = some s') : s'.arrived = s.arrived := by
  cases callbackStep_cases h <;> rfl

/-- The datagrams that arrived are those the callback was called with. -/
theorem step_arrived {e : Event ο} (h : step s e = some s') :
    s'.arrived = s.arrived ∨
      ∃ d, e = .udpReceive (some d) ∧ s'.arrived = s.arrived ++ [d] := by
  cases e with
  | udpReceive d =>
      cases udpReceive_cases h with
      | null => exact .inl rfl
      | @datagram d => exact .inr ⟨d, rfl, rfl⟩
  | callback => exact .inl (callbackStep_arrived h)
  | dispatcher => exact .inl (dispatcherStep_frame h).arrived
  | task p passed => exact .inl (taskStep_frame h).arrived
  | sender allocates err => exact .inl (senderStep_frame h).arrived

/-! ### Responses -/

/-- The response that the sender has handed over to `app_net_udp_send_response`. -/
def SenderPc.sending : SenderPc ο → Option (Answer ο)
  | .idle | .holding _ => none
  | .alloc a | .readAddr a | .readPort a _ _ | .sendto a _ _ _ => some a

/-- Nothing is sent that was not handed over. -/
structure HandedOver (s : Device ο) : Prop where
  sender : ∀ a, s.sender.sending = some a → a ∈ s.handed
  sends : ∀ x ∈ s.sends, x.answer ∈ s.handed

theorem handedOver_init (udpPcb : Bool) : HandedOver (.init udpPcb : Device ο) where
  sender := fun _ h => by cases h
  sends := fun _ h => by cases h

/-- What a step of the sender does to the response in its hand: only a job under way comes to
leave, and only what is leaving is sent. -/
structure SenderMove (s s' : Device ο) : Prop where
  leaving : ∀ x, s'.sender.leaving = some x → s.sender.leaving = some x ∨
    s.sender.job = some x.1.job
  sends : s'.sends = s.sends ∨ ∃ x, s'.sends = s.sends ++ [x] ∧
    s.sender.leaving = some (x.answer, x.destination)
  handed : s.handed <+: s'.handed
  handedOver : HandedOver s → HandedOver s'

theorem senderStep_move {allocates : Bool} {err : ℤ} (h : senderStep s allocates err = some s') :
    SenderMove s s' := by
  have hsender : ∀ {a : Answer ο}, s.sender.sending = some a → HandedOver s →
      ∀ a', some a = some a' → a' ∈ s.handed := by
    intro a ha hs a' ha'
    exact hs.sender a' (ha.trans ha')
  have hgone : ∀ {l : List (Answer ο)} a, (.idle : SenderPc ο).sending = some a → a ∈ l := by
    intro l a ha
    cases ha
  have hstay : ∀ {pc : SenderPc ο}, pc.leaving = none → ∀ x, pc.leaving = some x →
      s.sender.leaving = some x ∨ s.sender.job = some x.1.job := by
    intro pc hpc x hx
    rw [hpc] at hx
    cases hx
  cases senderStep_cases h with
  | timeout => exact ⟨fun _ => .inl, .inl rfl, List.prefix_refl _, fun hs => ⟨hs.sender, hs.sends⟩⟩
  | receive | notAllocated =>
      exact ⟨hstay rfl, .inl rfl, List.prefix_refl _, fun hs => ⟨hgone, hs.sends⟩⟩
  | notReady =>
      refine ⟨hstay rfl, .inl rfl, List.prefix_append _ _, fun hs => ⟨hgone, ?_⟩⟩
      exact fun x hx => List.mem_append_left _ (hs.sends x hx)
  | hand =>
      refine ⟨hstay rfl, .inl rfl, List.prefix_append _ _, fun hs => ⟨?_, ?_⟩⟩
      · intro a' ha'
        rw [← Option.some.inj ha']
        exact List.mem_append_right _ (List.mem_singleton_self _)
      · exact fun x hx => List.mem_append_left _ (hs.sends x hx)
  | allocated hp | readAddr hp =>
      exact ⟨hstay rfl, .inl rfl, List.prefix_refl _, fun hs => ⟨hsender (hp ▸ rfl) hs, hs.sends⟩⟩
  | readPort hp =>
      refine ⟨?_, .inl rfl, List.prefix_refl _, fun hs => ⟨hsender (hp ▸ rfl) hs, hs.sends⟩⟩
      intro x hx
      rw [hp, ← Option.some.inj hx]
      exact .inr rfl
  | @notSent a _ _ _ hp | @sent a _ _ _ hp =>
      refine ⟨hstay rfl, .inr ⟨_, rfl, ?_⟩, List.prefix_refl _, fun hs => ⟨hgone, ?_⟩⟩
      · rw [hp, SenderPc.leaving]
      · intro x hx
        rcases List.mem_append.mp hx with hx | hx
        · exact hs.sends x hx
        · rw [List.mem_singleton.mp hx]
          exact hs.sender a (by rw [hp, SenderPc.sending])

/-- Every step does no more. -/
theorem step_move {e : Event ο} (h : step s e = some s') : SenderMove s s' := by
  have hframe : SendFrame s s' → SenderMove s s' := by
    intro hf
    refine ⟨fun x hx => .inl (hf.sender ▸ hx), .inl hf.sends, ?_, fun hs => ⟨?_, ?_⟩⟩
    · rw [hf.handed]
    · rw [hf.sender, hf.handed]
      exact hs.sender
    · rw [hf.sends, hf.handed]
      exact hs.sends
  cases e with
  | udpReceive d => exact hframe (udpReceive_sendFrame h)
  | callback => exact hframe (callbackStep_sendFrame h)
  | dispatcher => exact hframe (dispatcherStep_sendFrame h)
  | task p passed => exact hframe (taskStep_sendFrame h)
  | sender allocates err => exact senderStep_move h

end PeripheralTester.Firmware

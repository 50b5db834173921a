import PeripheralTester.Firmware.Conservation
import PeripheralTester.Lib.Fairness

/-! # Every command comes to its end

`Conserved` says where a command can be, not that it ever leaves.  Here it does: under weak fairness
every command that arrives is handed to `app_net_udp_send_response` or dropped with its line logged,
however many datagrams come after it (`answered_or_reported`).

At each place a command waits for one party (`Device.Pending`): the receive callback, the
dispatcher, the task of a peripheral, or the sender.  Its rank counts down the moves of that party
until it goes on, and the ranks of the later parties lie below those of the earlier ones, since no
queue has more than ten places.  What is sent after it is behind it in every queue. -/

namespace PeripheralTester.Firmware

open Lib

variable {ο : Type}

/-! ### Parties -/

inductive Party where
  | network
  | callback
  | dispatcher
  | task (p : Peripheral)
  | sender
deriving DecidableEq, Repr, Fintype

deriving instance DecidableEq for CallbackPc, TaskPc, SenderPc

/-- Whose move an event is. -/
def Event.party : Event ο → Party
  | .udpReceive _ => .network
  | .callback => .callback
  | .dispatcher => .dispatcher
  | .task p _ => .task p
  | .sender _ _ => .sender

/-- The party is busy, or its queue has something for it.  The network owes nothing. -/
def Party.Ready : Party → Device ο → Prop
  | .network, _ => False
  | .callback, s => s.callback ≠ .idle
  | .dispatcher, s => s.dispatcher ≠ none ∨ s.commandQueue.items ≠ []
  | .task p, s => s.task p ≠ .idle ∨ (s.queue p).items ≠ []
  | .sender, s => s.sender ≠ .idle ∨ s.responseQueue.items ≠ []

instance [DecidableEq ο] (i : Party) (s : Device ο) : Decidable (i.Ready s) :=
  match i with
  | .network => inferInstanceAs (Decidable False)
  | .callback => inferInstanceAs (Decidable (_ ≠ _))
  | .dispatcher | .task _ | .sender => inferInstanceAs (Decidable (_ ≠ _ ∨ _ ≠ _))

/-- The moves of a busy party until it receives again. -/
def SenderPc.left : SenderPc ο → ℕ
  | .idle => 0
  | .sendto .. => 1
  | .readPort .. => 2
  | .readAddr _ => 3
  | .alloc _ => 4
  | .holding _ => 5

def TaskPc.left : TaskPc ο → ℕ
  | .idle => 0
  | .respond _ => 1
  | .run _ => 2

theorem SenderPc.left_le (pc : SenderPc ο) : pc.left ≤ 5 := by
  cases pc <;> simp [SenderPc.left]

theorem TaskPc.left_le (pc : TaskPc ο) : pc.left ≤ 2 := by
  cases pc <;> simp [TaskPc.left]

/-! ### Where a command waits -/

/-- The command waits for the party, which has so many moves to make at most. -/
inductive Device.Pending (s : Device ο) (j : Job ο) : Party → ℕ → Prop
  | storePort {d : Datagram ο} {n : ℕ} (h : s.callback = .storePort d n)
      (hj : commandOf n d = some j) : Pending s j .callback 120
  | storeValid {d : Datagram ο} {n : ℕ} (h : s.callback = .storeValid d n)
      (hj : commandOf n d = some j) : Pending s j .callback 119
  | check {d : Datagram ο} {n : ℕ} (h : s.callback = .check d n)
      (hj : commandOf n d = some j) : Pending s j .callback 118
  | send (h : s.callback = .send j) : Pending s j .callback 117
  | inCommandQueue {before after : List (Job ο)} (h : s.commandQueue.items = before ++ j :: after) :
      Pending s j .dispatcher (97 + s.dispatcher.toList.length + 2 * before.length)
  | dispatched (h : s.dispatcher = some j) : Pending s j .dispatcher 96
  | inQueue {p : Peripheral} {before after : List (Job ο)}
      (h : (s.queue p).items = before ++ j :: after) :
      Pending s j (.task p) (66 + (s.task p).left + 3 * before.length)
  | running {p : Peripheral} (h : s.task p = .run j) : Pending s j (.task p) 65
  | responding {p : Peripheral} {a : Answer ο} (h : s.task p = .respond a) (ha : a.job = j) :
      Pending s j (.task p) 64
  | inResponseQueue {before after : List (Answer ο)} {a : Answer ο}
      (h : s.responseQueue.items = before ++ a :: after) (ha : a.job = j) :
      Pending s j .sender (2 + s.sender.left + 6 * before.length)
  | held {a : Answer ο} (h : s.sender = .holding a) (ha : a.job = j) : Pending s j .sender 1

/-- It was handed over for sending, or dropped. -/
def Device.Settled (s : Device ο) (j : Job ο) : Prop :=
  (∃ a ∈ s.handed, a.job = j) ∨ ∃ point, (point, j) ∈ s.dropped

variable {s s' : Device ο} {j : Job ο} {i : Party} {r : ℕ}

/-- The party that a command waits for has something to do. -/
theorem Device.Pending.ready (h : s.Pending j i r) : i.Ready s := by
  cases h with
  | storePort h | storeValid h | check h | send h =>
      intro hidle
      rw [hidle] at h
      cases h
  | inCommandQueue h | inQueue h | inResponseQueue h =>
      refine .inr fun hnil => ?_
      rw [hnil] at h
      simp at h
  | dispatched h | running h | responding h | held h =>
      refine .inl fun hidle => ?_
      rw [hidle] at h
      cases h

/-- A command that was received and has not come to its end waits somewhere. -/
theorem exists_pending (hs : s.Invariant) (hj : j ∈ commandsOf s.arrived) :
    s.Settled j ∨ ∃ i r, s.Pending j i r := by
  rw [← hs.heard, List.mem_append] at hj
  rcases hj with hj | hj
  · rw [← Multiset.mem_coe, hs.conserved] at hj
    simp only [Device.jobs, Multiset.mem_add, Multiset.mem_coe, List.mem_map] at hj
    rcases hj with ((((((hj | hj) | hj) | hj) | hj) | hj) | hj) | hj
    · obtain ⟨before, after, h⟩ := List.append_of_mem hj
      exact .inr ⟨_, _, .inCommandQueue h⟩
    · exact .inr ⟨_, _, .dispatched (Option.mem_toList.mp hj)⟩
    · obtain ⟨p, -, hp⟩ := Multiset.mem_sum.mp hj
      obtain ⟨before, after, h⟩ := List.append_of_mem (Multiset.mem_coe.mp hp)
      exact .inr ⟨_, _, .inQueue h⟩
    · obtain ⟨p, -, hp⟩ := Multiset.mem_sum.mp hj
      cases ht : s.task p with
      | idle =>
          rw [ht] at hp
          simp [TaskPc.jobs] at hp
      | run j' =>
          rw [ht] at hp
          obtain rfl := Multiset.mem_singleton.mp hp
          exact .inr ⟨_, _, .running ht⟩
      | respond a =>
          rw [ht] at hp
          exact .inr ⟨_, _, .responding ht (Multiset.mem_singleton.mp hp).symm⟩
    · obtain ⟨a, ha, rfl⟩ := hj
      obtain ⟨before, after, h⟩ := List.append_of_mem ha
      exact .inr ⟨_, _, .inResponseQueue h rfl⟩
    · obtain ⟨a, ha, rfl⟩ := hj
      cases hp : s.sender with
      | holding a' =>
          rw [hp] at ha
          obtain rfl := List.mem_singleton.mp ha
          exact .inr ⟨_, _, .held hp rfl⟩
      | _ =>
          rw [hp] at ha
          cases ha
    · exact .inl (.inl hj)
    · obtain ⟨⟨point, j'⟩, hd, rfl⟩ := hj
      exact .inl (.inr ⟨point, hd⟩)
  · right
    cases hpc : s.callback with
    | idle =>
        rw [hpc] at hj
        cases hj
    | storePort d n =>
        rw [hpc] at hj
        exact ⟨_, _, .storePort hpc (Option.mem_toList.mp hj)⟩
    | storeValid d n =>
        rw [hpc] at hj
        exact ⟨_, _, .storeValid hpc (Option.mem_toList.mp hj)⟩
    | check d n =>
        rw [hpc] at hj
        exact ⟨_, _, .check hpc (Option.mem_toList.mp hj)⟩
    | send j' =>
        rw [hpc] at hj
        obtain rfl := List.mem_singleton.mp hj
        exact ⟨_, _, .send hpc⟩

/-! ### What the others leave alone -/

/-- What the moves of the other parties leave of the place a party works at: they do not touch the
party itself, and its queue only grows at the end. -/
def Aside (s s' : Device ο) : Party → Prop
  | .network => True
  | .callback => s.callback ≠ .idle → s'.callback = s.callback
  | .dispatcher =>
      s'.dispatcher = s.dispatcher ∧ s.commandQueue.items <+: s'.commandQueue.items
  | .task p => s'.task p = s.task p ∧ (s.queue p).items <+: (s'.queue p).items
  | .sender => s'.sender = s.sender ∧ s.responseQueue.items <+: s'.responseQueue.items

/-- What is pushed goes behind what is there. -/
theorem prefix_push {α : Type} {n : ℕ} {q q' : Fifo α n} {a : α} (h : q.push a = some q') :
    q.items <+: q'.items := by
  rw [(Fifo.push_eq_some_iff.mp h).2]
  exact List.prefix_append _ _

theorem udpReceive_aside {d : Option (Datagram ο)} (h : udpReceive s d = some s') (i : Party) :
    Aside s s' i := by
  cases udpReceive_cases h with
  | null | datagram =>
      cases i with
      | network => trivial
      | callback => exact fun hbusy => absurd ‹s.callback = .idle› hbusy
      | dispatcher | task | sender => exact ⟨rfl, List.prefix_refl _⟩

theorem callbackStep_aside (h : callbackStep s = some s') (hi : i ≠ .callback) : Aside s s' i := by
  cases callbackStep_cases h with
  | storePort | storeValid | badSize | goodSize | full =>
      cases i with
      | network => trivial
      | callback => exact absurd rfl hi
      | dispatcher | task | sender => exact ⟨rfl, List.prefix_refl _⟩
  | queued _ hq =>
      cases i with
      | network => trivial
      | callback => exact absurd rfl hi
      | dispatcher => exact ⟨rfl, prefix_push hq⟩
      | task | sender => exact ⟨rfl, List.prefix_refl _⟩

theorem dispatcherStep_aside (h : dispatcherStep s = some s') (hi : i ≠ .dispatcher) :
    Aside s s' i := by
  cases dispatcherStep_cases h with
  | timeout | receive | unknown | full =>
      cases i with
      | network => trivial
      | callback => exact fun _ => rfl
      | dispatcher => exact absurd rfl hi
      | task | sender => exact ⟨rfl, List.prefix_refl _⟩
  | @forward j p q _ _ hq =>
      cases i with
      | network => trivial
      | callback => exact fun _ => rfl
      | dispatcher => exact absurd rfl hi
      | task p' =>
          refine ⟨rfl, ?_⟩
          by_cases hp : p' = p
          · subst hp
            simpa only [Function.update_self] using prefix_push hq
          · simp only [Function.update_of_ne hp]
            exact List.prefix_refl _
      | sender => exact ⟨rfl, List.prefix_refl _⟩

/-- A task does not touch the tasks and the queues of the other peripherals. -/
theorem taskStep_others {p p' : Peripheral} {passed : Bool} (h : taskStep s p passed = some s')
    (hp : p' ≠ p) : s'.task p' = s.task p' ∧ s'.queue p' = s.queue p' := by
  cases taskStep_cases h with
  | receive => exact ⟨Function.update_of_ne hp _ _, Function.update_of_ne hp _ _⟩
  | run | respond | full => exact ⟨Function.update_of_ne hp _ _, rfl⟩

theorem taskStep_aside {p : Peripheral} {passed : Bool} (h : taskStep s p passed = some s')
    (hi : i ≠ .task p) : Aside s s' i := by
  cases i with
  | network => trivial
  | callback => exact fun _ => (taskStep_frame h).callback
  | dispatcher => cases taskStep_cases h <;> exact ⟨rfl, List.prefix_refl _⟩
  | task p' =>
      obtain ⟨htask, hqueue⟩ := taskStep_others h fun hp => hi (congrArg _ hp)
      exact ⟨htask, hqueue ▸ List.prefix_refl _⟩
  | sender =>
      cases taskStep_cases h with
      | receive | run | full => exact ⟨rfl, List.prefix_refl _⟩
      | respond _ hq => exact ⟨rfl, prefix_push hq⟩

theorem senderStep_aside {allocates : Bool} {err : ℤ} (h : senderStep s allocates err = some s')
    (hi : i ≠ .sender) : Aside s s' i := by
  have hf := senderStep_senderFrame h
  cases i with
  | network => trivial
  | callback => exact fun _ => (senderStep_frame h).callback
  | dispatcher => exact ⟨hf.dispatcher, hf.commandQueue ▸ List.prefix_refl _⟩
  | task p => exact ⟨congrFun hf.task p, hf.queue ▸ List.prefix_refl _⟩
  | sender => exact absurd rfl hi

theorem step_aside {e : Event ο} (h : step s e = some s') (hi : e.party ≠ i) : Aside s s' i := by
  cases e with
  | udpReceive d => exact udpReceive_aside h i
  | callback => exact callbackStep_aside h hi.symm
  | dispatcher => exact dispatcherStep_aside h hi.symm
  | task p passed => exact taskStep_aside h hi.symm
  | sender allocates err => exact senderStep_aside h hi.symm

/-- What waits for a party waits on while the others move. -/
theorem Device.Pending.aside (h : s.Pending j i r) (ha : Aside s s' i) : s'.Pending j i r := by
  cases h with
  | storePort h hj => exact .storePort ((ha (by simp [h])).trans h) hj
  | storeValid h hj => exact .storeValid ((ha (by simp [h])).trans h) hj
  | check h hj => exact .check ((ha (by simp [h])).trans h) hj
  | send h => exact .send ((ha (by simp [h])).trans h)
  | @inCommandQueue before after h =>
      obtain ⟨hd, tail, hq⟩ := ha
      have hitems : s'.commandQueue.items = before ++ j :: (after ++ tail) := by
        rw [← hq, h, List.append_assoc, List.cons_append]
      exact hd ▸ .inCommandQueue hitems
  | dispatched h => exact .dispatched (ha.1.trans h)
  | @inQueue p before after h =>
      obtain ⟨ht, tail, hq⟩ := ha
      have hitems : (s'.queue p).items = before ++ j :: (after ++ tail) := by
        rw [← hq, h, List.append_assoc, List.cons_append]
      exact ht ▸ .inQueue hitems
  | running h => exact .running (ha.1.trans h)
  | responding h hj => exact .responding (ha.1.trans h) hj
  | @inResponseQueue before after a h hj =>
      obtain ⟨hp, tail, hq⟩ := ha
      have hitems : s'.responseQueue.items = before ++ a :: (after ++ tail) := by
        rw [← hq, h, List.append_assoc, List.cons_append]
      exact hp ▸ .inResponseQueue hitems hj
  | held h hj => exact .held (ha.1.trans h) hj

/-! ### The moves of the party a command waits for -/

/-- The command came to its end, or it waits with a smaller rank. -/
def Advanced (s' : Device ο) (j : Job ο) (r : ℕ) : Prop :=
  s'.Settled j ∨ ∃ i', ∃ r' < r, s'.Pending j i' r'

/-- What is pushed has at most nine before it. -/
theorem push_split {α : Type} {q q' : Fifo α appQueueLength} {a : α} (h : q.push a = some q') :
    q'.items = q.items ++ a :: [] ∧ q.items.length ≤ 9 := by
  obtain ⟨hlt, hitems⟩ := Fifo.push_eq_some_iff.mp h
  exact ⟨hitems, Nat.le_of_lt_succ hlt⟩

theorem callbackStep_advances (h : callbackStep s = some s') (hp : s.Pending j .callback r) :
    Advanced s' j r := by
  cases hp with
  | storePort hpc hj =>
      cases callbackStep_cases h with
      | storePort hpc' =>
          cases hpc.symm.trans hpc'
          exact .inr ⟨_, _, by decide, .storeValid rfl hj⟩
      | storeValid hpc' | badSize hpc' | goodSize hpc' | queued hpc' | full hpc' =>
          cases hpc.symm.trans hpc'
  | storeValid hpc hj =>
      cases callbackStep_cases h with
      | storeValid hpc' =>
          cases hpc.symm.trans hpc'
          exact .inr ⟨_, _, by decide, .check rfl hj⟩
      | storePort hpc' | badSize hpc' | goodSize hpc' | queued hpc' | full hpc' =>
          cases hpc.symm.trans hpc'
  | check hpc hj =>
      cases callbackStep_cases h with
      | badSize hpc' hsize =>
          -- it has the size of a command
          cases hpc.symm.trans hpc'
          rw [commandOf, if_neg hsize] at hj
          cases hj
      | goodSize hpc' hsize =>
          cases hpc.symm.trans hpc'
          rw [commandOf, if_pos hsize] at hj
          obtain rfl := Option.some.inj hj
          exact .inr ⟨_, _, by decide, .send rfl⟩
      | storePort hpc' | storeValid hpc' | queued hpc' | full hpc' => cases hpc.symm.trans hpc'
  | send hpc =>
      cases callbackStep_cases h with
      | queued hpc' hq =>
          cases hpc.symm.trans hpc'
          obtain ⟨hitems, hlength⟩ := push_split hq
          have hd := s.dispatcher.length_toList_le
          exact .inr ⟨_, _, by simp only; omega, .inCommandQueue hitems⟩
      | full hpc' =>
          cases hpc.symm.trans hpc'
          exact .inl (.inr ⟨_, List.mem_append_right _ (List.mem_singleton_self _)⟩)
      | storePort hpc' | storeValid hpc' | badSize hpc' | goodSize hpc' =>
          cases hpc.symm.trans hpc'

/-- The dispatcher is rid of another command: the queue waits for one move less. -/
theorem pending_dispatched {j' : Job ο} {before after : List (Job ο)}
    (hd : s.dispatcher = some j') (hd' : s'.dispatcher = none)
    (hq : s'.commandQueue.items = before ++ j :: after) :
    Advanced s' j (97 + s.dispatcher.toList.length + 2 * before.length) := by
  refine .inr ⟨_, _, ?_, .inCommandQueue hq⟩
  rw [hd, hd']
  simp

theorem dispatcherStep_advances (h : dispatcherStep s = some s')
    (hp : s.Pending j .dispatcher r) : Advanced s' j r := by
  cases hp with
  | @inCommandQueue before after hitems =>
      cases dispatcherStep_cases h with
      | timeout _ hq =>
          rw [Fifo.pop_eq_none_iff.mp hq] at hitems
          simp at hitems
      | receive hd hq =>
          have hpop := (Fifo.pop_eq_some_iff.mp hq).symm.trans hitems
          cases before with
          | nil =>
              -- it is the one that is received
              obtain ⟨rfl, -⟩ := List.cons.inj hpop
              exact .inr ⟨_, _, by simp only [hd]; simp, .dispatched rfl⟩
          | cons b before =>
              refine .inr ⟨_, _, ?_, .inCommandQueue (List.cons.inj hpop).2⟩
              simp only [hd, Option.toList_none, Option.toList_some, List.length_nil,
                List.length_cons]
              omega
      | unknown hd | forward hd | full hd => exact pending_dispatched hd rfl hitems
  | dispatched hpc =>
      cases dispatcherStep_cases h with
      | timeout hd | receive hd => cases hpc.symm.trans hd
      | unknown hd | full hd =>
          cases hpc.symm.trans hd
          exact .inl (.inr ⟨_, List.mem_append_right _ (List.mem_singleton_self _)⟩)
      | @forward _ p q hd _ hq =>
          cases hpc.symm.trans hd
          obtain ⟨hitems, hlength⟩ := push_split hq
          have hleft := (s.task p).left_le
          have hqueue : (Function.update s.queue p q p).items = (s.queue p).items ++ j :: [] := by
            rw [Function.update_self, hitems]
          exact .inr ⟨.task p, _, by simp only; omega, .inQueue hqueue⟩

theorem taskStep_advances {p : Peripheral} {passed : Bool} (h : taskStep s p passed = some s')
    (hp : s.Pending j (.task p) r) : Advanced s' j r := by
  cases hp with
  | @inQueue _ before after hitems =>
      cases taskStep_cases h with
      | @receive _ q ht hq =>
          have hpop := (Fifo.pop_eq_some_iff.mp hq).symm.trans hitems
          cases before with
          | nil =>
              -- it is the one that is received
              obtain ⟨rfl, -⟩ := List.cons.inj hpop
              exact .inr ⟨_, _, by simp [ht, TaskPc.left], .running (Function.update_self _ _ _)⟩
          | cons b before =>
              have hqueue : (Function.update s.queue p q p).items = before ++ j :: after := by
                rw [Function.update_self]
                exact (List.cons.inj hpop).2
              refine .inr ⟨.task p, _, ?_, .inQueue hqueue⟩
              simp only [Function.update_self, ht, TaskPc.left, List.length_cons]
              omega
      | run ht | respond ht | full ht =>
          refine .inr ⟨.task p, _, ?_, .inQueue hitems⟩
          simp [ht, TaskPc.left]
  | running hpc =>
      cases taskStep_cases h with
      | run ht =>
          cases hpc.symm.trans ht
          exact .inr ⟨_, _, by decide, .responding (Function.update_self _ _ _) rfl⟩
      | receive ht | respond ht | full ht => cases hpc.symm.trans ht
  | responding hpc ha =>
      cases taskStep_cases h with
      | respond ht hq =>
          cases hpc.symm.trans ht
          obtain ⟨hitems, hlength⟩ := push_split hq
          have hleft := s.sender.left_le
          exact .inr ⟨_, _, by simp only; omega, .inResponseQueue hitems ha⟩
      | full ht =>
          cases hpc.symm.trans ht
          exact .inl (.inr ⟨_, List.mem_append_right _ (List.mem_singleton.mpr (by rw [ha]))⟩)
      | receive ht | run ht => cases hpc.symm.trans ht

theorem senderStep_advances {allocates : Bool} {err : ℤ}
    (h : senderStep s allocates err = some s') (hp : s.Pending j .sender r) :
    Advanced s' j r := by
  cases hp with
  | @inResponseQueue before after a hitems ha =>
      cases senderStep_cases h with
      | timeout _ hq =>
          rw [Fifo.pop_eq_none_iff.mp hq] at hitems
          simp at hitems
      | receive hpc hq =>
          have hpop := (Fifo.pop_eq_some_iff.mp hq).symm.trans hitems
          cases before with
          | nil =>
              -- it is the one that is received
              obtain ⟨rfl, -⟩ := List.cons.inj hpop
              exact .inr ⟨_, _, by simp only [hpc]; simp [SenderPc.left], .held rfl ha⟩
          | cons b before =>
              refine .inr ⟨_, _, ?_, .inResponseQueue (List.cons.inj hpop).2 ha⟩
              simp only [hpc, SenderPc.left, List.length_cons]
              omega
      | notReady hpc | hand hpc | allocated hpc | notAllocated hpc | readAddr hpc
      | readPort hpc | notSent hpc | sent hpc =>
          refine .inr ⟨_, _, ?_, .inResponseQueue hitems ha⟩
          simp [hpc, SenderPc.left]
  | held hpc ha =>
      cases senderStep_cases h with
      | notReady hpc' | hand hpc' =>
          cases hpc.symm.trans hpc'
          exact .inl (.inl ⟨_, List.mem_append_right _ (List.mem_singleton_self _), ha⟩)
      | timeout hpc' | receive hpc' | allocated hpc' | notAllocated hpc' | readAddr hpc'
      | readPort hpc' | notSent hpc' | sent hpc' => cases hpc.symm.trans hpc'

theorem step_advances {e : Event ο} (h : step s e = some s') (hp : s.Pending j e.party r) :
    Advanced s' j r := by
  cases e with
  | udpReceive d => exact absurd hp.ready id
  | callback => exact callbackStep_advances h hp
  | dispatcher => exact dispatcherStep_advances h hp
  | task p passed => exact taskStep_advances h hp
  | sender allocates err => exact senderStep_advances h hp

/-! ### Progress -/

/-- **Every command comes to its end**: in every fair execution, however long datagrams go on
coming, each correctly sized command that the callback was called with is at last passed to
`app_net_udp_send_response` with its identifier, or dropped at a point whose line is in the log. -/
theorem answered_or_reported {udpPcb : Bool} (x : Execution (step (ο := ο)))
    (hinit : x.state 0 = .init udpPcb) (hfair : x.Fair Party.Ready Event.party) (n : ℕ)
    (hj : j ∈ commandsOf (x.state n).arrived) :
    ∃ m ≥ n,
      (∃ a ∈ (x.state m).handed, a.job = j ∧ a.response.testId = j.command.testId) ∨
      ∃ point, (point, j) ∈ (x.state m).dropped ∧ point.line ∈ (x.state m).log := by
  have hinv : ∀ k, (x.state k).Invariant := fun k =>
    invariant_of_reachable (hinit ▸ x.reachable k)
  have hend : ∃ m ≥ n, (x.state m).Settled j := by
    rcases exists_pending (hinv n) hj with hdone | ⟨i, r, hp⟩
    · exact ⟨n, le_refl n, hdone⟩
    · refine hfair.leadsTo (G := fun s => s.Settled j) (P := fun s => s.Pending j)
        (fun _ _ _ hk => hk.ready) ?_ ?_ hp
      · rintro k a i r hk hstep rfl
        exact step_advances hstep hk
      · exact fun k a i r hk hstep hi => .inr (hk.aside (step_aside hstep hi))
  obtain ⟨m, hm, hsettled⟩ := hend
  refine ⟨m, hm, hsettled.imp ?_ ?_⟩
  · rintro ⟨a, ha, rfl⟩
    exact ⟨a, ha, rfl, (hinv m).placed.responses a (List.mem_append_right _ ha)⟩
  · rintro ⟨point, hd⟩
    exact ⟨point, hd, (hinv m).placed.logged.subset (List.mem_map_of_mem hd)⟩

/-- A timer command that is answered, in an execution in which nobody moves after that. -/
theorem answered_or_reported_timer :
    ∃ x : Execution (step (ο := Unit)), x.state 0 = .init true ∧
      ∃ j ∈ commandsOf (x.state 5).arrived, ∃ m ≥ 5,
        (∃ a ∈ (x.state m).handed, a.job = j ∧ a.response.testId = j.command.testId) ∨
        ∃ point, (point, j) ∈ (x.state m).dropped ∧ point.line ∈ (x.state m).log := by
  obtain ⟨s, hs, hquiet⟩ := Option.map_eq_some_iff.mp (show
    (exec step (.init true) (receiveSchedule (timerDatagram 7 ⟨1, 2⟩) ++ answerSchedule)).map
      (fun s => decide (∀ i : Party, ¬ i.Ready s)) = some true by decide +kernel)
  obtain ⟨t, ht, hlen⟩ := Option.map_eq_some_iff.mp (show
    (exec step (.init true) (receiveSchedule (timerDatagram 7 ⟨1, 2⟩))).map
      (fun s => (commandsOf s.arrived).length) = some 1 by decide +kernel)
  let x := Execution.ofRun (Run.of_exec hs)
  have hfive : x.state 5 = t := Execution.ofRun_append (.of_exec ht) (.of_exec hs)
  obtain ⟨j, hj⟩ := List.exists_mem_of_length_pos (by rw [hlen]; exact Nat.one_pos)
  have hfair : x.Fair Party.Ready Event.party :=
    Execution.fair_ofRun _ (of_decide_eq_true hquiet)
  exact ⟨x, rfl, j, hfive ▸ hj, answered_or_reported x rfl hfair 5 (hfive ▸ hj)⟩

end PeripheralTester.Firmware

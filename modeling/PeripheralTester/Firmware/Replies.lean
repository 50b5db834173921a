import PeripheralTester.Firmware.Endpoint
import PeripheralTester.Firmware.Order

/-! # Rejected datagrams and the remote endpoint

The remote endpoint is commented as the one of the last received command, and responses as going
to the last command sender.  But `app_net_udp_rx_callback` stores the source of a datagram before
its checks, so a datagram that it rejects redirects the responses of all commands still under way;
and while it waits up to 100 ms for a place in the command queue, the endpoint of a command not yet
accepted is stored.

The steps are those of the pipeline, in any interleaving.  `Exchange` remembers beside the device
the command that was accepted last and the endpoint that the callback found when it was called.
`Obeys` is the documented rule for a step and `Steady` the condition under which the code
follows it. -/

namespace PeripheralTester.Firmware

open Lib

variable {ο : Type}

/-! ### The pipeline with what the rule speaks of -/

/-- The remote endpoint: address, port and valid flag. -/
def Device.remote (s : Device ο) : Endpoint × Bool := (⟨s.remoteAddr, s.remotePort⟩, s.remoteValid)

/-- The pipeline, the command that was accepted last, and the remote endpoint when the callback was
called last.  The code reads neither of the two. -/
structure Exchange (ο : Type) where
  device : Device ο
  last : Option (Job ο)
  before : Endpoint × Bool

def Exchange.init (udpPcb : Bool) : Exchange ο := ⟨.init udpPcb, none, (⟨0, 0⟩, false)⟩

/-- The command accepted last after a step. -/
def Exchange.lastAfter (x : Exchange ο) : Event ο → Option (Job ο)
  | .callback => x.device.accepting.or x.last
  | _ => x.last

/-- The endpoint that the callback found, after a step. -/
def Exchange.beforeAfter (x : Exchange ο) : Event ο → Endpoint × Bool
  | .udpReceive _ => x.device.remote
  | _ => x.before

def exchangeStep (x : Exchange ο) (e : Event ο) : Option (Exchange ο) :=
  (step x.device e).map fun s => ⟨s, x.lastAfter e, x.beforeAfter e⟩

variable {x x' : Exchange ο} {s s' : Device ο} {e : Event ο} {es : List (Event ο)}

theorem exchangeStep_cases (h : exchangeStep x e = some x') :
    step x.device e = some x'.device ∧ x'.last = x.lastAfter e ∧ x'.before = x.beforeAfter e := by
  obtain ⟨s, hs, rfl⟩ := Option.map_eq_some_iff.mp h
  exact ⟨hs, rfl, rfl⟩

/-! ### The documented rule -/

/-- `app_net_udp_rx_callback` is called or goes on. -/
def Event.OfCallback (e : Event ο) : Prop := e = .callback ∨ ∃ d, e = .udpReceive d

/-- A step follows the rule: the callback enqueues a command or leaves the command queue alone; if
it returns without having enqueued one, the remote endpoint is as the callback found it; and what
is sent goes to the source of the command accepted last. -/
structure Follows (x : Exchange ο) (e : Event ο) (x' : Exchange ο) : Prop where
  queue : e.OfCallback →
    (∃ j, x.device.commandQueue.push j = some x'.device.commandQueue) ∨
      x'.device.commandQueue = x.device.commandQueue
  remote : e.OfCallback → x'.device.callback = .idle →
    x'.device.commandQueue = x.device.commandQueue → x'.device.remote = x'.before
  sends : ∀ y ∈ x'.device.sends.drop x.device.sends.length,
    ∃ j, x.last = some j ∧ y.destination = j.source

def Obeys (x : Exchange ο) (e : Event ο) : Prop :=
  ∀ x', exchangeStep x e = some x' → Follows x e x'

/-! ### When the code follows it -/

/-- The field of the source of the datagram `stored`. -/
def sourceField {α : Type} (field : Endpoint → α) (arrived : List (Datagram ο))
    (stored : Option ℕ) : Option α :=
  stored.bind fun n => arrived[n]?.map fun d => field d.source

/-- The datagrams whose address and port were stored last when the sender read them came from the
address and the port of the command accepted last. -/
def Exchange.ReadFromLast (x : Exchange ο) (addrFrom portFrom : Option ℕ) : Prop :=
  ∃ j, x.last = some j ∧
    sourceField Endpoint.addr x.device.arrived addrFrom = some j.source.addr ∧
    sourceField Endpoint.port x.device.arrived portFrom = some j.source.port

/-- The callback does not reject a datagram of another endpoint than the one it found, and the
sender does not send with an address or a port of another client than the last. -/
def Steady (x : Exchange ο) : Event ο → Prop
  | .callback =>
      match x.device.callback with
      | .check d _ => d.totLen ≠ Command.size → x.before = (d.source, true)
      | .send j =>
          x.device.commandQueue.items.length = appQueueLength → x.before = (j.source, true)
      | _ => True
  | .sender _ _ =>
      match x.device.sender with
      | .sendto _ _ addrFrom portFrom => x.ReadFromLast addrFrom portFrom
      | _ => True
  | _ => True

instance (x : Exchange ο) (addrFrom portFrom : Option ℕ) :
    Decidable (x.ReadFromLast addrFrom portFrom) :=
  decidable_of_iff
    (x.last.any fun j =>
      sourceField Endpoint.addr x.device.arrived addrFrom = some j.source.addr ∧
        sourceField Endpoint.port x.device.arrived portFrom = some j.source.port)
    (by simp [Exchange.ReadFromLast, Option.any_eq_true])

instance (x : Exchange ο) : ∀ e, Decidable (Steady x e)
  | .callback => by
      unfold Steady
      exact match x.device.callback with
        | .check d _ => inferInstanceAs (Decidable (_ → _))
        | .send j => inferInstanceAs (Decidable (_ → _))
        | .idle | .storePort _ _ | .storeValid _ _ => isTrue trivial
  | .sender _ _ => by
      unfold Steady
      exact match x.device.sender with
        | .sendto _ _ addrFrom portFrom =>
            inferInstanceAs (Decidable (x.ReadFromLast addrFrom portFrom))
        | .idle | .holding _ | .alloc _ | .readAddr _ | .readPort _ _ _ => isTrue trivial
  | .udpReceive _ | .dispatcher | .task _ _ => isTrue trivial

/-! ### What the callback has stored -/

/-- How far the callback has stored the source of its datagram. -/
def CallbackPc.Storing (s : Device ο) : CallbackPc ο → Prop
  | .idle => True
  | .storePort d _ => s.remoteAddr = d.source.addr
  | .storeValid d _ => s.remoteAddr = d.source.addr ∧ s.remotePort = d.source.port
  | .check d _ => s.remote = (d.source, true)
  | .send j => s.remote = (j.source, true)

theorem TaskFrame.remote (h : TaskFrame s s') : s'.remote = s.remote := by
  rw [Device.remote, h.remoteAddr, h.remotePort, h.remoteValid, Device.remote]

theorem TaskFrame.storing (hf : TaskFrame s s') (hs : s.callback.Storing s) :
    s'.callback.Storing s' := by
  rw [hf.callback]
  cases hpc : s.callback with
  | idle => trivial
  | storePort d n | storeValid d n =>
      rw [hpc] at hs
      simp only [CallbackPc.Storing, hf.remoteAddr, hf.remotePort]
      exact hs
  | check d n | send j =>
      rw [hpc] at hs
      exact hf.remote.trans hs

theorem callbackStep_storing (h : callbackStep s = some s') (hs : s.callback.Storing s) :
    s'.callback.Storing s' := by
  cases callbackStep_cases h with
  | storePort hpc =>
      rw [hpc] at hs
      exact ⟨hs, rfl⟩
  | storeValid hpc =>
      rw [hpc] at hs
      obtain ⟨haddr, hport⟩ := hs
      simp only [CallbackPc.Storing, Device.remote, haddr, hport]
  | goodSize hpc =>
      rw [hpc] at hs
      exact hs
  | badSize | queued | full => trivial

theorem step_storing (h : step s e = some s') (hs : s.callback.Storing s) :
    s'.callback.Storing s' := by
  cases e with
  | udpReceive d =>
      cases udpReceive_cases h with
      | null => exact hs
      | datagram => rfl
  | callback => exact callbackStep_storing h hs
  | dispatcher => exact (dispatcherStep_frame h).storing hs
  | task p passed => exact (taskStep_frame h).storing hs
  | sender allocates err => exact (senderStep_frame h).storing hs

/-! ### Step by step -/

/-- The datagram that a value was stored from has it in its source. -/
theorem StoredFrom.sourceField {α : Type} {field : Endpoint → α} {arrived : List (Datagram ο)}
    {k : ℕ} {stored : Option ℕ} {value : α} (h : StoredFrom field arrived k stored value) :
    sourceField field arrived stored = some value := by
  obtain ⟨n, d, rfl, _, hd, rfl⟩ := h
  simp [Firmware.sourceField, hd]

/-- An enqueued command changes the queue. -/
theorem not_enqueued {q : Fifo (Job ο) appQueueLength} {j : Job ο} : q.push j ≠ some q := by
  intro hj
  have hitems := congrArg List.length (Fifo.push_eq_some_iff.mp hj).2
  simp at hitems

/-- A step that sends nothing and keeps the rule for the callback. -/
theorem follows_of_sends (hqueue : e.OfCallback →
      x'.device.commandQueue = x.device.commandQueue ∧
        (x'.device.callback = .idle → x'.device.remote = x'.before))
    (hsends : x'.device.sends = x.device.sends) : Follows x e x' := by
  refine ⟨fun he => .inr (hqueue he).1, fun he hidle _ => (hqueue he).2 hidle, ?_⟩
  rw [hsends, List.drop_length]
  exact fun _ hy => by cases hy

/-- A rejecting step of the callback follows the rule exactly if the callback had found the source
of its datagram. -/
theorem reject_follows_iff {source : Endpoint} {last : Option (Job ο)} {rejected : Prop}
    (hrejected : rejected) (hremote : x.device.remote = (source, true))
    (hsame : s'.remote = x.device.remote) (hidle : s'.callback = .idle)
    (hqueue : s'.commandQueue = x.device.commandQueue) (hsends : s'.sends = x.device.sends) :
    Follows x .callback ⟨s', last, x.before⟩ ↔ (rejected → x.before = (source, true)) := by
  constructor
  · intro h _
    have hkept : s'.remote = x.before := h.remote (.inl rfl) hidle hqueue
    rw [← hkept, hsame, hremote]
  · intro h
    have hkept : s'.remote = x.before := by rw [hsame, hremote, h hrejected]
    exact follows_of_sends (fun _ => ⟨hqueue, fun _ => hkept⟩) hsends

theorem callback_follows_iff (h : exchangeStep x .callback = some x')
    (hs : x.device.callback.Storing x.device) :
    Follows x .callback x' ↔ Steady x .callback := by
  obtain ⟨hstep, _, hbefore⟩ := exchangeStep_cases h
  have hsends := (callbackStep_sendFrame hstep).sends
  obtain ⟨s', last, before⟩ := x'
  obtain rfl : before = x.before := hbefore
  simp only [Steady]
  cases callbackStep_cases hstep with
  | storePort hpc | storeValid hpc =>
      rw [hpc]
      refine iff_of_true (follows_of_sends (fun _ => ⟨rfl, fun hidle => ?_⟩) hsends) trivial
      cases hidle
  | badSize hpc hsize =>
      rw [hpc] at hs ⊢
      exact reject_follows_iff hsize hs rfl rfl rfl hsends
  | goodSize hpc hsize =>
      rw [hpc]
      refine iff_of_true (follows_of_sends (fun _ => ⟨rfl, fun hidle => ?_⟩) hsends) ?_
      · cases hidle
      · exact fun hbad => absurd hsize hbad
  | @queued j q hpc hq =>
      rw [hpc]
      apply iff_of_true
      · refine ⟨fun _ => .inl ⟨j, hq⟩, fun _ _ hsame => ?_, ?_⟩
        · exact absurd (hq.trans (congrArg some hsame)) not_enqueued
        · rw [hsends, List.drop_length]
          exact fun _ hy => by cases hy
      · intro hfull
        have hroom := (Fifo.push_eq_some_iff.mp hq).1
        omega
  | full hpc hq =>
      rw [hpc] at hs ⊢
      exact reject_follows_iff (Fifo.push_eq_none_iff.mp hq) hs rfl rfl rfl hsends

/-- A call of `udp_sendto` follows the rule exactly if what was read came from the last client. -/
theorem sendto_follows_iff {allocates : Bool} {err : ℤ} {y : Sent ο}
    (haddr : sourceField Endpoint.addr x.device.arrived y.addrFrom = some y.destination.addr)
    (hport : sourceField Endpoint.port x.device.arrived y.portFrom = some y.destination.port)
    (hsends : x'.device.sends = x.device.sends ++ [y]) :
    Follows x (.sender allocates err) x' ↔ x.ReadFromLast y.addrFrom y.portFrom := by
  unfold Exchange.ReadFromLast
  rw [haddr, hport]
  constructor
  · intro h
    have hy : y ∈ x'.device.sends.drop x.device.sends.length := by
      rw [hsends, List.drop_left]
      exact List.mem_singleton_self y
    obtain ⟨j, hj, hdest⟩ := h.sends y hy
    exact ⟨j, hj, by rw [hdest], by rw [hdest]⟩
  · rintro ⟨j, hj, hsame₁, hsame₂⟩
    have hnot : ¬ (Event.sender allocates err : Event ο).OfCallback := by
      rintro (h | ⟨d, h⟩) <;> cases h
    refine ⟨fun he => absurd he hnot, fun he => absurd he hnot, ?_⟩
    rw [hsends, List.drop_left]
    intro y' hy'
    obtain rfl := List.mem_singleton.mp hy'
    refine ⟨j, hj, ?_⟩
    have hdest : y'.destination = ⟨y'.destination.addr, y'.destination.port⟩ := rfl
    rw [hdest, Option.some.inj hsame₁, Option.some.inj hsame₂]

theorem sender_follows_iff {allocates : Bool} {err : ℤ}
    (h : exchangeStep x (.sender allocates err) = some x')
    (hs : x.device.sender.Read x.device.arrived x.device.handed) :
    Follows x (.sender allocates err) x' ↔ Steady x (.sender allocates err) := by
  obtain ⟨hstep, _, _⟩ := exchangeStep_cases h
  have hnot : ¬ (Event.sender allocates err : Event ο).OfCallback := by
    rintro (h | ⟨d, h⟩) <;> cases h
  obtain ⟨s', last, before⟩ := x'
  simp only [Steady]
  cases senderStep_cases hstep with
  | timeout hp | receive hp | notReady hp | hand hp | allocated hp | notAllocated hp
  | readAddr hp | readPort hp =>
      rw [hp]
      exact iff_of_true (follows_of_sends (fun he => absurd he hnot) rfl) trivial
  | notSent hp | sent hp =>
      rw [hp] at hs ⊢
      exact sendto_follows_iff (y := ⟨_, _, _, _, err⟩) hs.1.sourceField hs.2.sourceField rfl

/-- What holds of the device in every state of a run. -/
structure Exchange.Invariant (x : Exchange ο) : Prop where
  device : x.device.Invariant
  tracked : Tracked x.device
  storing : x.device.callback.Storing x.device

theorem Exchange.Invariant.step (hx : x.Invariant) (h : exchangeStep x e = some x') :
    x'.Invariant := by
  obtain ⟨hstep, _, _⟩ := exchangeStep_cases h
  exact ⟨hx.device.step hstep, step_tracked hstep hx.device hx.tracked,
    step_storing hstep hx.storing⟩

theorem Exchange.invariant_init (udpPcb : Bool) : (.init udpPcb : Exchange ο).Invariant where
  device := Firmware.invariant_init udpPcb
  tracked := tracked_init udpPcb
  storing := trivial

/-- A step follows the rule exactly if it is steady. -/
theorem follows_iff (hx : x.Invariant) (h : exchangeStep x e = some x') :
    Follows x e x' ↔ Steady x e := by
  cases e with
  | udpReceive d =>
      obtain ⟨hstep, _, hbefore⟩ := exchangeStep_cases h
      have hsends := (udpReceive_sendFrame hstep).sends
      obtain ⟨s', last, before⟩ := x'
      refine iff_of_true (follows_of_sends (fun _ => ?_) hsends) trivial
      cases udpReceive_cases hstep with
      | null => exact ⟨rfl, fun _ => hbefore.symm⟩
      | datagram => exact ⟨rfl, fun hidle => by cases hidle⟩
  | callback => exact callback_follows_iff h hx.storing
  | sender allocates err => exact sender_follows_iff h hx.tracked.sender
  | dispatcher =>
      have hsends := (dispatcherStep_sendFrame (exchangeStep_cases h).1).sends
      refine iff_of_true (follows_of_sends ?_ hsends) trivial
      rintro (he | ⟨d, he⟩) <;> cases he
  | task p passed =>
      have hsends := (taskStep_sendFrame (exchangeStep_cases h).1).sends
      refine iff_of_true (follows_of_sends ?_ hsends) trivial
      rintro (he | ⟨d, he⟩) <;> cases he

theorem steady_of_obeys (hx : x.Invariant) (ho : Obeys x e)
    (h : exchangeStep x e = some x') : Steady x e :=
  (follows_iff hx h).mp (ho x' h)

theorem obeys_of_steady (hx : x.Invariant) (hu : Steady x e) : Obeys x e := by
  intro x' h
  exact (follows_iff hx h).mpr hu

/-! ### Runs -/

theorem meets_steady {udpPcb : Bool} (h : Run exchangeStep (.init udpPcb) es x)
    (hm : Meets exchangeStep Obeys (.init udpPcb) es) :
    Meets exchangeStep Steady (.init udpPcb) es :=
  h.meets (fun _ _ _ hx _ hs => hx.step hs) (fun _ _ _ hx ho hs => steady_of_obeys hx ho hs)
    hm (Exchange.invariant_init udpPcb)

/-- **When rejected datagrams are harmless**: every step of a run follows the documented rule
exactly if every step is steady. -/
theorem rejected_harmless_iff {udpPcb : Bool} (h : Run exchangeStep (.init udpPcb) es x) :
    Meets exchangeStep Obeys (.init udpPcb) es ↔
      Meets exchangeStep Steady (.init udpPcb) es := by
  constructor
  · exact meets_steady h
  · intro hm
    exact h.meets (fun _ _ _ hx _ hs => hx.step hs)
      (fun _ _ _ hx hu _ => obeys_of_steady hx hu) hm (Exchange.invariant_init udpPcb)

/-- A datagram of one byte. -/
def shortDatagram (source : Endpoint) : Datagram Unit := ⟨source, [[0]], ()⟩

/-- A command from the client `⟨1, 1⟩` is accepted, a short datagram is rejected, and the command
is answered. -/
def shortSchedule (source : Endpoint) : List (Event Unit) :=
  receiveSchedule (timerDatagram 7 ⟨1, 1⟩) ++ .udpReceive (some (shortDatagram source)) ::
    List.replicate 3 .callback ++ answerSchedule

/-- The short datagram comes from the client as well. -/
theorem rejected_harmless_iff_client :
    Meets exchangeStep Obeys (.init true) (shortSchedule ⟨1, 1⟩) := by
  obtain ⟨x, hx, _⟩ := Option.map_eq_some_iff.mp (show
    (exec exchangeStep (.init true) (shortSchedule ⟨1, 1⟩)).map (fun x => x.device.sends.length) =
      some 1 by decide +kernel)
  exact (rejected_harmless_iff (.of_exec hx)).mpr (by decide +kernel)

/-- The short datagram comes from another client: the remote endpoint changes, and the response
goes there. -/
theorem rejected_redirects :
    (¬ ∀ (es : List (Event Unit)) (x : Exchange Unit), Run exchangeStep (.init true) es x →
      Meets exchangeStep Obeys (.init true) es) ∧
    ∃ x, Run exchangeStep (.init true) (shortSchedule ⟨2, 2⟩) x ∧
      x.last.map Job.source = some ⟨1, 1⟩ ∧ x.device.sends.map Sent.destination = [⟨2, 2⟩] := by
  obtain ⟨x, hx, hlast⟩ := Option.map_eq_some_iff.mp (show
    (exec exchangeStep (.init true) (shortSchedule ⟨2, 2⟩)).map
      (fun x => (x.last.map Job.source, x.device.sends.map Sent.destination)) =
        some (some ⟨1, 1⟩, [⟨2, 2⟩]) by decide +kernel)
  obtain ⟨hlast, hsends⟩ := Prod.mk.inj hlast
  refine ⟨?_, x, .of_exec hx, hlast, hsends⟩
  intro hall
  have hsteady := meets_steady (.of_exec hx) (hall _ x (.of_exec hx))
  exact absurd hsteady (by decide +kernel)

end PeripheralTester.Firmware

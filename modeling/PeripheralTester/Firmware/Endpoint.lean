import PeripheralTester.Firmware.Conservation

/-! # Where responses go

The remote endpoint is one address, one port and a valid flag for the whole firmware: the receive
callback overwrites them with the source of every datagram, and `app_net_udp_send_response` reads
them when it sends.  By design a response goes to the last command sender, not to the one whose
command it answers.

`Addressed` says what a call of `udp_sendto` uses: the address and the port of datagrams that
arrived no earlier than the response's own command.  `ReadLast` says which ones: those that were
stored last in the two states of the run in which they were read.  `sent_to_last_sender` draws the
conclusions: the response goes to the source of an accepted command if this was stored last, and
it goes home if everything since its own command came from the same endpoint. -/

namespace PeripheralTester.Firmware

open Lib

variable {ο : Type} {s s' : Device ο}

/-! ### What is stored and what is read -/

/-- The value is the field of the source of the datagram `stored`, which has the number `k` or a
later one. -/
def StoredFrom {α : Type} (field : Endpoint → α) (arrived : List (Datagram ο)) (k : ℕ)
    (stored : Option ℕ) (value : α) : Prop :=
  ∃ n d, stored = some n ∧ k ≤ n ∧ arrived[n]? = some d ∧ value = field d.source

theorem StoredFrom.mono {α : Type} {field : Endpoint → α} {arrived : List (Datagram ο)} {k : ℕ}
    {stored : Option ℕ} {value : α} (h : StoredFrom field arrived k stored value)
    (later : List (Datagram ο)) : StoredFrom field (arrived ++ later) k stored value := by
  obtain ⟨n, d, hn, hk, hd, hv⟩ := h
  have hlt := (List.getElem?_eq_some_iff.mp hd).1
  refine ⟨n, d, hn, hk, ?_, hv⟩
  rw [List.getElem?_append_left hlt]
  exact hd

/-- Stored from the newest datagram. -/
theorem storedFrom_newest {α : Type} (field : Endpoint → α) (arrived : List (Datagram ο))
    (d : Datagram ο) {k : ℕ} (hk : k ≤ arrived.length) :
    StoredFrom field (arrived ++ [d]) k (some arrived.length) (field d.source) := by
  refine ⟨arrived.length, d, rfl, hk, ?_, rfl⟩
  rw [List.getElem?_concat_length]

/-- The two variables hold what was stored from the datagram numbered `k` or a later one. -/
def Device.AddrSince (s : Device ο) (k : ℕ) : Prop :=
  StoredFrom Endpoint.addr s.arrived k s.addrFrom s.remoteAddr

def Device.PortSince (s : Device ο) (k : ℕ) : Prop :=
  StoredFrom Endpoint.port s.arrived k s.portFrom s.remotePort

/-- A call of `udp_sendto` uses an address and a port stored no earlier than the source of the
response's own command. -/
def Addressed (arrived : List (Datagram ο)) (x : Sent ο) : Prop :=
  StoredFrom Endpoint.addr arrived x.answer.job.arrival x.addrFrom x.destination.addr ∧
    StoredFrom Endpoint.port arrived x.answer.job.arrival x.portFrom x.destination.port

/-- What the callback has stored of its datagram. -/
def CallbackPc.Stored (s : Device ο) : CallbackPc ο → Prop
  | .idle => True
  | .storePort d n => n + 1 = s.arrived.length ∧ s.arrived[n]? = some d ∧ s.AddrSince n
  | .storeValid _ n | .check _ n => s.AddrSince n ∧ s.PortSince n
  | .send j => s.AddrSince j.arrival ∧ s.PortSince j.arrival

/-- What the sender has read. -/
def SenderPc.Read (arrived : List (Datagram ο)) (handed : List (Answer ο)) : SenderPc ο → Prop
  | .idle | .holding _ => True
  | .alloc a | .readAddr a => a ∈ handed
  | .readPort a addr addrFrom =>
      a ∈ handed ∧ StoredFrom Endpoint.addr arrived a.job.arrival addrFrom addr
  | .sendto a destination addrFrom portFrom =>
      StoredFrom Endpoint.addr arrived a.job.arrival addrFrom destination.addr ∧
        StoredFrom Endpoint.port arrived a.job.arrival portFrom destination.port

/-- The invariant of the endpoint. -/
structure Tracked (s : Device ο) : Prop where
  callback : s.callback.Stored s
  /-- The source of a command received was stored, and at most overwritten since. -/
  since : ∀ j ∈ s.received, s.AddrSince j.arrival ∧ s.PortSince j.arrival
  sender : s.sender.Read s.arrived s.handed
  sends : ∀ x ∈ s.sends, Addressed s.arrived x

theorem tracked_init (udpPcb : Bool) : Tracked (.init udpPcb : Device ο) where
  callback := trivial
  since := fun _ h => by cases h
  sender := trivial
  sends := fun _ h => by cases h

/-! ### Commands received and their datagrams -/

/-- A command received is one of the datagrams that arrived. -/
theorem Heard.datagram (hs : Heard s) {j : Job ο} (hj : j ∈ s.received) :
    ∃ d, s.arrived[j.arrival]? = some d ∧ d.source = j.source := by
  have hmem : j ∈ commandsOf s.arrived := by
    rw [← hs]
    exact List.mem_append_left _ hj
  obtain ⟨d, hd, hc⟩ := mem_commandsOf hmem
  refine ⟨d, hd, ?_⟩
  unfold commandOf at hc
  split at hc
  · rw [← Option.some.inj hc]
  · cases hc

theorem Heard.arrival_lt (hs : Heard s) {j : Job ο} (hj : j ∈ s.received) :
    j.arrival < s.arrived.length := by
  obtain ⟨d, hd, _⟩ := hs.datagram hj
  exact (List.getElem?_eq_some_iff.mp hd).1

/-! ### Steps of the callback -/

/-- What the sender has read stays read when another datagram arrives. -/
theorem SenderPc.Read.mono {arrived : List (Datagram ο)} {handed : List (Answer ο)}
    {pc : SenderPc ο} (h : pc.Read arrived handed) (later : List (Datagram ο)) :
    pc.Read (arrived ++ later) handed := by
  cases pc with
  | idle => trivial
  | holding a => trivial
  | alloc a => exact h
  | readAddr a => exact h
  | readPort a addr addrFrom => exact ⟨h.1, h.2.mono later⟩
  | sendto a destination addrFrom portFrom =>
      exact ⟨h.1.mono later, h.2.mono later⟩

theorem udpReceive_tracked {d : Option (Datagram ο)} (h : udpReceive s d = some s')
    (hh : Heard s) (hs : Tracked s) : Tracked s' := by
  cases udpReceive_cases h with
  | null => exact hs
  | @datagram d =>
      constructor
      · have hnewest : (s.arrived ++ [d]).length = s.arrived.length + 1 := List.length_append
        exact ⟨hnewest.symm, List.getElem?_concat_length, storedFrom_newest _ _ _ le_rfl⟩
      · intro j hj
        have hlt := hh.arrival_lt hj
        exact ⟨storedFrom_newest _ _ _ hlt.le, (hs.since j hj).2.mono [d]⟩
      · exact hs.sender.mono [d]
      · intro x hx
        have hold := hs.sends x hx
        exact ⟨hold.1.mono [d], hold.2.mono [d]⟩

theorem callbackStep_tracked (h : callbackStep s = some s') (hh : Heard s) (hs : Tracked s) :
    Tracked s' := by
  have hcallback := hs.callback
  cases callbackStep_cases h with
  | @storePort d n hpc =>
      rw [hpc] at hcallback
      obtain ⟨hnewest, hd, haddr⟩ := hcallback
      have hport : ∀ k, k ≤ n → StoredFrom Endpoint.port s.arrived k (some n) d.source.port :=
        fun k hk => ⟨n, d, rfl, hk, hd, rfl⟩
      refine ⟨⟨haddr, hport n le_rfl⟩, ?_, hs.sender, hs.sends⟩
      intro j hj
      -- nothing arrived after the datagram whose port is stored now
      have hlt := hh.arrival_lt hj
      have hle : j.arrival ≤ n := by omega
      exact ⟨(hs.since j hj).1, hport _ hle⟩
  | storeValid hpc | goodSize hpc =>
      rw [hpc] at hcallback
      exact ⟨hcallback, hs.since, hs.sender, hs.sends⟩
  | badSize => exact ⟨trivial, hs.since, hs.sender, hs.sends⟩
  | queued hpc | full hpc =>
      rw [hpc] at hcallback
      refine ⟨trivial, ?_, hs.sender, hs.sends⟩
      intro j' hj'
      rcases List.mem_append.mp hj' with hj' | hj'
      · exact hs.since j' hj'
      · rw [List.mem_singleton.mp hj']
        exact hcallback

/-! ### Steps of the tasks -/

/-- The parts of the invariant that only the callback can change. -/
theorem TaskFrame.callback_tracked (hf : TaskFrame s s') (hs : Tracked s) :
    s'.callback.Stored s' ∧ ∀ j ∈ s'.received, s'.AddrSince j.arrival ∧ s'.PortSince j.arrival := by
  have haddr : s'.AddrSince = s.AddrSince := by
    funext k
    rw [Device.AddrSince, hf.arrived, hf.addrFrom, hf.remoteAddr, Device.AddrSince]
  have hport : s'.PortSince = s.PortSince := by
    funext k
    rw [Device.PortSince, hf.arrived, hf.portFrom, hf.remotePort, Device.PortSince]
  have hstored : ∀ pc : CallbackPc ο, pc.Stored s' = pc.Stored s := by
    intro pc
    cases pc <;> simp only [CallbackPc.Stored, haddr, hport, hf.arrived]
  rw [hf.callback, hf.received, haddr, hport, hstored]
  exact ⟨hs.callback, hs.since⟩

theorem Tracked.of_frames (hs : Tracked s) (hf : TaskFrame s s') (hf' : SendFrame s s') :
    Tracked s' := by
  obtain ⟨hcallback, hsince⟩ := hf.callback_tracked hs
  refine ⟨hcallback, hsince, ?_, ?_⟩
  · rw [hf'.sender, hf.arrived, hf'.handed]
    exact hs.sender
  · rw [hf'.sends, hf.arrived]
    exact hs.sends

theorem senderStep_tracked {allocates : Bool} {err : ℤ} (h : senderStep s allocates err = some s')
    (hi : s.Invariant) (hs : Tracked s) : Tracked s' := by
  obtain ⟨hcallback, hsince⟩ := (senderStep_frame h).callback_tracked hs
  -- the command of a response handed over was received, so its source was stored
  have hread : ∀ a ∈ s.handed, s.AddrSince a.job.arrival ∧ s.PortSince a.job.arrival :=
    fun a ha => hs.since _ (hi.job_mem (List.mem_append_right _ ha))
  have hsender := hs.sender
  cases senderStep_cases h with
  | timeout => exact ⟨hcallback, hsince, hs.sender, hs.sends⟩
  | receive | notReady | notAllocated => exact ⟨hcallback, hsince, trivial, hs.sends⟩
  | @hand a =>
      exact ⟨hcallback, hsince, List.mem_append_right _ (List.mem_singleton_self a), hs.sends⟩
  | allocated hp =>
      rw [hp] at hsender
      exact ⟨hcallback, hsince, hsender, hs.sends⟩
  | @readAddr a hp =>
      rw [hp] at hsender
      exact ⟨hcallback, hsince, ⟨hsender, (hread a hsender).1⟩, hs.sends⟩
  | @readPort a _ _ hp =>
      rw [hp] at hsender
      exact ⟨hcallback, hsince, ⟨hsender.2, (hread a hsender.1).2⟩, hs.sends⟩
  | notSent hp | sent hp =>
      rw [hp] at hsender
      refine ⟨hcallback, hsince, trivial, ?_⟩
      intro x hx
      rcases List.mem_append.mp hx with hx | hx
      · exact hs.sends x hx
      · rw [List.mem_singleton.mp hx]
        exact hsender

theorem step_tracked {e : Event ο} (h : step s e = some s') (hi : s.Invariant) (hs : Tracked s) :
    Tracked s' := by
  cases e with
  | udpReceive d => exact udpReceive_tracked h hi.heard hs
  | callback => exact callbackStep_tracked h hi.heard hs
  | dispatcher => exact hs.of_frames (dispatcherStep_frame h) (dispatcherStep_sendFrame h)
  | task p passed => exact hs.of_frames (taskStep_frame h) (taskStep_sendFrame h)
  | sender allocates err => exact senderStep_tracked h hi hs

/-! ### What was stored last -/

/-- Of the first `k` datagrams, the last has stored the field of its source. -/
def LastStored {α : Type} (field : Endpoint → α) (arrived : List (Datagram ο)) :
    ℕ → Option ℕ → α → Prop
  | 0, stored, _ => stored = none
  | n + 1, stored, value => stored = some n ∧ ∃ d, arrived[n]? = some d ∧ value = field d.source

theorem LastStored.mono {α : Type} {field : Endpoint → α} {arrived : List (Datagram ο)} {k : ℕ}
    {stored : Option ℕ} {value : α} (h : LastStored field arrived k stored value)
    (later : List (Datagram ο)) : LastStored field (arrived ++ later) k stored value := by
  cases k with
  | zero => exact h
  | succ n =>
      obtain ⟨hn, d, hd, hv⟩ := h
      have hlt := (List.getElem?_eq_some_iff.mp hd).1
      refine ⟨hn, d, ?_, hv⟩
      rw [List.getElem?_append_left hlt]
      exact hd

/-- How many datagrams have stored their port: the callback stores it after the address. -/
def Device.portsStored (s : Device ο) : ℕ :=
  match s.callback with
  | .storePort _ n => n
  | _ => s.arrived.length

/-- The two variables hold what was stored last. -/
structure Device.Newest (s : Device ο) : Prop where
  addr : LastStored Endpoint.addr s.arrived s.arrived.length s.addrFrom s.remoteAddr
  port : LastStored Endpoint.port s.arrived s.portsStored s.portFrom s.remotePort

theorem udpReceive_newest {d : Option (Datagram ο)} (h : udpReceive s d = some s')
    (hs : s.Newest) : s'.Newest := by
  cases udpReceive_cases h with
  | null => exact hs
  | @datagram d hpc =>
      have hstored : s.portsStored = s.arrived.length := by
        unfold Device.portsStored
        rw [hpc]
      constructor
      · have hnewest : (s.arrived ++ [d]).length = s.arrived.length + 1 := List.length_append
        rw [hnewest]
        exact ⟨rfl, d, List.getElem?_concat_length, rfl⟩
      · have hport := hs.port
        rw [hstored] at hport
        exact hport.mono [d]

theorem callbackStep_newest (h : callbackStep s = some s') (ht : s.callback.Stored s)
    (hs : s.Newest) : s'.Newest := by
  have hport := hs.port
  unfold Device.portsStored at hport
  cases callbackStep_cases h with
  | @storePort d n hpc =>
      rw [hpc] at ht
      obtain ⟨hnewest, hd, _⟩ := ht
      refine ⟨hs.addr, ?_⟩
      have hlast : LastStored Endpoint.port s.arrived (n + 1) (some n) d.source.port :=
        ⟨rfl, d, hd, rfl⟩
      rw [hnewest] at hlast
      exact hlast
  | storeValid hpc | goodSize hpc | badSize hpc | queued hpc | full hpc =>
      rw [hpc] at hport
      exact ⟨hs.addr, hport⟩

theorem TaskFrame.newest (hf : TaskFrame s s') (hs : s.Newest) : s'.Newest := by
  constructor
  · rw [hf.arrived, hf.addrFrom, hf.remoteAddr]
    exact hs.addr
  · unfold Device.portsStored
    rw [hf.callback, hf.arrived, hf.portFrom, hf.remotePort]
    exact hs.port

theorem step_newest {e : Event ο} (h : step s e = some s') (ht : s.callback.Stored s)
    (hs : s.Newest) : s'.Newest := by
  cases e with
  | udpReceive d => exact udpReceive_newest h hs
  | callback => exact callbackStep_newest h ht hs
  | dispatcher => exact (dispatcherStep_frame h).newest hs
  | task p passed => exact (taskStep_frame h).newest hs
  | sender allocates err => exact (senderStep_frame h).newest hs

/-- The sender read the address for a response in the state `r` of a run to `s`: it is the one
stored last in `r`. -/
structure ReadsAddr (r s : Device ο) (a : Answer ο) (addr : UInt32) (addrFrom : Option ℕ) :
    Prop where
  before : r.sender = .readAddr a
  last : LastStored Endpoint.addr r.arrived r.arrived.length addrFrom addr
  after : ∃ e r', step r e = some r' ∧ r'.sender = .readPort a addr addrFrom ∧ Reachable step r' s

/-- The sender read the port in the state `r` of a run to `s`: it is the one stored last in `r`. -/
structure ReadsPort (r s : Device ο) (a : Answer ο) (destination : Endpoint)
    (addrFrom portFrom : Option ℕ) : Prop where
  before : r.sender = .readPort a destination.addr addrFrom
  last : LastStored Endpoint.port r.arrived r.portsStored portFrom destination.port
  after : ∃ e r', step r e = some r' ∧ r'.sender = .sendto a destination addrFrom portFrom ∧
    Reachable step r' s

theorem ReadsAddr.next {r : Device ο} {a : Answer ο} {addr : UInt32} {addrFrom : Option ℕ}
    (h : ReadsAddr r s a addr addrFrom) {e : Event ο} (hs : step s e = some s') :
    ReadsAddr r s' a addr addrFrom := by
  obtain ⟨e', r', hr, hpc, hrun⟩ := h.after
  exact ⟨h.before, h.last, e', r', hr, hpc, hrun.next hs⟩

theorem ReadsPort.next {r : Device ο} {a : Answer ο} {destination : Endpoint}
    {addrFrom portFrom : Option ℕ} (h : ReadsPort r s a destination addrFrom portFrom)
    {e : Event ο} (hs : step s e = some s') : ReadsPort r s' a destination addrFrom portFrom := by
  obtain ⟨e', r', hr, hpc, hrun⟩ := h.after
  exact ⟨h.before, h.last, e', r', hr, hpc, hrun.next hs⟩

/-- The run from `start` to `s` has a state in which the address was read and a later one in which
the port was read, each as it was stored last there. -/
def ReadLast (start s : Device ο) (a : Answer ο) (destination : Endpoint)
    (addrFrom portFrom : Option ℕ) : Prop :=
  ∃ r₁ r₂, Reachable step start r₁ ∧ ReadsAddr r₁ r₂ a destination.addr addrFrom ∧
    ReadsPort r₂ s a destination addrFrom portFrom

theorem ReadLast.next {start : Device ο} {a : Answer ο} {destination : Endpoint}
    {addrFrom portFrom : Option ℕ} (h : ReadLast start s a destination addrFrom portFrom)
    {e : Event ο} (hs : step s e = some s') :
    ReadLast start s' a destination addrFrom portFrom := by
  obtain ⟨r₁, r₂, hr₁, haddr, hport⟩ := h
  exact ⟨r₁, r₂, hr₁, haddr, hport.next hs⟩

/-- How the sender has come by what it has read. -/
def SenderPc.Latest (start s : Device ο) : SenderPc ο → Prop
  | .idle | .holding _ | .alloc _ | .readAddr _ => True
  | .readPort a addr addrFrom =>
      ∃ r, Reachable step start r ∧ ReadsAddr r s a addr addrFrom
  | .sendto a destination addrFrom portFrom => ReadLast start s a destination addrFrom portFrom

theorem SenderPc.Latest.next {start : Device ο} {pc : SenderPc ο} (h : pc.Latest start s)
    {e : Event ο} (hs : step s e = some s') : pc.Latest start s' := by
  cases pc with
  | idle | holding | alloc | readAddr => trivial
  | readPort a addr addrFrom =>
      obtain ⟨r, hr, hread⟩ := h
      exact ⟨r, hr, hread.next hs⟩
  | sendto a destination addrFrom portFrom => exact ReadLast.next h hs

/-- The sender's part of the invariant, over the run from `start`. -/
structure Followed (start s : Device ο) : Prop where
  newest : s.Newest
  sender : s.sender.Latest start s
  sends : ∀ x ∈ s.sends, ReadLast start s x.answer x.destination x.addrFrom x.portFrom

theorem Followed.of_sendFrame {start : Device ο} (hs : Followed start s) {e : Event ο}
    (h : step s e = some s') (hn : s'.Newest) (hf : SendFrame s s') : Followed start s' := by
  refine ⟨hn, ?_, ?_⟩
  · rw [hf.sender]
    exact hs.sender.next h
  · rw [hf.sends]
    exact fun x hx => (hs.sends x hx).next h

theorem senderStep_followed {start : Device ο} {allocates : Bool} {err : ℤ}
    (hr : Reachable step start s) (h : senderStep s allocates err = some s') (hn : s'.Newest)
    (hs : Followed start s) : Followed start s' := by
  have hstep : step s (.sender allocates err) = some s' := h
  have hsender := hs.sender
  have hsends : ∀ x ∈ s.sends, ReadLast start s' x.answer x.destination x.addrFrom x.portFrom :=
    fun x hx => (hs.sends x hx).next hstep
  cases senderStep_cases h with
  | timeout => exact ⟨hn, hsender.next hstep, hsends⟩
  | receive | notReady | hand | allocated | notAllocated => exact ⟨hn, trivial, hsends⟩
  | @readAddr a hp =>
      exact ⟨hn, ⟨s, hr, hp, hs.newest.addr, _, _, hstep, rfl, .refl _⟩, hsends⟩
  | @readPort a addr addrFrom hp =>
      rw [hp] at hsender
      obtain ⟨r, hr₁, hread⟩ := hsender
      exact ⟨hn, ⟨r, s, hr₁, hread, hp, hs.newest.port, _, _, hstep, rfl, .refl _⟩, hsends⟩
  | notSent hp | sent hp =>
      rw [hp] at hsender
      refine ⟨hn, trivial, ?_⟩
      intro x hx
      rcases List.mem_append.mp hx with hx | hx
      · exact hsends x hx
      · rw [List.mem_singleton.mp hx]
        exact ReadLast.next hsender hstep

theorem step_followed {start : Device ο} {e : Event ο} (hr : Reachable step start s)
    (h : step s e = some s') (ht : s.callback.Stored s) (hs : Followed start s) :
    Followed start s' := by
  have hn := step_newest h ht hs.newest
  cases e with
  | udpReceive d => exact hs.of_sendFrame h hn (udpReceive_sendFrame h)
  | callback => exact hs.of_sendFrame h hn (callbackStep_sendFrame h)
  | dispatcher => exact hs.of_sendFrame h hn (dispatcherStep_sendFrame h)
  | task p passed => exact hs.of_sendFrame h hn (taskStep_sendFrame h)
  | sender allocates err => exact senderStep_followed hr h hn hs

/-! ### Runs -/

theorem tracked_of_reachable {udpPcb : Bool} (h : Reachable step (.init udpPcb) s) : Tracked s := by
  apply And.right (a := s.Invariant)
  apply h.preserves (I := fun s => s.Invariant ∧ Tracked s)
  · intro s e s' hs hstep
    exact ⟨hs.1.step hstep, step_tracked hstep hs.1 hs.2⟩
  · exact ⟨invariant_init udpPcb, tracked_init udpPcb⟩

theorem followed_init (udpPcb : Bool) :
    Followed (.init udpPcb) (.init udpPcb : Device ο) where
  newest := ⟨rfl, rfl⟩
  sender := trivial
  sends := fun _ h => by cases h

theorem followed_of_reachable {udpPcb : Bool} (h : Reachable step (.init udpPcb) s) :
    Followed (.init udpPcb) s := by
  apply And.right (a := Reachable step (.init udpPcb) s)
  apply h.preserves (I := fun s => Reachable step (.init udpPcb) s ∧ Followed (.init udpPcb) s)
  · intro s e s' hs hstep
    have hstored := (tracked_of_reachable hs.1).callback
    exact ⟨hs.1.next hstep, step_followed hs.1 hstep hstored hs.2⟩
  · exact ⟨.refl _, followed_init udpPcb⟩

/-- A response whose address and port were stored from the datagram of a command received goes to
the source of that command. -/
theorem Addressed.of_stored {x : Sent ο} (hx : Addressed s.arrived x) (hh : Heard s) {j : Job ο}
    (hj : j ∈ s.received) (haddr : x.addrFrom = some j.arrival)
    (hport : x.portFrom = some j.arrival) : x.destination = j.source := by
  obtain ⟨d, hd, hsource⟩ := hh.datagram hj
  obtain ⟨⟨n, d₁, hn, _, hd₁, hv₁⟩, ⟨m, d₂, hm, _, hd₂, hv₂⟩⟩ := hx
  obtain rfl := Option.some.inj (haddr.symm.trans hn)
  obtain rfl := Option.some.inj (hport.symm.trans hm)
  obtain rfl := Option.some.inj (hd.symm.trans hd₁)
  obtain rfl := Option.some.inj (hd.symm.trans hd₂)
  rw [← hsource]
  have hdest : x.destination = ⟨x.destination.addr, x.destination.port⟩ := rfl
  rw [hdest, hv₁, hv₂]

/-- A response goes home if all that arrived since its command came from the same endpoint. -/
theorem Addressed.home {arrived : List (Datagram ο)} {x : Sent ο} (hx : Addressed arrived x)
    (hsame : ∀ n d, x.answer.job.arrival ≤ n → arrived[n]? = some d →
      (∃ m, (x.addrFrom = some m ∨ x.portFrom = some m) ∧ n ≤ m) → d.source = x.answer.job.source) :
    x.destination = x.answer.job.source := by
  obtain ⟨⟨n, d₁, hn, hkn, hd₁, hv₁⟩, ⟨m, d₂, hm, hkm, hd₂, hv₂⟩⟩ := hx
  have haddr := hsame n d₁ hkn hd₁ ⟨n, .inl hn, le_rfl⟩
  have hport := hsame m d₂ hkm hd₂ ⟨m, .inr hm, le_rfl⟩
  have hdest : x.destination = ⟨x.destination.addr, x.destination.port⟩ := rfl
  rw [hdest, hv₁, hv₂, haddr, hport]

/-- **Responses go to the last command sender**: in every state of every run each call of
`udp_sendto` was made with the address and the port that were stored last when the sender read
them, from datagrams that arrived no earlier than the one of the response's own command.  So the
response goes to the source of an accepted command if address and port were stored from its
datagram, and it goes home if no datagram from another endpoint arrived between its own command
and the ones they were stored from. -/
theorem sent_to_last_sender {udpPcb : Bool} (h : Reachable step (.init udpPcb) s) :
    ∀ x ∈ s.sends,
      ReadLast (.init udpPcb) s x.answer x.destination x.addrFrom x.portFrom ∧
      Addressed s.arrived x ∧
      (∀ j ∈ s.received, x.addrFrom = some j.arrival → x.portFrom = some j.arrival →
        x.destination = j.source) ∧
      ((∀ n d, x.answer.job.arrival ≤ n → s.arrived[n]? = some d →
        (∃ m, (x.addrFrom = some m ∨ x.portFrom = some m) ∧ n ≤ m) →
          d.source = x.answer.job.source) → x.destination = x.answer.job.source) := by
  intro x hx
  have haddressed := (tracked_of_reachable h).sends x hx
  refine ⟨(followed_of_reachable h).sends x hx, haddressed, ?_, haddressed.home⟩
  intro j hj haddr hport
  exact haddressed.of_stored (invariant_of_reachable h).heard hj haddr hport

/-- The command of the client `⟨1, 1⟩` is answered after a datagram of the client `⟨2, 2⟩`. -/
def lateSchedule : List (Event Unit) :=
  receiveSchedule (timerDatagram 7 ⟨1, 1⟩) ++ receiveSchedule (timerDatagram 8 ⟨2, 2⟩) ++
    answerSchedule

theorem sent_to_last_sender_late :
    ∃ s : Device Unit, Reachable step (.init true) s ∧ s.sends.length = 1 ∧
      ∀ x ∈ s.sends, ReadLast (.init true) s x.answer x.destination x.addrFrom x.portFrom := by
  obtain ⟨s, hs, hlen⟩ := Option.map_eq_some_iff.mp (show
    (exec step (.init true) lateSchedule).map (fun s => s.sends.length) = some 1 by decide +kernel)
  have hreach : Reachable step (.init true) s := ⟨_, .of_exec hs⟩
  exact ⟨s, hreach, hlen, fun x hx => (sent_to_last_sender hreach x hx).1⟩

/-- It goes to the second client. -/
theorem response_goes_astray :
    ¬ ∀ s : Device Unit, Reachable step (.init true) s →
      ∀ x ∈ s.sends, x.destination = x.answer.job.source := by
  intro hall
  obtain ⟨s, hs, hsends⟩ := Option.map_eq_some_iff.mp (show
    (exec step (.init true) lateSchedule).map
      (fun s => s.sends.map fun x => (x.destination, x.answer.job.source)) =
        some [(⟨2, 2⟩, ⟨1, 1⟩)] by decide +kernel)
  obtain ⟨x, hx, hpair⟩ := List.mem_map.mp
    (hsends ▸ List.mem_singleton_self ((⟨2, 2⟩, ⟨1, 1⟩) : Endpoint × Endpoint))
  have hhome := hall s ⟨_, .of_exec hs⟩ x hx
  obtain ⟨hdest, hsource⟩ := Prod.mk.inj hpair
  rw [hdest, hsource] at hhome
  exact absurd hhome (by decide)

end PeripheralTester.Firmware

import PeripheralTester.Firmware.Endpoint

/-! # Torn endpoints

The receive callback stores the address and the port of a datagram's source one after the other,
and `app_net_udp_send_response` reads them one after the other, without a lock around either.  A
port that is stored between the two reads, or an address that is read between the two stores, can
give `udp_sendto` the address of one datagram with the port of another.

`Unmixed` excludes the two on the moves of a run, as far as they can mix anything: only where the
ports differ, and not where the address is the same.  **`endpoint_untorn`**: in every interleaving
of such moves each endpoint passed to `udp_sendto` is the source of one datagram received. -/

namespace PeripheralTester.Firmware

open Lib

variable {ο : Type} {s s' : Device ο}

/-! ### The property and its condition -/

/-- The endpoint is the source of one of the datagrams. -/
def SourceOf (arrived : List (Datagram ο)) (e : Endpoint) : Prop := ∃ d ∈ arrived, d.source = e

/-- Every endpoint passed to `udp_sendto` is the source of one datagram received. -/
def Untorn (s : Device ο) : Prop := ∀ x ∈ s.sends, SourceOf s.arrived x.destination

/-- The callback does not store another port between the two reads of the sender, for a source
with another address. -/
def UnmixedStore (remotePort : UInt16) : CallbackPc ο → SenderPc ο → Prop
  | .storePort d _, .readPort _ addr _ => d.source.port = remotePort ∨ d.source.addr = addr
  | _, _ => True

/-- The sender does not read the port between the two stores of the datagram whose address it has
read, if they change the port. -/
def UnmixedRead (remotePort : UInt16) : CallbackPc ο → SenderPc ο → Prop
  | .storePort d n, .readPort _ _ addrFrom => addrFrom = some n → d.source.port = remotePort
  | _, _ => True

/-- The move mixes nothing. -/
def Unmixed (s : Device ο) : Event ο → Prop
  | .callback => UnmixedStore s.remotePort s.callback s.sender
  | .sender _ _ => UnmixedRead s.remotePort s.callback s.sender
  | _ => True

instance (port : UInt16) (c : CallbackPc ο) (p : SenderPc ο) : Decidable (UnmixedStore port c p) :=
  match c, p with
  | .storePort d _, .readPort _ addr _ =>
      inferInstanceAs (Decidable (d.source.port = port ∨ d.source.addr = addr))
  | .storePort _ _, .idle | .storePort _ _, .holding _ | .storePort _ _, .alloc _
  | .storePort _ _, .readAddr _ | .storePort _ _, .sendto _ _ _ _ => .isTrue trivial
  | .idle, _ | .storeValid _ _, _ | .check _ _, _ | .send _, _ => .isTrue trivial

instance (port : UInt16) (c : CallbackPc ο) (p : SenderPc ο) : Decidable (UnmixedRead port c p) :=
  match c, p with
  | .storePort d n, .readPort _ _ addrFrom =>
      inferInstanceAs (Decidable (addrFrom = some n → d.source.port = port))
  | .storePort _ _, .idle | .storePort _ _, .holding _ | .storePort _ _, .alloc _
  | .storePort _ _, .readAddr _ | .storePort _ _, .sendto _ _ _ _ => .isTrue trivial
  | .idle, _ | .storeValid _ _, _ | .check _ _, _ | .send _, _ => .isTrue trivial

instance (s : Device ο) (e : Event ο) : Decidable (Unmixed s e) :=
  match e with
  | .callback => inferInstanceAs (Decidable (UnmixedStore s.remotePort s.callback s.sender))
  | .sender _ _ => inferInstanceAs (Decidable (UnmixedRead s.remotePort s.callback s.sender))
  | .udpReceive _ | .dispatcher | .task _ _ => .isTrue trivial

/-! ### The invariant -/

/-- The address and the port stored now are the source of one datagram. -/
def Device.Whole (s : Device ο) : Prop := SourceOf s.arrived ⟨s.remoteAddr, s.remotePort⟩

/-- What the callback has stored of its datagram; between its datagrams the endpoint is whole once
it is valid. -/
def CallbackPc.Leaves (s : Device ο) : CallbackPc ο → Prop
  | .storePort d n => d ∈ s.arrived ∧ s.remoteAddr = d.source.addr ∧ s.addrFrom = some n
  | .storeValid _ _ => s.Whole
  | .idle | .check _ _ | .send _ => s.remoteValid = true → s.Whole

/-- What the sender has checked and read: the address goes with the port stored now, or with the
port that the callback is about to store. -/
def SenderPc.Holds (s : Device ο) : SenderPc ο → Prop
  | .idle | .holding _ => True
  | .alloc _ | .readAddr _ => s.remoteValid = true
  | .readPort _ addr addrFrom => SourceOf s.arrived ⟨addr, s.remotePort⟩ ∨
      ∃ d n, s.callback = .storePort d n ∧ addrFrom = some n ∧ addr = d.source.addr
  | .sendto _ destination _ _ => SourceOf s.arrived destination

/-- The invariant of the runs whose moves mix nothing. -/
structure Coherent (s : Device ο) : Prop where
  callback : s.callback.Leaves s
  sender : s.sender.Holds s
  untorn : Untorn s

theorem coherent_init (udpPcb : Bool) : Coherent (.init udpPcb : Device ο) where
  callback := fun hvalid => by cases hvalid
  sender := trivial
  untorn := fun _ hx => by cases hx

theorem SourceOf.append {arrived : List (Datagram ο)} {e : Endpoint} (h : SourceOf arrived e)
    (later : List (Datagram ο)) : SourceOf (arrived ++ later) e := by
  obtain ⟨d, hd, he⟩ := h
  exact ⟨d, List.mem_append_left _ hd, he⟩

/-- What the sender has stays good while the callback neither receives nor stores a port. -/
theorem SenderPc.Holds.of_same {pc : SenderPc ο} (h : pc.Holds s)
    (harrived : s'.arrived = s.arrived) (hport : s'.remotePort = s.remotePort)
    (hvalid : s.remoteValid = true → s'.remoteValid = true)
    (hcallback : s'.callback = s.callback ∨ ∀ d n, s.callback ≠ .storePort d n) : pc.Holds s' := by
  cases pc with
  | idle | holding => trivial
  | alloc | readAddr => exact hvalid h
  | readPort a addr addrFrom =>
      unfold SenderPc.Holds
      rw [harrived, hport]
      refine Or.imp_right ?_ h
      rintro ⟨d, n, hstore, hfrom⟩
      rcases hcallback with hsame | hne
      · exact ⟨d, n, hsame.trans hstore, hfrom⟩
      · exact absurd hstore (hne d n)
  | sendto =>
      unfold SenderPc.Holds
      rw [harrived]
      exact h

/-! ### Steps -/

theorem udpReceive_coherent {d : Option (Datagram ο)} (h : udpReceive s d = some s')
    (hs : Coherent s) : Coherent s' := by
  have hsender := hs.sender
  cases udpReceive_cases h with
  | null => exact hs
  | @datagram d hpc =>
      refine ⟨⟨List.mem_append_right _ (List.mem_singleton_self d), rfl, rfl⟩, ?_,
        fun x hx => (hs.untorn x hx).append [d]⟩
      -- the port is still the one before, and the address that the sender has is not touched
      show s.sender.Holds _
      cases hp : s.sender with
      | idle | holding => trivial
      | alloc | readAddr =>
          rw [hp] at hsender
          exact hsender
      | readPort a addr addrFrom =>
          rw [hp] at hsender
          rcases hsender with hnow | ⟨d', n, hstore, _⟩
          · exact .inl (hnow.append [d])
          · rw [hpc] at hstore
            cases hstore
      | sendto =>
          rw [hp] at hsender
          exact hsender.append [d]

theorem callbackStep_coherent (h : callbackStep s = some s')
    (hunmixed : UnmixedStore s.remotePort s.callback s.sender) (hs : Coherent s) :
    Coherent s' := by
  have hcallback := hs.callback
  have hsender := hs.sender
  cases callbackStep_cases h with
  | @storePort d n hpc =>
      rw [hpc] at hcallback
      obtain ⟨hd, haddr, _⟩ := hcallback
      refine ⟨⟨d, hd, by rw [haddr]⟩, ?_, hs.untorn⟩
      show s.sender.Holds _
      cases hp : s.sender with
      | idle | holding => trivial
      | alloc | readAddr | sendto =>
          rw [hp] at hsender
          exact hsender
      | readPort a addr addrFrom =>
          rw [hp] at hsender
          rw [hpc, hp] at hunmixed
          left
          rcases hsender with hnow | ⟨d', n', hstore, _, rfl⟩
          · rcases hunmixed with hport | hsame
            · simp only [hport]
              exact hnow
            · exact ⟨d, hd, by rw [← hsame]⟩
          · obtain ⟨rfl, -⟩ := CallbackPc.storePort.inj (hpc.symm.trans hstore)
            exact ⟨d, hd, rfl⟩
  | storeValid hpc =>
      rw [hpc] at hcallback
      exact ⟨fun _ => hcallback, hsender.of_same rfl rfl (fun _ => rfl) (.inr (by simp [hpc])),
        hs.untorn⟩
  | badSize hpc | goodSize hpc | queued hpc | full hpc =>
      rw [hpc] at hcallback
      exact ⟨hcallback, hsender.of_same rfl rfl id (.inr (by simp [hpc])), hs.untorn⟩

/-- The callback's part depends on what only the callback touches. -/
theorem TaskFrame.leaves (hf : TaskFrame s s') (h : s.callback.Leaves s) :
    s'.callback.Leaves s' := by
  have hwhole : s'.Whole = s.Whole := by
    rw [Device.Whole, hf.arrived, hf.remoteAddr, hf.remotePort, Device.Whole]
  rw [hf.callback]
  cases hc : s.callback <;> rw [hc] at h
  case storePort =>
    unfold CallbackPc.Leaves
    rw [hf.arrived, hf.remoteAddr, hf.addrFrom]
    exact h
  all_goals
    unfold CallbackPc.Leaves
    simp only [hf.remoteValid, hwhole]
    exact h

theorem Coherent.of_frames (hs : Coherent s) (hf : TaskFrame s s') (hf' : SendFrame s s') :
    Coherent s' where
  callback := hf.leaves hs.callback
  sender := by
    rw [hf'.sender]
    exact hs.sender.of_same hf.arrived hf.remotePort (fun h => hf.remoteValid.trans h)
      (.inl hf.callback)
  untorn := by
    intro x hx
    rw [hf'.sends] at hx
    rw [hf.arrived]
    exact hs.untorn x hx

/-- `app_net_udp_send_response` goes on with a valid endpoint only. -/
theorem senderStep_hand {allocates : Bool} {err : ℤ} {a : Answer ο}
    (h : senderStep s allocates err = some s') (hp : s.sender = .holding a) :
    s'.sender = .idle ∨ (s'.sender = .alloc a ∧ s.remoteValid = true) := by
  unfold senderStep at h
  rw [hp] at h
  simp only at h
  split at h <;> rename_i hready <;> obtain rfl := Option.some.inj h
  · exact .inl rfl
  · have hboth : s.udpPcb = true ∧ s.remoteValid = true := by simpa using hready
    exact .inr ⟨rfl, hboth.2⟩

/-- Address and port as the sender finds them before the address is read. -/
theorem CallbackPc.Leaves.read (h : s.callback.Leaves s) (hvalid : s.remoteValid = true)
    (a : Answer ο) :
    (SenderPc.readPort a s.remoteAddr s.addrFrom).Holds s := by
  cases hc : s.callback with
  | storePort d n =>
      rw [hc] at h
      exact .inr ⟨d, n, hc, h.2.2, h.2.1⟩
  | storeValid =>
      rw [hc] at h
      exact .inl h
  | idle | check | send =>
      rw [hc] at h
      exact .inl (h hvalid)

theorem senderStep_coherent {allocates : Bool} {err : ℤ} (h : senderStep s allocates err = some s')
    (hunmixed : UnmixedRead s.remotePort s.callback s.sender) (hs : Coherent s) :
    Coherent s' := by
  have hframe := senderStep_frame h
  have hleaves := hframe.leaves hs.callback
  have hsender := hs.sender
  have hhand {a : Answer ο} (hp : s.sender = .holding a) := senderStep_hand h hp
  cases senderStep_cases h with
  | timeout => exact ⟨hleaves, hsender, hs.untorn⟩
  | receive => exact ⟨hleaves, trivial, hs.untorn⟩
  | notReady | notAllocated => exact ⟨hleaves, trivial, hs.untorn⟩
  | hand hp =>
      rcases hhand hp with hidle | ⟨_, hvalid⟩
      · cases hidle
      · exact ⟨hleaves, hvalid, hs.untorn⟩
  | allocated hp =>
      rw [hp] at hsender
      exact ⟨hleaves, hsender, hs.untorn⟩
  | @readAddr a hp =>
      rw [hp] at hsender
      exact ⟨hleaves, hs.callback.read hsender a, hs.untorn⟩
  | @readPort a addr addrFrom hp =>
      rw [hp] at hsender hunmixed
      refine ⟨hleaves, ?_, hs.untorn⟩
      rcases hsender with hnow | ⟨d, n, hstore, hfrom, rfl⟩
      · exact hnow
      · -- the port that is about to be stored is the one read now
        rw [hstore] at hunmixed
        have hcallback := hs.callback
        rw [hstore] at hcallback
        exact ⟨d, hcallback.1, by rw [← hunmixed hfrom]⟩
  | notSent hp | sent hp =>
      rw [hp] at hsender
      refine ⟨hleaves, trivial, fun x hx => ?_⟩
      rcases List.mem_append.mp hx with hx | hx
      · exact hs.untorn x hx
      · rw [List.mem_singleton.mp hx]
        exact hsender

theorem step_coherent {e : Event ο} (h : step s e = some s') (hunmixed : Unmixed s e)
    (hs : Coherent s) : Coherent s' := by
  cases e with
  | udpReceive d => exact udpReceive_coherent h hs
  | callback => exact callbackStep_coherent h hunmixed hs
  | dispatcher => exact hs.of_frames (dispatcherStep_frame h) (dispatcherStep_sendFrame h)
  | task p passed => exact hs.of_frames (taskStep_frame h) (taskStep_sendFrame h)
  | sender allocates err => exact senderStep_coherent h hunmixed hs

/-! ### Runs -/

/-- **The reply endpoint is not torn by moves that mix nothing**: in every interleaving of the
callback's stores with the sender's reads in which no port of another address is stored between
the two reads, and no port read between the two stores of the address that goes with it, every
endpoint passed to `udp_sendto` is the source of one single datagram received. -/
theorem endpoint_untorn {udpPcb : Bool} {ls : List (Event ο)} (h : Run step (.init udpPcb) ls s)
    (hunmixed : Meets step Unmixed (.init udpPcb) ls) : Untorn s :=
  (h.invariant (fun _ _ _ hs hm hstep => step_coherent hstep hm hs) hunmixed
    (coherent_init udpPcb)).untorn

/-- The response goes to the second client, with its address and its port. -/
theorem endpoint_untorn_late :
    ∃ s : Device Unit, Run step (.init true) lateSchedule s ∧ s.sends.length = 1 ∧ Untorn s := by
  obtain ⟨s, hs, hlen⟩ := Option.map_eq_some_iff.mp (show
    (exec step (.init true) lateSchedule).map (fun s => s.sends.length) = some 1 by decide +kernel)
  exact ⟨s, .of_exec hs, hlen, endpoint_untorn (.of_exec hs) (by decide +kernel)⟩

/-- The sender has read the address of the first client; the callback runs through with the
datagram of the second; the sender reads the port. -/
def tearingSchedule : List (Event Unit) :=
  receiveSchedule (timerDatagram 7 ⟨1, 1⟩) ++ answerSchedule.take 9 ++
    receiveSchedule (timerDatagram 8 ⟨2, 2⟩) ++ answerSchedule.drop 9

/-- The response goes to the address of one client and the port of the other. -/
theorem endpoint_torn :
    ¬ ∀ (ls : List (Event Unit)) (s : Device Unit), Run step (.init true) ls s → Untorn s := by
  intro hclaim
  obtain ⟨s, hs, hview⟩ := Option.map_eq_some_iff.mp (show
    (exec step (.init true) tearingSchedule).map
      (fun s => (s.sends.map Sent.destination, s.arrived.map Datagram.source)) =
        some ([⟨1, 2⟩], [⟨1, 1⟩, ⟨2, 2⟩]) by decide +kernel)
  obtain ⟨hsends, harrived⟩ := Prod.mk.inj hview
  obtain ⟨x, hx, hdest⟩ := List.mem_map.mp
    (hsends ▸ List.mem_singleton_self (⟨1, 2⟩ : Endpoint))
  obtain ⟨d, hd, hsource⟩ := hclaim _ s (.of_exec hs) x hx
  have hmem : (⟨1, 2⟩ : Endpoint) ∈ s.arrived.map Datagram.source :=
    List.mem_map.mpr ⟨d, hd, hsource.trans hdest⟩
  rw [harrived] at hmem
  exact absurd hmem (by decide)

end PeripheralTester.Firmware

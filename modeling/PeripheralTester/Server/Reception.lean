import PeripheralTester.Server.Shutdown
import PeripheralTester.Server.UnderWay

/-! # The datagrams the receive thread accepts

`udp_client_rx_thread_func` gives `recvfrom` a buffer of `sizeof(response)` bytes and tests the
count it returns.  The count is that of the bytes copied, so a datagram that was cut off passes
the test too.  The device's callback tests `p->tot_len`, the length of the whole datagram.

* `Process.Accepts` is what a receiver of whole responses does with a datagram, and
  `accepts_iff` says that the thread does it with the datagrams of up to five bytes.
* `pushed_of_run` follows the records of a run back to the datagrams they were read from. -/

namespace PeripheralTester.Server

open Lib

variable {env : Startup} {s s' : Process} {bytes : List UInt8} {origin : ℕ} {now : ℤ}
  {r : Received}

/-! ### One datagram -/

/-- A datagram of the size of a response goes to `response_queue_push` as the response it
encodes, and any other is dropped. -/
def Process.Accepts (s : Process) (bytes : List UInt8) (origin : ℕ) (now : ℤ) : Prop :=
  rxStep (.datagram bytes origin now) s = some
    (if bytes.length = Response.size then
      { s with rx := .push ⟨⟨Response.decode bytes, now⟩, origin⟩ }
    else { s with rx := .test })

/-- The thread takes a datagram of at least the size of a response, and reads its first bytes. -/
theorem rxStep_datagram (hr : s.rx = .recv) :
    rxStep (.datagram bytes origin now) s = some
      (if Response.size ≤ bytes.length then
        { s with rx := .push ⟨⟨Response.decode (bytes.take Response.size), now⟩, origin⟩ }
      else { s with rx := .test }) := by
  have hcopied : (bytes.take Response.size).length = Response.size ↔
      Response.size ≤ bytes.length := by
    rw [List.length_take, min_eq_left_iff]
  simp only [rxStep, hr, hcopied]
  split_ifs <;> rfl

/-- **The server accepts exactly the response format for the datagrams that fit the buffer**: a
longer one is taken for the response in its first five bytes. -/
theorem accepts_iff (hr : s.rx = .recv) :
    s.Accepts bytes origin now ↔ bytes.length ≤ Response.size := by
  rw [Process.Accepts, rxStep_datagram hr, Option.some.injEq]
  rcases Nat.lt_trichotomy bytes.length Response.size with hlt | heq | hgt
  · rw [if_neg (Nat.not_le.mpr hlt), if_neg hlt.ne]
    exact iff_of_true rfl hlt.le
  · rw [if_pos heq.ge, if_pos heq, List.take_of_length_le heq.le]
    exact iff_of_true rfl heq.le
  · rw [if_pos hgt.le, if_neg hgt.ne']
    refine iff_of_false (fun h => ?_) (Nat.not_le.mpr hgt)
    have hpc := congrArg Process.rx h
    cases hpc

/-- The server is up and the receive thread is in `recvfrom`. -/
def listeningSchedule : List Label := List.replicate 5 (.call 0) ++ [.rx .error]

theorem accepts_iff_response :
    ∃ s, Run (step .allSucceed) (.init []) listeningSchedule s ∧
      (s.Accepts (Response.mk 7 1).encode 0 100 ↔
        (Response.mk 7 1).encode.length ≤ Response.size) := by
  obtain ⟨s, hs, hrecv⟩ : ∃ s, exec (step .allSucceed) (.init []) listeningSchedule = some s ∧
      s.rx = .recv := Option.map_eq_some_iff.mp (by decide)
  exact ⟨s, .of_exec hs, accepts_iff hrecv⟩

/-- A datagram of six bytes passes for the response in its first five. -/
theorem oversized_datagram_pushed :
    ¬ ∀ (env : Startup) (ls : List Label) (s : Process), Run (step env) (.init []) ls s →
      s.rx = .recv → ∀ (bytes : List UInt8) (origin : ℕ) (now : ℤ),
        s.Accepts bytes origin now := by
  intro hclaim
  obtain ⟨s, hs, hrecv⟩ : ∃ s, exec (step .allSucceed) (.init []) listeningSchedule = some s ∧
      s.rx = .recv := Option.map_eq_some_iff.mp (by decide)
  have haccepts := hclaim _ _ s (.of_exec hs) hrecv [7, 0, 0, 0, 1, 9] 0 100
  rw [Process.Accepts, rxStep_datagram hrecv, Option.some.injEq, if_pos (by decide),
    if_neg (by decide)] at haccepts
  have hpc := congrArg Process.rx haccepts
  cases hpc

/-! ### Runs -/

/-- The record was read from one of the datagrams received, from its first bytes. -/
def ReadFrom (ls : List Label) (r : Received) : Prop :=
  ∃ bytes, .rx (.datagram bytes r.origin r.record.receivedTime) ∈ ls ∧
    Response.size ≤ bytes.length ∧ r.record.response = Response.decode (bytes.take Response.size)

theorem ReadFrom.mono {ls₁ ls₂ : List Label} (hsub : ls₁ ⊆ ls₂) (h : ReadFrom ls₁ r) :
    ReadFrom ls₂ r := by
  obtain ⟨bytes, hmem, hread⟩ := h
  exact ⟨bytes, hsub hmem, hread⟩

/-- The record a step of the receive thread takes in hand or pushes. -/
theorem readFrom_rxStep {a : RecvAnswer} {ls : List Label} (h : rxStep a s = some s')
    (hs : ∀ r ∈ s.rx.inHand ++ s.pushed, ReadFrom ls r) :
    ∀ r ∈ s'.rx.inHand ++ s'.pushed, ReadFrom (ls ++ [.rx a]) r := by
  have hold : ∀ r ∈ s.rx.inHand ++ s.pushed, ReadFrom (ls ++ [.rx a]) r := fun r hr =>
    (hs r hr).mono (List.subset_append_left _ _)
  intro r hr
  cases rxStep_cases h with
  | test hpc =>
      refine hold r ?_
      cases hrun : s.rxThreadRunning <;> simp only [hrun] at hr <;>
        exact List.mem_append_right _ hr
  | discard | full => exact hold r (List.mem_append_right _ hr)
  | @receive bytes origin now hpc hsize =>
      rcases List.mem_append.mp hr with hr | hr
      · cases List.mem_singleton.mp hr
        refine ⟨bytes, List.mem_append_right _ (List.mem_singleton_self _), ?_, rfl⟩
        rw [List.length_take, min_eq_left_iff] at hsize
        exact hsize
      · exact hold r (List.mem_append_right _ hr)
  | push hpc =>
      refine hold r ?_
      rw [hpc]
      rcases List.mem_append.mp hr with hr | hr
      · cases hr
      · exact List.mem_append.mpr (List.mem_append.mp hr).symm

/-- Nothing but the receive thread takes a record in hand or pushes one. -/
theorem inHand_pushed_step {a : Label} (h : step env s a = some s')
    (ha : ∀ b, a ≠ .rx b) (hr : r ∈ s'.rx.inHand ++ s'.pushed) :
    r ∈ s.rx.inHand ++ s.pushed := by
  cases a with
  | main m =>
      have hpushed := (mainStep_queue h).1
      rcases mainStep_rx h with hrx | ⟨_, hrx⟩
      · rwa [hrx, hpushed] at hr
      · rw [hrx, hpushed] at hr
        exact List.mem_append_right _ hr
  | rx b => exact absurd rfl (ha b)
  | writer answer =>
      have hf := writerStep_frame h
      rwa [hf.rx, hf.pushed] at hr
  | wake =>
      simp only [step] at h
      split at h
      · obtain rfl := Option.some.inj h
        exact hr
      · cases h
  | sigint =>
      obtain rfl := Option.some.inj h
      exact hr

theorem readFrom_run {ls₀ ls : List Label} (h : Run (step env) s ls s')
    (hs : ∀ r ∈ s.rx.inHand ++ s.pushed, ReadFrom ls₀ r) :
    ∀ r ∈ s'.rx.inHand ++ s'.pushed, ReadFrom (ls₀ ++ ls) r := by
  induction h generalizing ls₀ with
  | refl =>
      rwa [List.append_nil]
  | @step s s₁ s₂ a ls hstep _ ih =>
      have hnext : ∀ r ∈ s₁.rx.inHand ++ s₁.pushed, ReadFrom (ls₀ ++ [a]) r := by
        by_cases ha : ∃ b, a = .rx b
        · obtain ⟨b, rfl⟩ := ha
          exact readFrom_rxStep hstep hs
        · intro r hr
          have hr' := inHand_pushed_step hstep (fun b hb => ha ⟨b, hb⟩) hr
          exact (hs r hr').mono (List.subset_append_left _ _)
      have hrest := ih hnext
      rwa [List.append_assoc] at hrest

/-- **Every record pushed in a run is the start of a datagram received in it.** -/
theorem pushed_of_run (rows : List Row) {ls : List Label} (h : Run (step env) (.init rows) ls s)
    (hr : r ∈ s.pushed) : ReadFrom ls r := by
  have hinit : ∀ r ∈ (Process.init rows).rx.inHand ++ (Process.init rows).pushed,
      ReadFrom [] r := fun r hr => absurd hr List.not_mem_nil
  exact readFrom_run h hinit r (List.mem_append_right _ hr)

/-- With datagrams that fit the buffer, the records pushed are whole responses. -/
theorem pushed_whole (rows : List Row) {ls : List Label} (h : Run (step env) (.init rows) ls s)
    (hfits : ∀ bytes origin now, .rx (.datagram bytes origin now) ∈ ls →
      bytes.length ≤ Response.size) (hr : r ∈ s.pushed) :
    ∃ bytes, .rx (.datagram bytes r.origin r.record.receivedTime) ∈ ls ∧
      bytes.length = Response.size ∧ r.record.response = Response.decode bytes := by
  obtain ⟨bytes, hmem, hle, hread⟩ := pushed_of_run rows h hr
  have hlen := le_antisymm (hfits bytes _ _ hmem) hle
  rw [List.take_of_length_le hlen.le] at hread
  exact ⟨bytes, hmem, hlen, hread⟩

end PeripheralTester.Server

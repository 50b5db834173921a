import Mathlib.Tactic

/-! # Networks and epochs

`Network α` is a datagram network: the packets in flight, which may be delivered in any order,
lost, and duplicated.  None of this puts a packet into it that was not sent (`mem_of_deliver`,
`mem_of_mem_fault`).

`Epochs` is what a party sees that issues tickets under keys and restarts.  It keeps a register of
the keys it waits for; a restart begins an epoch with an empty register, while tickets of earlier
epochs are still about.  `Owned` says that a live ticket whose key is in the register was issued in
this epoch, and `Owned.within` that a step keeps it if a key is entered only when no live ticket
of an earlier epoch has it. -/

namespace PeripheralTester.Lib

/-! ### Networks -/

/-- The packets in flight. -/
abbrev Network (α : Type*) := List α

/-- What a network does to a packet besides delivering it. -/
inductive Fault where
  | lose (i : ℕ)
  | duplicate (i : ℕ)
deriving DecidableEq, Repr

namespace Network

variable {α : Type*} {n n' : Network α} {a b : α} {i : ℕ}

/-- A packet is delivered. -/
def deliver (n : Network α) (i : ℕ) : Option (α × Network α) :=
  n[i]?.map fun a => (a, n.eraseIdx i)

def fault (n : Network α) : Fault → Network α
  | .lose i => n.eraseIdx i
  | .duplicate i => n ++ n[i]?.toList

theorem mem_of_deliver (h : deliver n i = some (a, n')) : a ∈ n ∧ ∀ b ∈ n', b ∈ n := by
  obtain ⟨a', ha', he⟩ := Option.map_eq_some_iff.mp h
  obtain ⟨rfl, rfl⟩ := Prod.mk.inj he
  exact ⟨List.mem_of_getElem? ha', fun b hb => List.mem_of_mem_eraseIdx hb⟩

theorem mem_of_mem_fault {f : Fault} (h : b ∈ n.fault f) : b ∈ n := by
  cases f with
  | lose i => exact List.mem_of_mem_eraseIdx h
  | duplicate i =>
      rcases List.mem_append.mp h with h | h
      · exact h
      · exact List.mem_of_getElem? (Option.mem_toList.mp h)

end Network

/-! ### Epochs -/

/-- Tickets `τ` under keys `κ`. -/
structure Epochs (τ κ : Type*) where
  epoch : ℕ
  /-- The epoch a ticket was issued in. -/
  issued : τ → Option ℕ
  /-- The tickets that are about, with their keys. -/
  live : Set (τ × κ)
  register : Set κ

namespace Epochs

variable {τ κ : Type*} {s s' : Epochs τ κ}

/-- A live ticket of the current epoch is the only kind the register matches. -/
def Owned (s : Epochs τ κ) : Prop :=
  ∀ t k, (t, k) ∈ s.live → k ∈ s.register → s.issued t = some s.epoch

/-- A step within an epoch: what becomes live was just issued, and a key is entered only when its
live tickets are of this epoch. -/
structure Within (s s' : Epochs τ κ) : Prop where
  epoch : s'.epoch = s.epoch
  issued : ∀ t e, s.issued t = some e → s'.issued t = some e
  live : ∀ t k, (t, k) ∈ s'.live → (t, k) ∈ s.live ∨ s'.issued t = some s'.epoch
  register : ∀ k ∈ s'.register, k ∈ s.register ∨
    ∀ t, (t, k) ∈ s'.live → s'.issued t = some s'.epoch

theorem Owned.within (hs : Owned s) (h : Within s s') : Owned s' := by
  intro t k ht hk
  rcases h.live t k ht with hold | hnew
  · rcases h.register k hk with hk' | hfresh
    · rw [h.epoch]
      exact h.issued t s.epoch (hs t k hold hk')
    · exact hfresh t ht
  · exact hnew

/-- An empty register matches nothing. -/
theorem owned_of_empty (h : s.register = ∅) : Owned s := by
  intro t k _ hk
  rw [h] at hk
  cases hk

end Epochs

end PeripheralTester.Lib

import Mathlib.Data.Finset.Card
import Mathlib.Tactic

/-! # Waking those who wait

Units of something come and go, and parties wait for them in a line.  A party that finds no unit
joins the line and sleeps; who adds a unit wakes the first of the line, or leaves a note for
somebody else to do it (`pending`).  A party that was woken has to come and look, but others may be
faster, so a unit is not reserved for it.

`Crowd.Fed` is what keeps units and sleepers apart: if the line is not empty, then for each unit
there is somebody awake who will look for it, or a note.  The lemmas are the things that can happen
to a crowd.  None of them needs to know why a party is awake. -/

namespace PeripheralTester.Lib

/-- The units, the line, those who are awake and will look, and the notes. -/
structure Crowd (ι : Type*) where
  units : ℕ
  waiting : List ι
  awake : Finset ι
  pending : ℕ

namespace Crowd

variable {ι : Type*} {c c' : Crowd ι}

def Fed (c : Crowd ι) : Prop := c.waiting ≠ [] → c.units ≤ c.awake.card + c.pending

/-- Units may go, the line may get shorter, and parties and notes may be added. -/
theorem Fed.mono (h : c.Fed) (hwaiting : c'.waiting ≠ [] → c.waiting ≠ [])
    (hunits : c'.units ≤ c.units) (hawake : c.awake ⊆ c'.awake)
    (hpending : c.pending ≤ c'.pending) : c'.Fed := by
  intro hne
  calc c'.units ≤ c.units := hunits
    _ ≤ c.awake.card + c.pending := h (hwaiting hne)
    _ ≤ c'.awake.card + c'.pending := Nat.add_le_add (Finset.card_le_card hawake) hpending

/-- Nobody has to be awake for nothing. -/
theorem fed_of_units (h : c.units ≤ c.pending) : c.Fed :=
  fun _ => h.trans (Nat.le_add_left _ _)

/-- A note for a unit. -/
theorem Fed.note (h : c.Fed) (hwaiting : c'.waiting = c.waiting) (hunits : c'.units = c.units + 1)
    (hawake : c.awake ⊆ c'.awake) (hpending : c'.pending = c.pending + 1) : c'.Fed := by
  intro hne
  rw [hwaiting] at hne
  have hcard := Finset.card_le_card hawake
  have hle := h hne
  omega

variable [DecidableEq ι] {t : ι}

/-- A party takes a unit and goes. -/
theorem Fed.take (h : c.Fed) (ht : t ∈ c.awake) (hwaiting : c'.waiting = c.waiting)
    (hunits : c.units = c'.units + 1) (hawake : c.awake.erase t ⊆ c'.awake)
    (hpending : c'.pending = c.pending) : c'.Fed := by
  intro hne
  rw [hwaiting] at hne
  have hcard := Finset.card_le_card hawake
  have herase := Finset.card_erase_add_one ht
  have hle := h hne
  omega

/-- A unit comes, and the first of the line is woken. -/
theorem Fed.supply (h : c.Fed) (hwaiting : c'.waiting = c.waiting.tail)
    (hunits : c'.units = c.units + 1) (hawake : c.awake ⊆ c'.awake)
    (hwoken : ∀ t ∈ c.waiting.head?, t ∈ c'.awake ∧ t ∉ c.awake)
    (hpending : c.pending ≤ c'.pending) : c'.Fed := by
  intro hne
  cases hc : c.waiting with
  | nil =>
      rw [hwaiting, hc] at hne
      exact absurd rfl hne
  | cons t w =>
      obtain ⟨hin, hnew⟩ := hwoken t (by rw [hc]; rfl)
      have hcard := Finset.card_le_card (Finset.insert_subset hin hawake)
      rw [Finset.card_insert_of_notMem hnew] at hcard
      have hle := h (by rw [hc]; exact List.cons_ne_nil t w)
      omega

/-- As many are woken as there are notes. -/
theorem Fed.flush (h : c.Fed) (hnodup : c.waiting.Nodup)
    (hwaiting : c'.waiting = c.waiting.drop c.pending) (hunits : c'.units = c.units)
    (hawake : c.awake ⊆ c'.awake)
    (hwoken : ∀ t ∈ c.waiting.take c.pending, t ∈ c'.awake ∧ t ∉ c.awake) : c'.Fed := by
  intro hne
  rw [hwaiting, ne_eq, List.drop_eq_nil_iff, not_le] at hne
  have hdisjoint : Disjoint c.awake (c.waiting.take c.pending).toFinset := by
    rw [Finset.disjoint_right]
    exact fun t ht => (hwoken t (List.mem_toFinset.mp ht)).2
  have hsubset : c.awake ∪ (c.waiting.take c.pending).toFinset ⊆ c'.awake :=
    Finset.union_subset hawake fun t ht => (hwoken t (List.mem_toFinset.mp ht)).1
  have hcard := Finset.card_le_card hsubset
  rw [Finset.card_union_of_disjoint hdisjoint,
    List.toFinset_card_of_nodup (hnodup.sublist (List.take_sublist _ _)),
    List.length_take_of_le hne.le] at hcard
  have hle := h (List.ne_nil_of_length_pos (Nat.zero_lt_of_lt hne))
  omega

end Crowd

end PeripheralTester.Lib

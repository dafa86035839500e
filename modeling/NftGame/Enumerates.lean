import Mathlib.Logic.Function.Basic
import Mathlib.Order.Interval.Set.Nat

/-!
# Swap and pop

An array and a table of positions that keep track of a set: `slot i` is its `i`-th element,
and `pos a` is where the element `a` stands. A new element goes to the end. To remove one, the
last element takes its place, and the array is cut by one. Neither looks at the other
elements, and the order is not kept.

`Enumerates slot pos n S` says that the first `n` slots list the elements of `S`, each of them
once. It is about these slots and the positions of these elements, and nothing else
(`congr`), so that several sets can share one table of positions as long as they are disjoint.
-/

universe u

/-- The slots below `n` and the elements of `S` are in bijection, `pos` being the inverse. -/
structure Enumerates {α : Type u} (slot : ℕ → α) (pos : α → ℕ) (n : ℕ) (S : Set α) : Prop where
  /-- the slots hold elements of the set -/
  slot_mem : ∀ i < n, slot i ∈ S
  /-- an element in a slot stands there -/
  pos_slot : ∀ i < n, pos (slot i) = i
  /-- every element stands in one of the slots -/
  pos_lt : ∀ a ∈ S, pos a < n
  /-- the slot where an element stands holds it -/
  slot_pos : ∀ a ∈ S, slot (pos a) = a

namespace Enumerates

variable {α : Type u} {slot slot' : ℕ → α} {pos pos' : α → ℕ} {n : ℕ} {S : Set α} {a : α}

theorem empty (slot : ℕ → α) (pos : α → ℕ) : Enumerates slot pos 0 ∅ where
  slot_mem i hi := absurd hi (Nat.not_lt_zero i)
  pos_slot i hi := absurd hi (Nat.not_lt_zero i)
  pos_lt _ ha := ha.elim
  slot_pos _ ha := ha.elim

/-- **Frame rule**: other slots and the positions of other elements do not matter. -/
theorem congr (h : Enumerates slot pos n S) (hslot : ∀ i < n, slot' i = slot i)
    (hpos : ∀ a ∈ S, pos' a = pos a) : Enumerates slot' pos' n S where
  slot_mem i hi := by
    rw [hslot i hi]
    exact h.slot_mem i hi
  pos_slot i hi := by
    rw [hslot i hi, hpos _ (h.slot_mem i hi), h.pos_slot i hi]
  pos_lt a ha := by
    rw [hpos a ha]
    exact h.pos_lt a ha
  slot_pos a ha := by
    rw [hpos a ha, hslot _ (h.pos_lt a ha), h.slot_pos a ha]

/-- Two slots do not hold the same element. -/
theorem slot_inj (h : Enumerates slot pos n S) {i j : ℕ} (hi : i < n) (hj : j < n)
    (heq : slot i = slot j) : i = j := by
  rw [← h.pos_slot i hi, heq, h.pos_slot j hj]

/-- Two elements do not stand in the same slot. -/
theorem pos_inj (h : Enumerates slot pos n S) {b : α} (ha : a ∈ S) (hb : b ∈ S)
    (heq : pos a = pos b) : a = b := by
  rw [← h.slot_pos a ha, heq, h.slot_pos b hb]

theorem bijOn (h : Enumerates slot pos n S) : Set.BijOn slot (Set.Iio n) S := by
  refine ⟨h.slot_mem, fun i hi j hj => h.slot_inj hi hj, fun a ha => ?_⟩
  exact ⟨pos a, h.pos_lt a ha, h.slot_pos a ha⟩

/-- **There are as many elements as slots.** -/
theorem ncard_eq (h : Enumerates slot pos n S) : S.ncard = n := by
  rw [← h.bijOn.image_eq, h.bijOn.injOn.ncard_image, Set.ncard_Iio_nat]

theorem finite (h : Enumerates slot pos n S) : S.Finite := by
  rw [← h.bijOn.image_eq]
  exact (Set.finite_Iio n).image slot

section Update

variable [DecidableEq α]

/-- **Push**: a new element goes to the end. -/
theorem push (h : Enumerates slot pos n S) (ha : a ∉ S) :
    Enumerates (Function.update slot n a) (Function.update pos a n) (n + 1) (insert a S) := by
  have hne : ∀ b ∈ S, b ≠ a := fun b hb hba => ha (hba ▸ hb)
  refine ⟨fun i hi => ?_, fun i hi => ?_, fun b hb => ?_, fun b hb => ?_⟩
  · rcases Nat.lt_succ_iff_lt_or_eq.mp hi with hlt | rfl
    · rw [Function.update_of_ne hlt.ne]
      exact Set.mem_insert_of_mem a (h.slot_mem i hlt)
    · rw [Function.update_self]
      exact Set.mem_insert a S
  · rcases Nat.lt_succ_iff_lt_or_eq.mp hi with hlt | rfl
    · rw [Function.update_of_ne hlt.ne, Function.update_of_ne (hne _ (h.slot_mem i hlt)),
        h.pos_slot i hlt]
    · rw [Function.update_self, Function.update_self]
  · rcases hb with rfl | hb
    · rw [Function.update_self]
      exact Nat.lt_succ_self n
    · rw [Function.update_of_ne (hne b hb)]
      exact (h.pos_lt b hb).trans (Nat.lt_succ_self n)
  · rcases hb with rfl | hb
    · rw [Function.update_self, Function.update_self]
    · rw [Function.update_of_ne (hne b hb), Function.update_of_ne (h.pos_lt b hb).ne,
        h.slot_pos b hb]

/-- **Swap and pop**: the last element takes the place of the one that is removed. -/
theorem swapPop (h : Enumerates slot pos (n + 1) S) (ha : a ∈ S) :
    Enumerates (Function.update slot (pos a) (slot n)) (Function.update pos (slot n) (pos a)) n
      (S \ {a}) := by
  have hlast : slot n ∈ S := h.slot_mem n (Nat.lt_succ_self n)
  have hposLast : pos (slot n) = n := h.pos_slot n (Nat.lt_succ_self n)
  -- the slots other than the one that is filled, and the last one
  have hslot : ∀ i < n, i ≠ pos a → slot i ∈ S \ {a} ∧ slot i ≠ slot n := by
    intro i hi hne
    have hi' : i < n + 1 := hi.trans (Nat.lt_succ_self n)
    refine ⟨⟨h.slot_mem i hi', ?_⟩, fun heq => ?_⟩
    · rintro rfl
      exact hne (h.pos_slot i hi').symm
    · exact hi.ne (h.slot_inj hi' (Nat.lt_succ_self n) heq)
  have hfilled : pos a < n → slot n ∈ S \ {a} := by
    refine fun hlt => ⟨hlast, ?_⟩
    rintro rfl
    omega
  have hpos : ∀ b ∈ S \ {a}, pos b ≠ pos a := fun b hb heq => hb.2 (h.pos_inj hb.1 ha heq)
  refine ⟨fun i hi => ?_, fun i hi => ?_, fun b hb => ?_, fun b hb => ?_⟩
  · by_cases hia : i = pos a
    · subst hia
      rw [Function.update_self]
      exact hfilled hi
    · rw [Function.update_of_ne hia]
      exact (hslot i hi hia).1
  · by_cases hia : i = pos a
    · subst hia
      rw [Function.update_self, Function.update_self]
    · rw [Function.update_of_ne hia, Function.update_of_ne (hslot i hi hia).2]
      exact h.pos_slot i (hi.trans (Nat.lt_succ_self n))
  · by_cases hbl : b = slot n
    · have := hpos b hb
      have := h.pos_lt a ha
      rw [hbl, Function.update_self]
      rw [hbl, hposLast] at *
      omega
    · rw [Function.update_of_ne hbl]
      have hlt := h.pos_lt b hb.1
      have hne : pos b ≠ n := by
        intro heq
        exact hbl (by rw [← heq, h.slot_pos b hb.1])
      omega
  · by_cases hbl : b = slot n
    · rw [hbl, Function.update_self, Function.update_self]
    · rw [Function.update_of_ne hbl, Function.update_of_ne (hpos b hb), h.slot_pos b hb.1]

end Update

end Enumerates

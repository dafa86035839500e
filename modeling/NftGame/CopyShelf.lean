import Mathlib.Data.Bool.Count
import Mathlib.Data.Set.Card
import NftGame.FirstMatch

/-!
# A shelf of copies

What a rental pool is about, for *one* item: some copies of it stand on a shelf, in a
fixed order, each one marked as out or not, and there is the set of those who hold a
copy. The marks do not say who took which copy, so the two sides are connected by
counting only.

Renting takes the first copy that is in. Returning is the delicate part: the shelf is
told that *a* copy came back, and it unmarks the first copy it has, whether that one
was out or not. So the number of copies marked out and the number of holders can drift
apart, in one direction only:

* `CopyShelf.Inv` holds from the empty shelf on, through every step: there are never more
  holders than copies out, and a first copy that is out has somebody holding one;
* `CopyShelf.Accounted`, the converse count, survives a return exactly when the first copy
  was out (`accounted_release_iff`).

A copy that is out and has no holder is lost. A return loses one exactly if it finds the
first copy in (`Inv.lost_release`), and nothing brings a lost copy back: no step but a
rental touches a mark behind the first one, so the shelf stays `Packed`.

Holders are elements of an arbitrary type.
-/

universe u

/-- Copies of one item and their holders. -/
@[ext] structure CopyShelf (α : Type u) : Type u where
  /-- the copies in order; `true` is out -/
  flags : List Bool
  /-- those who hold a copy -/
  holders : Set α

namespace CopyShelf

open FirstMatch

variable {α : Type u} {c c' : CopyShelf α} {a : α}

/-! ## Steps -/

/-- The empty shelf. -/
def empty : CopyShelf α := ⟨[], ∅⟩

/-- One more copy, at the end. -/
def store (c : CopyShelf α) : CopyShelf α := ⟨c.flags ++ [false], c.holders⟩

/-- `a` takes the first copy that is in. -/
def rent (c : CopyShelf α) (a : α) : CopyShelf α :=
  ⟨updateFirst (fun b => !b) (fun _ => true) c.flags, insert a c.holders⟩

/-- `a` returns a copy: the first one on the shelf is marked as in. -/
def release (c : CopyShelf α) (a : α) : CopyShelf α :=
  ⟨c.flags.modifyHead fun _ => false, c.holders \ {a}⟩

/-- What can happen to a shelf. -/
inductive Step (c : CopyShelf α) : CopyShelf α → Prop where
  /-- a copy arrives -/
  | store : Step c c.store
  /-- someone who holds no copy takes one that is in -/
  | rent {a : α} (ha : a ∉ c.holders) (hin : false ∈ c.flags) : Step c (c.rent a)
  /-- a holder returns a copy -/
  | release {a : α} (ha : a ∈ c.holders) : Step c (c.release a)

/-! ## Counting -/

/-- How many copies are marked as out. -/
def out (c : CopyShelf α) : ℕ := c.flags.count true

/-- How many copies are in. -/
def free (c : CopyShelf α) : ℕ := c.flags.count false

theorem free_add_out (c : CopyShelf α) : c.free + c.out = c.flags.length :=
  List.count_false_add_count_true c.flags

@[simp] theorem out_store : c.store.out = c.out := by
  simp [out, store]

theorem length_flags_rent : (c.rent a).flags.length = c.flags.length :=
  length_updateFirst

theorem out_rent (hin : false ∈ c.flags) : (c.rent a).out = c.out + 1 := by
  have hany : c.flags.any (fun b => !b) = true :=
    List.any_eq_true.mpr ⟨false, hin, rfl⟩
  obtain ⟨b, -, hb, hcount⟩ :=
    countP_updateFirst (q := fun b => b == true) (f := fun _ => true) hany
  obtain rfl : b = false := by simpa using hb
  simpa [out, rent, List.count] using hcount

/-- After a rental the first copy is out: either it is the one just taken, or it was
out already. -/
theorem head?_flags_rent (hin : false ∈ c.flags) : (c.rent a).flags.head? = some true := by
  rcases hflags : c.flags with - | ⟨b, l⟩
  · rw [hflags] at hin
    cases hin
  · rw [rent, hflags]
    cases b with
    | false => rw [updateFirst_cons_pos rfl, List.head?_cons]
    | true => rw [updateFirst_cons_neg rfl, List.head?_cons]

/-- A return to a shelf whose first copy is out. -/
theorem out_release (hfirst : c.flags.head? = some true) :
    (c.release a).out + 1 = c.out ∧ (c.release a).free = c.free + 1 := by
  obtain ⟨l, hflags⟩ := List.head?_eq_some_iff.mp hfirst
  simp [out, free, release, hflags]

/-- A return to a shelf whose first copy is in changes no mark. -/
theorem out_release_of_in (hfirst : c.flags.head? ≠ some true) : (c.release a).out = c.out := by
  rcases hflags : c.flags with - | ⟨b, l⟩
  · simp [out, release, hflags]
  · obtain rfl : b = false := by simpa [hflags] using hfirst
    simp [out, release, hflags]

/-- **Rent and return** leave the number of copies that are in as it was, whichever copy
the return unmarks. -/
theorem free_rent_release (hin : false ∈ c.flags) (a b : α) :
    ((c.rent a).release b).free = c.free := by
  have hrent := out_rent (a := a) hin
  obtain ⟨-, hrelease⟩ := out_release (a := b) (head?_flags_rent (a := a) hin)
  have hlen : (c.rent a).flags.length = c.flags.length := length_flags_rent
  have := c.free_add_out
  have := (c.rent a).free_add_out
  omega

/-! ## The invariant -/

/-- What always holds of a shelf and its holders. -/
structure Inv (c : CopyShelf α) : Prop where
  /-- finitely many holders -/
  finite : c.holders.Finite
  /-- every holder has a copy that is out -/
  held : c.holders.ncard ≤ c.out
  /-- a first copy that is out has somebody holding one -/
  first : c.flags.head? = some true → c.holders.Nonempty

theorem inv_empty : (empty : CopyShelf α).Inv where
  finite := Set.finite_empty
  held := by simp [empty]
  first := by simp [empty]

/-- A shelf somebody holds a copy of has a copy. -/
theorem Inv.flags_ne_nil (hc : c.Inv) (ha : a ∈ c.holders) : c.flags ≠ [] := by
  intro hnil
  have hpos : 0 < c.holders.ncard := (Set.ncard_pos hc.finite).mpr ⟨a, ha⟩
  have hheld := hc.held
  rw [out, hnil, List.count_nil] at hheld
  omega

theorem Inv.store (hc : c.Inv) : c.store.Inv where
  finite := hc.finite
  held := by
    rw [out_store]
    exact hc.held
  first := by
    intro hfirst
    apply hc.first
    rcases hflags : c.flags with - | ⟨b, l⟩
    · simp [CopyShelf.store, hflags] at hfirst
    · simpa [CopyShelf.store, hflags] using hfirst

theorem Inv.rent (hc : c.Inv) (ha : a ∉ c.holders) (hin : false ∈ c.flags) :
    (c.rent a).Inv where
  finite := hc.finite.insert a
  held := by
    have hcard : (c.rent a).holders.ncard = c.holders.ncard + 1 :=
      Set.ncard_insert_of_notMem ha hc.finite
    have := hc.held
    rw [hcard, out_rent hin]
    omega
  first := fun _ => ⟨a, Set.mem_insert a c.holders⟩

theorem Inv.release (hc : c.Inv) (ha : a ∈ c.holders) : (c.release a).Inv where
  finite := hc.finite.sdiff
  held := by
    have hcard : (c.release a).holders.ncard + 1 = c.holders.ncard :=
      Set.ncard_sdiff_singleton_add_one ha hc.finite
    have := hc.held
    -- at most one mark goes, and one holder does
    by_cases hfirst : c.flags.head? = some true
    · obtain ⟨hout, -⟩ := out_release (a := a) hfirst
      omega
    · have := out_release_of_in (a := a) hfirst
      omega
  first := by
    intro hfirst
    rcases hflags : c.flags with - | ⟨b, l⟩
    · exact absurd hflags (hc.flags_ne_nil ha)
    · simp [CopyShelf.release, hflags] at hfirst

/-- **The invariant is inductive.** -/
theorem Inv.step (hc : c.Inv) (hstep : Step c c') : c'.Inv := by
  cases hstep with
  | store => exact hc.store
  | rent ha hin => exact hc.rent ha hin
  | release ha => exact hc.release ha

/-! ## Availability -/

/-- If nobody holds a copy, the first one is in. -/
theorem Inv.free_of_no_holder (hc : c.Inv) (hne : c.flags ≠ []) (hnone : c.holders = ∅) :
    false ∈ c.flags := by
  rcases hflags : c.flags with - | ⟨b, l⟩
  · exact absurd hflags hne
  · cases b with
    | false => exact List.mem_cons_self ..
    | true =>
      have hholders := hc.first (by rw [hflags]; rfl)
      rw [hnone] at hholders
      exact absurd hholders Set.not_nonempty_empty

/-- A return leaves a copy that is in, even if it was the wrong one. -/
theorem Inv.free_release (hc : c.Inv) (ha : a ∈ c.holders) :
    false ∈ (c.release a).flags := by
  rcases hflags : c.flags with - | ⟨b, l⟩
  · exact absurd hflags (hc.flags_ne_nil ha)
  · simp [CopyShelf.release, hflags]

/-! ## Accounting for every copy that is out -/

/-- Every copy that is out has a holder, by count. -/
def Accounted (c : CopyShelf α) : Prop := c.out ≤ c.holders.ncard

theorem accounted_empty : (empty : CopyShelf α).Accounted := by
  simp [Accounted, out, empty]

theorem Accounted.store (h : c.Accounted) : c.store.Accounted := by
  rw [Accounted, out_store]
  exact h

theorem Accounted.rent (hc : c.Inv) (h : c.Accounted) (ha : a ∉ c.holders)
    (hin : false ∈ c.flags) : (c.rent a).Accounted := by
  have hcard : (c.rent a).holders.ncard = c.holders.ncard + 1 :=
    Set.ncard_insert_of_notMem ha hc.finite
  rw [Accounted, hcard, out_rent hin]
  exact Nat.add_le_add_right h 1

/-- **A return keeps the account exactly when the first copy is out.** With the first
copy in, the number of holders drops and the number of copies out does not. -/
theorem accounted_release_iff (hc : c.Inv) (h : c.Accounted) (ha : a ∈ c.holders) :
    (c.release a).Accounted ↔ c.flags.head? = some true := by
  have hcard : (c.release a).holders.ncard + 1 = c.holders.ncard :=
    Set.ncard_sdiff_singleton_add_one ha hc.finite
  have hheld := hc.held
  rw [Accounted] at h ⊢
  constructor
  · intro hle
    by_contra hfirst
    have := out_release_of_in (a := a) hfirst
    omega
  · intro hfirst
    obtain ⟨hout, -⟩ := out_release (a := a) hfirst
    omega

/-- A shelf with one copy at most is always accounted for. -/
theorem Inv.accounted_of_length_le_one (hc : c.Inv) (hle : c.flags.length ≤ 1) :
    c.Accounted := by
  rw [Accounted, out]
  rcases hflags : c.flags with - | ⟨b, l⟩
  · exact Nat.zero_le _
  · obtain rfl : l = [] := by
      rw [hflags, List.length_cons] at hle
      exact List.eq_nil_of_length_eq_zero (by omega)
    cases b with
    | false => exact Nat.zero_le _
    | true => exact (Set.ncard_pos hc.finite).mpr (hc.first (by rw [hflags]; rfl))

/-- With every copy that is out accounted for, nobody holding one means that all of
them are in. -/
theorem Accounted.free_eq_length (h : c.Accounted) (hnone : c.holders = ∅) :
    c.free = c.flags.length := by
  rw [Accounted, hnone, Set.ncard_empty] at h
  have := c.free_add_out
  omega

/-! ## Losing copies -/

/-- How many copies are out with nobody holding one for it. -/
noncomputable def lost (c : CopyShelf α) : ℕ := c.out - c.holders.ncard

/-- Every copy that is out is held or lost. -/
theorem Inv.out_eq (hc : c.Inv) : c.out = c.holders.ncard + c.lost := by
  have hheld := hc.held
  rw [lost]
  omega

@[simp] theorem lost_store : c.store.lost = c.lost := by
  rw [lost, out_store]
  rfl

theorem Inv.lost_rent (hc : c.Inv) (ha : a ∉ c.holders) (hin : false ∈ c.flags) :
    (c.rent a).lost = c.lost := by
  have hcard : (c.rent a).holders.ncard = c.holders.ncard + 1 :=
    Set.ncard_insert_of_notMem ha hc.finite
  rw [lost, lost, hcard, out_rent hin]
  omega

/-- **A return loses a copy exactly if the first one is in.** -/
theorem Inv.lost_release (hc : c.Inv) (ha : a ∈ c.holders) :
    (c.release a).lost = c.lost + if c.flags.head? = some true then 0 else 1 := by
  have hcard : (c.release a).holders.ncard + 1 = c.holders.ncard :=
    Set.ncard_sdiff_singleton_add_one ha hc.finite
  have hheld := hc.held
  rw [lost, lost]
  split
  · next hfirst =>
    obtain ⟨hout, -⟩ := out_release (a := a) hfirst
    omega
  · next hfirst =>
    have := out_release_of_in (a := a) hfirst
    omega

/-- One copy is never lost. -/
theorem Inv.lost_lt (hc : c.Inv) (hne : c.flags ≠ []) : c.lost < c.flags.length := by
  have hout := hc.out_eq
  have hlen := c.free_add_out
  rcases Set.eq_empty_or_nonempty c.holders with hnone | hsome
  · -- nobody holds a copy, so the first one is in
    have hfree : 0 < c.free := List.count_pos_iff.mpr (hc.free_of_no_holder hne hnone)
    omega
  · have : 0 < c.holders.ncard := (Set.ncard_pos hc.finite).mpr hsome
    omega

/-! ## Wearing out -/

/-- The first copy aside, those that are out stand before those that are in. -/
def Packed (c : CopyShelf α) : Prop :=
  c.flags = [] ∨ ∃ b n m, c.flags = b :: (List.replicate n true ++ List.replicate m false)

theorem packed_empty : (empty : CopyShelf α).Packed := .inl rfl

theorem Packed.store (h : c.Packed) : c.store.Packed := by
  right
  rcases h with hnil | ⟨b, n, m, hflags⟩
  · exact ⟨false, 0, 0, by simp [CopyShelf.store, hnil]⟩
  · refine ⟨b, n, m + 1, ?_⟩
    rw [CopyShelf.store, hflags, List.replicate_succ', List.cons_append, List.append_assoc]

theorem Packed.rent (h : c.Packed) (hin : false ∈ c.flags) : (c.rent a).Packed := by
  right
  rcases h with hnil | ⟨b, n, m, hflags⟩
  · rw [hnil] at hin
    cases hin
  · have hrent : (c.rent a).flags = updateFirst (fun b => !b) (fun _ => true)
        (b :: (List.replicate n true ++ List.replicate m false)) := by rw [CopyShelf.rent, hflags]
    rw [hrent]
    rw [hflags] at hin
    cases b with
    | false => exact ⟨true, n, m, updateFirst_cons_pos rfl⟩
    | true =>
      -- the first copy that is in is the one behind all those that are out
      obtain ⟨m, rfl⟩ : ∃ m', m = m' + 1 := by
        cases m with
        | zero => simp at hin
        | succ m => exact ⟨m, rfl⟩
      refine ⟨true, n + 1, m, ?_⟩
      rw [updateFirst_cons_neg rfl, updateFirst_append, if_neg (by simp), List.replicate_succ,
        updateFirst_cons_pos rfl, List.replicate_succ', List.append_assoc, List.singleton_append]

theorem Packed.release (h : c.Packed) : (c.release a).Packed := by
  rcases h with hnil | ⟨b, n, m, hflags⟩
  · exact .inl (by rw [CopyShelf.release, hnil, List.modifyHead_nil])
  · exact .inr ⟨false, n, m, by rw [CopyShelf.release, hflags, List.modifyHead_cons]⟩

/-- **Every step leaves a packed shelf packed.** -/
theorem Packed.step (h : c.Packed) (hstep : Step c c') : c'.Packed := by
  cases hstep with
  | store => exact h.store
  | rent ha hin => exact h.rent hin
  | release ha => exact h.release

end CopyShelf

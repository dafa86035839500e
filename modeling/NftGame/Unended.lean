import NftGame.Access
import NftGame.Wear

/-!
# Rentals that are not ended

Nothing comes back to the pool by itself: neither its marks nor the guard of `rentNft` look
at the time. So an address that does not call `endRental` rents once and never again, and
its one rental gives access for one `rentalDuration` (`rental_of_unended`).

If nobody calls it, every entry is rented out once at most, and the marks of the pool are
exactly the rentals made (`rentedCopies_of_unended`); then no copy is lost either, as it is
`endRental` that loses them (`noCopyLost_of_unended`).
-/

namespace NftGame

open Solidity Transaction

namespace NFTRentLight

/-- How many `rentNft(k)` calls there are in the list. -/
def rentsOf (k : UInt256) (txs : List Tx) : ℕ := txs.countP fun tx => tx.call = .rentNft k

section Unended

variable {txs : List Tx}

/-- **Who does not end a rental keeps it**: a committed `rentNft` of such an address is the
only one it ever makes, and its rental stays as it was made. -/
theorem rental_of_unended {u : Address} {k t₀ : UInt256}
    (hkept : ∀ tx ∈ txs, tx.env.sender = u → tx.call ≠ .endRental)
    (hrent : ⟨⟨u, t₀⟩, .rentNft k⟩ ∈ accepted transact deployed txs) :
    events u (accepted transact deployed txs) = [.take k t₀] ∧
      (run transact deployed txs).rentals u = ⟨k, t₀, true⟩ := by
  have hlog := log_run txs u
  have htakes : ∀ e ∈ events u (accepted transact deployed txs), e.isTake = true := by
    intro e he
    obtain ⟨⟨env, call⟩, htx, hevent⟩ := List.mem_filterMap.mp he
    have hsender : env.sender = u := by
      by_contra hne
      rw [Tx.event?, if_neg hne] at hevent
      cases hevent
    rw [Tx.event?, if_pos hsender] at hevent
    cases call with
    | store m => cases hevent
    | rentNft m =>
      obtain rfl := Option.some.inj hevent
      rfl
    | endRental => exact absurd rfl (hkept _ (mem_of_accepted htx) hsender)
  have htake : .take k t₀ ∈ events u (accepted transact deployed txs) :=
    List.mem_filterMap.mpr ⟨_, hrent, event?_eq_take_iff.mpr ⟨rfl, rfl, rfl⟩⟩
  have honly : events u (accepted transact deployed txs) = [.take k t₀] := by
    have hle := hlog.length_le_one rfl htakes
    obtain ⟨e, he⟩ := List.length_eq_one_iff.mp
      (hle.antisymm (List.length_pos_of_mem htake))
    rw [he, List.mem_singleton] at htake
    rw [he, htake]
  refine ⟨honly, ?_⟩
  rw [honly] at hlog
  obtain ⟨hk, ht₀, hactive⟩ := Lease.mk.inj (hlog.eq_of_take rfl)
  rw [← hk, ← ht₀, ← hactive]

/-- Nothing is returned, so nothing is returned wrongly. -/
theorem misreleases_of_unended (hnone : ∀ tx ∈ txs, tx.call ≠ .endRental) (k : UInt256) :
    misreleases k txs = [] := by
  rw [List.eq_nil_iff_forall_not_mem]
  intro tx' htx'
  obtain ⟨pre, tx, post, s', rfl, -, hobs⟩ := mem_observed_iff.mp htx'
  have hcall := hnone tx (List.mem_append_right _ List.mem_cons_self)
  rw [misrelease, if_neg fun h => hcall h.1] at hobs
  cases hobs

/-- Then no copy is lost. -/
theorem noCopyLost_of_unended (hnone : ∀ tx ∈ txs, tx.call ≠ .endRental) :
    NoCopyLost (run transact deployed txs) := by
  intro k
  rw [← out_shelf, (shelfInv_run txs k).out_eq, lost_run, misreleases_of_unended hnone]
  exact Nat.le_refl _

/-- **The marks are the rentals made**, if none of them is ended. -/
theorem rentedCopies_of_unended (hnone : ∀ tx ∈ txs, tx.call ≠ .endRental) (k : UInt256) :
    (run transact deployed txs).rentedCopies k = rentsOf k (accepted transact deployed txs) := by
  refine accepted_induction (I := fun hist (s : State) => s.rentedCopies k = rentsOf k hist)
    rfl txs ?_
  intro tx htx hist s s' hcount h
  have hcommit := transact_eq_ok_iff.mp h
  rw [rentsOf, List.countP_append, ← rentsOf, ← hcount, ← out_shelf, ← out_shelf]
  by_cases hk : k = s.idOf tx
  · cases hcommit with
    | @store env m pool hpush =>
      obtain rfl : k = m := hk
      rw [shelf_push hpush, CopyShelf.out_store]
      rfl
    | @rentNft env m hidle hfree =>
      obtain rfl : k = m := hk
      rw [shelf_rented, CopyShelf.out_rent (false_mem_flags_iff.mpr hfree)]
      simp
    | endRental hactive => exact absurd rfl (hnone _ htx)
  · have hother : ¬ tx.call = .rentNft k := by
      obtain ⟨env, call⟩ := tx
      rintro rfl
      exact hk rfl
    rw [hcommit.shelf_of_ne hk, List.countP_singleton, if_neg (by simpa using hother)]
    rfl

end Unended

end NFTRentLight

end NftGame

import NftGame.Copies

/-!
# Copies wear out

`endRental` unmarks the first entry of its id, whichever copy was returned. So the first
copy of an id comes and goes, and every other one can be rented out once: its mark is never
cleared again (`copies_wear_out`).

How many copies of `k` are marked with nobody holding one for it is therefore no matter of
chance. It is the number of returns of `k` that found the first copy unmarked
(`misreleases`), it never goes down, and it is what is missing from the capacity of the
pool from then on (`lost_copies_counted`).
-/

namespace NftGame

open Solidity Transaction

namespace NFTRentLight

/-! ## Positions in the pool -/

section Positions

variable {s s' : State} {tx : Tx} {i j : ℕ} {x y : NFT}

/-- The entry at a position keeps its id. -/
theorem Commit.getElem?_id (h : Commit s tx s') (hx : s.availableNfts.entries[j]? = some x) :
    ∃ x', s'.availableNfts.entries[j]? = some x' ∧ x'.id = x.id := by
  have hkept : ∀ {l : List NFT}, l.map NFT.id = s.availableNfts.entries.map NFT.id →
      ∃ x', l[j]? = some x' ∧ x'.id = x.id := by
    intro l hids
    have hid : (l.map NFT.id)[j]? = some x.id := by
      rw [hids, List.getElem?_map, hx, Option.map_some]
    rw [List.getElem?_map] at hid
    exact Option.map_eq_some_iff.mp hid
  cases h with
  | store hpush =>
    rw [DynArray.push_eq_ok hpush]
    obtain ⟨hlt, -⟩ := List.getElem?_eq_some_iff.mp hx
    exact ⟨x, by rw [List.getElem?_append_left hlt, hx], rfl⟩
  | rentNft hidle hfree => exact hkept State.ids_rented
  | endRental hactive => exact hkept State.ids_released

/-- **A copy that is not the first of its id stays marked.** -/
theorem Commit.getElem?_worn (h : Commit s tx s') (hj : j < i)
    (hx : s.availableNfts.entries[j]? = some x) (hy : s.availableNfts.entries[i]? = some y)
    (hid : x.id = y.id) (hrented : y.isRented = true) :
    s'.availableNfts.entries[i]? = some y := by
  cases h with
  | store hpush =>
    rw [DynArray.push_eq_ok hpush]
    obtain ⟨hlt, -⟩ := List.getElem?_eq_some_iff.mp hy
    rw [List.getElem?_append_left hlt, hy]
  | rentNft hidle hfree =>
    rw [State.entries_rented]
    -- the search passes over entries that are rented
    refine FirstMatch.getElem?_updateFirst_of_passed hy (.inl ?_)
    simp [NFT.isFree, hrented]
  | @endRental env hactive =>
    rw [State.entries_released]
    refine FirstMatch.getElem?_updateFirst_of_passed hy ?_
    -- it stops at an earlier entry, or at one of another id
    by_cases hhit : y.id = (s.rentals env.sender).nftId
    · exact .inr ⟨j, hj, x, hx, NFT.hasId_iff.mpr (hid.trans hhit)⟩
    · exact .inl (Bool.eq_false_iff.mpr (mt NFT.hasId_iff.mp hhit))

/-- So it does in every run. -/
theorem getElem?_worn_run (hj : j < i) (hx : s.availableNfts.entries[j]? = some x)
    (hy : s.availableNfts.entries[i]? = some y) (hid : x.id = y.id)
    (hrented : y.isRented = true) (txs : List Tx) :
    (run transact s txs).availableNfts.entries[i]? = some y := by
  let I : State → Prop := fun s => s.availableNfts.entries[i]? = some y ∧
    ∃ x, s.availableNfts.entries[j]? = some x ∧ x.id = y.id
  have hstep : ∀ s tx s', I s → transact tx s = .ok s' → I s' := by
    rintro s tx s' ⟨hy, x, hx, hid⟩ h
    have hcommit := transact_eq_ok_iff.mp h
    obtain ⟨x', hx', hid'⟩ := hcommit.getElem?_id hx
    exact ⟨hcommit.getElem?_worn hj hx hy hid hrented, x', hx', hid'.trans hid⟩
  exact (run_invariant hstep ⟨hy, x, hx, hid⟩ txs).1

end Positions

/-- In every reachable state, the copies of an id are its first one, then those that are
used up, then those that were never rented. -/
theorem packed_run (txs : List Tx) (k : UInt256) :
    ((run transact deployed txs).shelf k).Packed := by
  refine run_invariant (I := fun s : State => ∀ k, (s.shelf k).Packed) ?_ ?_ txs k
  · intro s tx s' hs h k
    have hcommit := transact_eq_ok_iff.mp h
    by_cases hk : k = s.idOf tx
    · subst hk
      exact (hs _).step hcommit.shelf_step
    · rw [hcommit.shelf_of_ne hk]
      exact hs k
  · intro k
    rw [shelf_deployed]
    exact CopyShelf.packed_empty

/-- **Every copy but the first of its id is rented out once at most.** However a run goes
on, an entry that is marked as rented and stands behind another one of its id is never
changed again, so no `rentNft` can find it. In the order of the pool, the marks of the
copies of an id are: any mark on the first one, then the copies used up, then the copies
never rented. -/
theorem copies_wear_out (txs : List Tx) :
    let s := run transact deployed txs
    (∀ (i j : ℕ) (x y : NFT), j < i → s.availableNfts.entries[j]? = some x →
      s.availableNfts.entries[i]? = some y → x.id = y.id → y.isRented = true →
      ∀ more, (run transact deployed (txs ++ more)).availableNfts.entries[i]? = some y) ∧
    ∀ k, s.copies k ≠ 0 → ∃ b n m,
      (s.availableNfts.entries.filter fun nft => nft.id = k).map NFT.isRented =
        b :: (List.replicate n true ++ List.replicate m false) := by
  intro s
  refine ⟨?_, fun k hcopies => ?_⟩
  · intro i j x y hj hx hy hid hrented more
    rw [run_append]
    exact getElem?_worn_run hj hx hy hid hrented more
  · have hpacked : (s.shelf k).Packed := packed_run txs k
    rcases hpacked with hnil | hflags
    · rw [← length_flags_shelf, hnil] at hcopies
      exact absurd rfl hcopies
    · exact hflags

/-! ## What is lost -/

instance (s : State) (k : UInt256) : Decidable (FirstCopyRented s k) :=
  decidable_of_iff ((s.availableNfts.entries.find? (NFT.hasId k)).any NFT.isRented = true)
    (Option.any_eq_true ..)

/-- The transaction, if it is a return of `k` while the first copy of `k` is not marked. -/
def misrelease (k : UInt256) (s : State) (tx : Tx) : List Tx :=
  if tx.call = .endRental ∧ (s.rentals tx.env.sender).nftId = k ∧ ¬ FirstCopyRented s k
  then [tx] else []

/-- The returns of `k`, among those that commit in a run, that find the first copy of `k`
unmarked. -/
def misreleases (k : UInt256) (txs : List Tx) : List Tx :=
  observed transact (misrelease k) deployed txs

section Lost

variable {s s' : State} {tx : Tx} {k : UInt256}

/-- A commit loses a copy of `k` exactly if it is a misrelease of `k`. -/
theorem Commit.lost_shelf (h : Commit s tx s') (hs : ShelfInv s) :
    (s'.shelf k).lost = (s.shelf k).lost + (misrelease k s tx).length := by
  by_cases hk : k = s.idOf tx
  · cases h with
    | @store env m pool hpush =>
      obtain rfl : k = m := hk
      rw [shelf_push hpush, CopyShelf.lost_store]
      rfl
    | @rentNft env m hidle hfree =>
      obtain rfl : k = m := hk
      rw [shelf_rented, (hs k).lost_rent (notMem_holders hidle) (false_mem_flags_iff.mpr hfree)]
      rfl
    | @endRental env hactive =>
      obtain rfl : k = (s.rentals env.sender).nftId := hk
      rw [shelf_released rfl, (hs _).lost_release ⟨hactive, rfl⟩, misrelease]
      simp only [true_and, ← firstCopyRented_iff]
      by_cases hfirst : FirstCopyRented s (s.rentals env.sender).nftId <;> simp [hfirst]
  · have hnone : misrelease k s tx = [] := by
      refine if_neg ?_
      rintro ⟨hcall, hid, -⟩
      obtain ⟨env, call⟩ := tx
      obtain rfl : call = .endRental := hcall
      exact hk hid.symm
    rw [h.shelf_of_ne hk, hnone]
    rfl

/-- The copies lost in a run, counted. -/
theorem lost_run (txs : List Tx) (k : UInt256) :
    ((run transact deployed txs).shelf k).lost = (misreleases k txs).length := by
  let I : List Tx → State → Prop := fun hist s => ShelfInv s ∧ (s.shelf k).lost = hist.length
  have hdeployed : I [] deployed := by
    refine ⟨shelfInv_deployed, ?_⟩
    rw [shelf_deployed]
    simp [CopyShelf.lost, CopyShelf.out, CopyShelf.empty]
  have hI : I (misreleases k txs) (run transact deployed txs) := by
    refine observed_induction hdeployed txs ?_
    rintro tx - hist s s' ⟨hs, hlost⟩ h
    refine ⟨hs.transact h, ?_⟩
    rw [(transact_eq_ok_iff.mp h).lost_shelf hs, hlost, List.length_append]
  exact hI.2

end Lost

/-- **The copies lost are the misreleases, and they stay lost.** After every run, the
copies of `k` marked as rented are those held and one for each misrelease of `k` so far.
These are missing for good: whatever happens next, at least as many copies of `k` as there
are misreleases have no holder. But the first copy is never lost. -/
theorem lost_copies_counted (txs : List Tx) (k : UInt256) :
    let s := run transact deployed txs
    s.rentedCopies k = (s.holders k).ncard + (misreleases k txs).length ∧
    (s.copies k ≠ 0 → (misreleases k txs).length < s.copies k) ∧
    ∀ more, ((run transact deployed (txs ++ more)).holders k).ncard + (misreleases k txs).length ≤
      (run transact deployed (txs ++ more)).rentedCopies k := by
  intro s
  have hcount : ∀ txs, (run transact deployed txs).rentedCopies k =
      ((run transact deployed txs).holders k).ncard + (misreleases k txs).length := by
    intro txs
    rw [← out_shelf, (shelfInv_run txs k).out_eq, lost_run]
    rfl
  refine ⟨hcount txs, fun hcopies => ?_, fun more => ?_⟩
  · rw [← length_flags_shelf] at hcopies ⊢
    rw [← lost_run]
    exact (shelfInv_run txs k).lost_lt (List.length_pos_iff.mp (Nat.pos_of_ne_zero hcopies))
  · have hmore : (misreleases k txs).length ≤ (misreleases k (txs ++ more)).length := by
      rw [misreleases, misreleases, observed_append, List.length_append]
      exact Nat.le_add_right ..
    rw [hcount]
    exact Nat.add_le_add_left hmore _

end NFTRentLight

end NftGame

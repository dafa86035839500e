import NftGame.Listing
import NftGame.CopyShelf

/-!
# Copies and holders

The pool contract, seen one NFT id at a time, is a `CopyShelf`: the flags of the entries
with that id, and the addresses whose rental is active for it (`State.shelf`). A
committed transaction is one step of the shelf of its own id (`Commit.shelf_step`) and
no step of any other (`Commit.shelf_of_ne`), so the shelf's invariant holds of every id
in every reachable state.

From it, over all runs:

* no copy is rented twice (`holders_le_rentedCopies`);
* no copy is lost *as long as* every committed `endRental` finds the first copy of its
  id rented, and only then (`noCopyLost_iff`);
* an id nobody holds is rentable, and so is an id just returned
  (`rentable_of_no_holder_or_returned`).
-/

namespace NftGame

open Solidity Transaction

namespace NFTRentLight

/-! ## Counting the pool and the rentals -/

namespace State

/-- The addresses with an active rental of `k`. -/
def holders (s : State) (k : UInt256) : Set Address :=
  {u | (s.rentals u).active = true ∧ (s.rentals u).nftId = k}

/-- The number of entries with id `k`. -/
def copies (s : State) (k : UInt256) : ℕ :=
  s.availableNfts.entries.countP (NFT.hasId k)

/-- The number of entries with id `k` whose flag `isRented` is set. -/
def rentedCopies (s : State) (k : UInt256) : ℕ :=
  s.availableNfts.entries.countP fun nft => nft.hasId k && nft.isRented

/-- The shelf of `k`. -/
def shelf (s : State) (k : UInt256) : CopyShelf Address where
  flags := (s.availableNfts.entries.filter (NFT.hasId k)).map NFT.isRented
  holders := s.holders k

end State

section Shelf

variable {s s' : State} {env : Env} {tx : Tx} {k m : UInt256} {u v : Address}

theorem length_flags_shelf : (s.shelf k).flags.length = s.copies k := by
  rw [State.shelf, List.length_map, State.copies, List.countP_eq_length_filter]

theorem out_shelf : (s.shelf k).out = s.rentedCopies k := by
  rw [CopyShelf.out, State.shelf, List.count, List.countP_map, List.countP_filter,
    State.rentedCopies]
  refine List.countP_congr fun nft _ => ?_
  simp [and_comm]

theorem free_shelf : (s.shelf k).free = s.available.count k := by
  rw [CopyShelf.free, State.shelf, List.count, List.countP_map, List.countP_filter,
    State.available, List.count, List.countP_map, List.countP_filter]
  refine List.countP_congr fun nft _ => ?_
  simp [NFT.free, NFT.hasId, and_comm]

theorem notMem_holders (hidle : (s.rentals u).active = false) : u ∉ s.holders k := by
  rintro ⟨hactive, -⟩
  rw [hidle] at hactive
  cases hactive

/-- The shelf has a copy in exactly when `rentNft` would find one. -/
theorem false_mem_flags_iff :
    false ∈ (s.shelf k).flags ↔ s.availableNfts.entries.any (NFT.isFree k) = true := by
  rw [State.shelf, List.mem_map, List.any_eq_true]
  simp only [List.mem_filter, NFT.hasId_iff, NFT.isFree_iff, and_assoc]

/-! ### Transactions are steps of the shelf -/

theorem shelf_push {pool : DynArray NFT}
    (hpush : s.availableNfts.push ⟨k, false⟩ = .ok pool) :
    ({ s with availableNfts := pool } : State).shelf k = (s.shelf k).store := by
  simp [State.shelf, CopyShelf.store, State.holders, DynArray.push_eq_ok hpush, NFT.hasId]

theorem shelf_push_of_ne {pool : DynArray NFT} (hkm : k ≠ m)
    (hpush : s.availableNfts.push ⟨m, false⟩ = .ok pool) :
    ({ s with availableNfts := pool } : State).shelf k = s.shelf k := by
  simp [State.shelf, State.holders, DynArray.push_eq_ok hpush, NFT.hasId, hkm.symm]

/-- The holders after `u`'s rental has changed. -/
theorem holders_update {r : Rental} {rentals : Address → Rental} :
    {v | (Function.update rentals u r v).active = true ∧
        (Function.update rentals u r v).nftId = k} =
      if r.active = true ∧ r.nftId = k
      then insert u {v | (rentals v).active = true ∧ (rentals v).nftId = k}
      else {v | (rentals v).active = true ∧ (rentals v).nftId = k} \ {u} := by
  ext v
  by_cases hv : v = u
  · subst hv
    by_cases hr : r.active = true ∧ r.nftId = k <;> simp [hr]
  · by_cases hr : r.active = true ∧ r.nftId = k <;> simp [hr, hv]

/-- A committed `rentNft(k)` rents a copy off the shelf of `k`. -/
theorem shelf_rented : (s.rented env k).shelf k = (s.shelf k).rent env.sender := by
  ext1
  · change List.map _ (List.filter _ (s.rented env k).availableNfts.entries) = _
    rw [State.entries_rented, FirstMatch.filter_updateFirst]
    · refine FirstMatch.map_updateFirst ?_ fun _ _ _ => rfl
      intro nft hnft
      obtain ⟨-, hid⟩ := List.mem_filter.mp hnft
      rw [NFT.isFree, ← NFT.hasId, hid, Bool.true_and]
    · intro nft hfree
      have hid := NFT.hasId_of_isFree hfree
      exact ⟨hid, hid⟩
  · exact holders_update.trans (if_pos ⟨rfl, rfl⟩)

/-- It leaves the shelves of other ids alone, the sender being idle. -/
theorem shelf_rented_of_ne (hkm : k ≠ m) (hidle : (s.rentals env.sender).active = false) :
    (s.rented env m).shelf k = s.shelf k := by
  ext1
  · change List.map _ (List.filter _ (s.rented env m).availableNfts.entries) = _
    rw [State.entries_rented, FirstMatch.filter_updateFirst_of_not]
    · rfl
    · intro nft hfree
      have hid := NFT.hasId_of_ne hkm (NFT.hasId_of_isFree hfree)
      exact ⟨hid, hid⟩
  · refine (holders_update.trans (if_neg fun h => hkm h.2.symm)).trans ?_
    exact Set.sdiff_singleton_eq_self (notMem_holders hidle)

/-- A committed `endRental` returns a copy to the shelf of the id that was held. -/
theorem shelf_released (hk : (s.rentals u).nftId = k) :
    (s.released u).shelf k = (s.shelf k).release u := by
  ext1
  · change List.map _ (List.filter _ (s.released u).availableNfts.entries) = _
    rw [State.entries_released, hk, FirstMatch.filter_updateFirst]
    · -- on the shelf every entry has the id, so the first one is hit
      refine Eq.trans ?_ FirstMatch.updateFirst_true
      refine FirstMatch.map_updateFirst ?_ fun _ _ _ => rfl
      intro nft hnft
      obtain ⟨-, hid⟩ := List.mem_filter.mp hnft
      exact hid.symm
    · intro nft hid
      exact ⟨hid, hid⟩
  · exact holders_update.trans (if_neg fun h => Bool.false_ne_true h.1)

/-- It leaves the shelves of other ids alone. -/
theorem shelf_released_of_ne (hk : k ≠ (s.rentals u).nftId) :
    (s.released u).shelf k = s.shelf k := by
  ext1
  · change List.map _ (List.filter _ (s.released u).availableNfts.entries) = _
    rw [State.entries_released, FirstMatch.filter_updateFirst_of_not]
    · rfl
    · intro nft hid
      have hid' := NFT.hasId_of_ne hk hid
      exact ⟨hid', hid'⟩
  · refine (holders_update.trans (if_neg fun h => Bool.false_ne_true h.1)).trans ?_
    exact Set.sdiff_singleton_eq_self fun h => hk h.2.symm

/-- A committed transaction is invisible to the shelves of the ids it is not about. -/
theorem Commit.shelf_of_ne (h : Commit s tx s') (hk : k ≠ s.idOf tx) :
    s'.shelf k = s.shelf k := by
  cases h with
  | store hpush => exact shelf_push_of_ne hk hpush
  | rentNft hidle hfree => exact shelf_rented_of_ne hk hidle
  | endRental hactive => exact shelf_released_of_ne hk

/-- **Refinement**: it is a step of the shelf of the id it is about. -/
theorem Commit.shelf_step (h : Commit s tx s') :
    CopyShelf.Step (s.shelf (s.idOf tx)) (s'.shelf (s.idOf tx)) := by
  cases h with
  | store hpush =>
    rw [State.idOf_store, shelf_push hpush]
    exact .store
  | rentNft hidle hfree =>
    rw [State.idOf_rentNft, shelf_rented]
    exact .rent (notMem_holders hidle) (false_mem_flags_iff.mpr hfree)
  | endRental hactive =>
    rw [State.idOf_endRental, shelf_released rfl]
    exact .release ⟨hactive, rfl⟩

/-- Every shelf of a state satisfies the shelf invariant. -/
def ShelfInv (s : State) : Prop := ∀ k, (s.shelf k).Inv

theorem shelf_deployed : deployed.shelf k = CopyShelf.empty := by
  ext1
  · rfl
  · exact Set.eq_empty_of_forall_notMem fun u h => Bool.false_ne_true h.1

theorem shelfInv_deployed : ShelfInv deployed := by
  intro k
  rw [shelf_deployed]
  exact CopyShelf.inv_empty

theorem ShelfInv.transact (hs : ShelfInv s) (h : transact tx s = .ok s') : ShelfInv s' := by
  have hcommit := transact_eq_ok_iff.mp h
  intro k
  by_cases hk : k = s.idOf tx
  · subst hk
    exact (hs _).step hcommit.shelf_step
  · rw [hcommit.shelf_of_ne hk]
    exact hs k

/-- **The shelf invariant holds in every reachable state.** -/
theorem shelfInv_run (txs : List Tx) : ShelfInv (run transact deployed txs) :=
  run_invariant (fun _ _ _ hs h => hs.transact h) shelfInv_deployed txs

end Shelf

/-! ## No copy is rented twice -/

/-- How many `store(k)` calls there are in the list. -/
def storesOf (k : UInt256) (txs : List Tx) : ℕ := txs.countP fun tx => tx.call = .store k

section Counts

variable {s s' : State} {tx : Tx} {k : UInt256}

theorem copies_eq_count :
    s.copies k = (s.availableNfts.entries.map NFT.id).count k := by
  rw [List.count, List.countP_map]
  rfl

/-- Only a `store(k)` changes the number of copies of `k`. -/
theorem Commit.copies (h : Commit s tx s') : s'.copies k = s.copies k + storesOf k [tx] := by
  cases h with
  | store hpush =>
    rw [State.copies, DynArray.push_eq_ok hpush, List.countP_append, State.copies]
    simp [storesOf, NFT.hasId]
  | rentNft hidle hfree =>
    rw [copies_eq_count, State.ids_rented, copies_eq_count]
    rfl
  | endRental hactive =>
    rw [copies_eq_count, State.ids_released, copies_eq_count]
    rfl

/-- The pool has one entry for each committed `store`. -/
theorem copies_run (txs : List Tx) (k : UInt256) :
    (run transact deployed txs).copies k = storesOf k (accepted transact deployed txs) := by
  refine accepted_induction (I := fun hist (s : State) => s.copies k = storesOf k hist)
    rfl txs ?_
  intro tx _ hist s s' hcopies h
  rw [(transact_eq_ok_iff.mp h).copies, hcopies, storesOf, storesOf, storesOf,
    List.countP_append]

end Counts

/-- **No copy is rented twice.** In every state reached by any run, and for every id,
there are at most as many holders as copies marked as rented, and so at most as many as
copies stored; an NFT stored once never has two holders. -/
theorem holders_le_rentedCopies (txs : List Tx) (k : UInt256) :
    let s := run transact deployed txs
    let stored := storesOf k (accepted transact deployed txs)
    (s.holders k).Finite ∧ (s.holders k).ncard ≤ s.rentedCopies k ∧
      s.rentedCopies k ≤ stored ∧
      (stored = 1 → ∀ u ∈ s.holders k, ∀ v ∈ s.holders k, u = v) := by
  intro s stored
  have hinv : (s.shelf k).Inv := shelfInv_run txs k
  have hheld : (s.holders k).ncard ≤ s.rentedCopies k := by
    rw [← out_shelf]
    exact hinv.held
  have hstored : s.rentedCopies k ≤ stored := by
    rw [show stored = s.copies k from (copies_run txs k).symm]
    refine List.countP_mono_left fun nft _ h => ?_
    obtain ⟨hid, -⟩ := Bool.and_eq_true_iff.mp h
    exact hid
  refine ⟨hinv.finite, hheld, hstored, ?_⟩
  intro hone u hu v hv
  have hle : (s.holders k).ncard ≤ 1 := by omega
  exact (Set.ncard_le_one hinv.finite).mp hle u hu v hv

/-! ## No copy is lost, and when one is -/

/-- Every entry marked as rented is accounted for by a holder, for every id. -/
def NoCopyLost (s : State) : Prop := ∀ k, s.rentedCopies k ≤ (s.holders k).ncard

/-- The first entry of id `k` is marked as rented. -/
def FirstCopyRented (s : State) (k : UInt256) : Prop :=
  ∃ nft, s.availableNfts.entries.find? (NFT.hasId k) = some nft ∧ nft.isRented = true

/-- If the transaction is an `endRental` that will commit, the first entry of the id
it returns is marked as rented. -/
def ReleasesRented (s : State) (tx : Tx) : Prop :=
  tx.call = .endRental → (s.rentals tx.env.sender).active = true →
    FirstCopyRented s (s.rentals tx.env.sender).nftId

section Lost

variable {s s' : State} {tx : Tx} {k : UInt256}

theorem noCopyLost_iff_accounted : NoCopyLost s ↔ ∀ k, (s.shelf k).Accounted := by
  simp only [NoCopyLost, CopyShelf.Accounted, out_shelf]
  rfl

theorem firstCopyRented_iff : FirstCopyRented s k ↔ (s.shelf k).flags.head? = some true := by
  rw [FirstCopyRented, State.shelf, List.head?_map, List.head?_filter,
    Option.map_eq_some_iff]

/-- After a commit, only the account of the id it is about can be short. -/
theorem Commit.noCopyLost_iff_accounted (h : Commit s tx s') (hacc : NoCopyLost s) :
    NoCopyLost s' ↔ (s'.shelf (s.idOf tx)).Accounted := by
  rw [NFTRentLight.noCopyLost_iff_accounted] at hacc ⊢
  refine ⟨fun hacc' => hacc' _, fun hid k => ?_⟩
  by_cases hk : k = s.idOf tx
  · subst hk
    exact hid
  · rw [h.shelf_of_ne hk]
    exact hacc k

/-- **What a commit does to the account**: it stays complete exactly if the commit does
not release a copy that was not rented. -/
theorem Commit.releasesRented_iff (h : Commit s tx s') (hinv : ShelfInv s)
    (hacc : NoCopyLost s) : ReleasesRented s tx ↔ NoCopyLost s' := by
  rw [h.noCopyLost_iff_accounted hacc]
  rw [NFTRentLight.noCopyLost_iff_accounted] at hacc
  cases h with
  | @store env m pool hpush =>
    refine iff_of_true (fun hcall => by cases hcall) ?_
    rw [State.idOf_store, shelf_push hpush]
    exact (hacc m).store
  | @rentNft env m hidle hfree =>
    refine iff_of_true (fun hcall => by cases hcall) ?_
    rw [State.idOf_rentNft, shelf_rented]
    exact (hacc m).rent (hinv m) (notMem_holders hidle) (false_mem_flags_iff.mpr hfree)
  | @endRental env hactive =>
    rw [State.idOf_endRental, shelf_released rfl,
      CopyShelf.accounted_release_iff (hinv _) (hacc _) ⟨hactive, rfl⟩, ← firstCopyRented_iff]
    exact ⟨fun h => h rfl hactive, fun h _ _ => h⟩

/-- The same of any transaction, committed or reverted. -/
theorem releasesRented_iff (hinv : ShelfInv s) (hacc : NoCopyLost s) (tx : Tx) :
    ReleasesRented s tx ↔ NoCopyLost (exec transact s tx) := by
  rcases step_cases transact s tx with hok | ⟨e, herr, hexec⟩
  · exact (transact_eq_ok_iff.mp hok).releasesRented_iff hinv hacc
  · -- an `endRental` of an active rental does not revert
    rw [hexec]
    refine iff_of_true (fun hcall hactive => ?_) hacc
    obtain ⟨env, call⟩ := tx
    obtain rfl : call = .endRental := hcall
    have hok := endRental_eq_ok_iff.mpr ⟨hactive, rfl⟩
    rw [show transact ⟨env, .endRental⟩ s = endRental env s from rfl, hok] at herr
    cases herr

end Lost

theorem noCopyLost_deployed : NoCopyLost deployed := by
  rw [noCopyLost_iff_accounted]
  intro k
  rw [shelf_deployed]
  exact CopyShelf.accounted_empty

/-- **No copy is lost, exactly as long as only rented copies are released.** Every
state of a run accounts for every entry marked as rented if and only if every
`endRental` that commits in it does so while the first entry of its id is marked as
rented. Then, once nobody holds `k`, every copy of `k` is listed again. -/
theorem noCopyLost_iff (txs : List Tx) :
    ((∀ pre, pre <+: txs → NoCopyLost (run transact deployed pre)) ↔
      Along transact ReleasesRented deployed txs) ∧
    (Along transact ReleasesRented deployed txs → ∀ pre, pre <+: txs → ∀ k,
      (run transact deployed pre).holders k = ∅ →
      ∃ r, getAvailableNfts (run transact deployed pre) = .ok r ∧
        r.entries.count k = (run transact deployed pre).copies k) := by
  have hiff := Along.prefix_iff (I := NoCopyLost) (J := ShelfInv) (P := ReleasesRented)
    (fun _ _ _ hs h => hs.transact h) (fun s tx hinv hacc => releasesRented_iff hinv hacc tx)
    shelfInv_deployed noCopyLost_deployed txs
  refine ⟨hiff, ?_⟩
  intro halong pre hpre k hnone
  have hacc := noCopyLost_iff_accounted.mp (hiff.mpr halong pre hpre) k
  refine ⟨_, getAvailableNfts_eq _, ?_⟩
  rw [entries_listing, ← free_shelf, hacc.free_eq_length hnone, length_flags_shelf]

/-- A run that loses a copy: two copies of `1` are stored and rented by two users, and
both return. Both returns unmark the first copy. -/
def losingRun : List Tx :=
  [⟨⟨1, 1000⟩, .store 1⟩, ⟨⟨1, 1001⟩, .store 1⟩, ⟨⟨1, 1002⟩, .rentNft 1⟩,
    ⟨⟨2, 1003⟩, .rentNft 1⟩, ⟨⟨1, 1004⟩, .endRental⟩, ⟨⟨2, 1005⟩, .endRental⟩]

/-- After it nobody holds `1`, and its second copy stays marked as rented. -/
theorem losingRun_loses_copy :
    (run transact deployed losingRun).holders 1 = ∅ ∧
      (run transact deployed losingRun).rentedCopies 1 = 1 ∧
      ¬ NoCopyLost (run transact deployed losingRun) := by
  have hnone : (run transact deployed losingRun).holders 1 = ∅ := by
    refine Set.eq_empty_of_forall_notMem fun u h => ?_
    obtain ⟨hactive, -⟩ := h
    by_cases h1 : u = 1
    · subst h1
      revert hactive
      decide
    · by_cases h2 : u = 2
      · subst h2
        revert hactive
        decide
      · rw [rentals_run_of_notMem (by simpa [losingRun] using ⟨h1, h2, h1, h2⟩)] at hactive
        exact Bool.false_ne_true hactive
  have hrented : (run transact deployed losingRun).rentedCopies 1 = 1 := by decide
  refine ⟨hnone, hrented, fun h => ?_⟩
  have hle := h 1
  rw [hrented, hnone, Set.ncard_empty] at hle
  omega

/-- An NFT stored at most once is never lost: its only copy is the first one. -/
theorem rentedCopies_le_of_stored_once (txs : List Tx) (k : UInt256)
    (honce : storesOf k (accepted transact deployed txs) ≤ 1) :
    (run transact deployed txs).rentedCopies k ≤ ((run transact deployed txs).holders k).ncard := by
  have hinv : ((run transact deployed txs).shelf k).Inv := shelfInv_run txs k
  rw [← copies_run, ← length_flags_shelf] at honce
  rw [← out_shelf]
  exact hinv.accounted_of_length_le_one honce

/-! ## Availability -/

section Availability

variable {s : State} {env : Env} {k : UInt256}

/-- An `endRental` that commits finds an entry of its id: its loop writes to the first
one and breaks. -/
theorem released_entries (hinv : ShelfInv s) (hactive : (s.rentals env.sender).active = true) :
    ∃ i nft, s.availableNfts.entries[i]? = some nft ∧
      nft.id = (s.rentals env.sender).nftId ∧
      (∀ j < i, ∀ nft', s.availableNfts.entries[j]? = some nft' →
        nft'.id ≠ (s.rentals env.sender).nftId) ∧
      (s.released env.sender).availableNfts.entries =
        s.availableNfts.entries.set i nft.release := by
  have hcopy : s.copies (s.rentals env.sender).nftId ≠ 0 := by
    rw [← length_flags_shelf, Ne, List.length_eq_zero_iff]
    exact (hinv _).flags_ne_nil ⟨hactive, rfl⟩
  have hany : s.availableNfts.entries.any (NFT.hasId (s.rentals env.sender).nftId) = true := by
    obtain ⟨nft, hnft, hid⟩ := List.countP_pos_iff.mp (Nat.pos_of_ne_zero hcopy)
    exact List.any_eq_true.mpr ⟨nft, hnft, hid⟩
  obtain ⟨i, nft, hx, hid, hbefore, hset⟩ :=
    FirstMatch.exists_updateFirst_eq_set hany NFT.release
  refine ⟨i, nft, hx, NFT.hasId_iff.mp hid, ?_, hset⟩
  intro j hj nft' hnft' heq
  have := hbefore j hj nft' hnft'
  rw [NFT.hasId_iff.mpr heq] at this
  cases this

/-- An id with a copy that is in is listed, and any idle address can rent it. -/
theorem rentable_of_free (h : false ∈ (s.shelf k).flags) :
    (∃ r, getAvailableNfts s = .ok r ∧ k ∈ r.entries) ∧
      ∀ env, (s.rentals env.sender).active = false → ∃ s', rentNft env k s = .ok s' := by
  have hmem : k ∈ s.available := mem_available_iff.mpr (false_mem_flags_iff.mp h)
  exact ⟨⟨_, getAvailableNfts_eq s, hmem⟩, fun env hidle => (rentNft_commits_iff hidle).mpr hmem⟩

end Availability

/-- **Nobody holds it, or it has just been returned: it can be rented.** In every state
reached by any run: an id that was stored and that no address has an active rental of is
listed, and any idle address can rent it; and an `endRental` by an address with an active
rental commits, finds an entry of the id it returns, and leaves that id listed and
rentable, whoever else still holds copies of it. -/
theorem rentable_of_no_holder_or_returned (txs : List Tx) :
    let s := run transact deployed txs
    (∀ k, (∃ tx ∈ accepted transact deployed txs, tx.call = .store k) →
      (∀ u, (s.rentals u).active = true → (s.rentals u).nftId ≠ k) →
      (∃ r, getAvailableNfts s = .ok r ∧ k ∈ r.entries) ∧
        ∀ env, (s.rentals env.sender).active = false → ∃ s', rentNft env k s = .ok s') ∧
    (∀ env k, (s.rentals env.sender).active = true → (s.rentals env.sender).nftId = k →
      ∃ s' i nft, endRental env s = .ok s' ∧
        s.availableNfts.entries[i]? = some nft ∧ nft.id = k ∧
        (∀ j < i, ∀ nft', s.availableNfts.entries[j]? = some nft' → nft'.id ≠ k) ∧
        s'.availableNfts.entries = s.availableNfts.entries.set i nft.release ∧
        (∃ r, getAvailableNfts s' = .ok r ∧ k ∈ r.entries) ∧
        ∀ env', (s'.rentals env'.sender).active = false →
          ∃ s'', rentNft env' k s' = .ok s'') := by
  intro s
  have hinv : ShelfInv s := shelfInv_run txs
  constructor
  · rintro k ⟨tx, htx, hstore⟩ hnone
    have hne : (s.shelf k).flags ≠ [] := by
      have hpos : 0 < storesOf k (accepted transact deployed txs) :=
        List.countP_pos_iff.mpr ⟨tx, htx, by simpa using hstore⟩
      rw [← copies_run, ← length_flags_shelf] at hpos
      exact List.length_pos_iff.mp hpos
    have hempty : (s.shelf k).holders = ∅ :=
      Set.eq_empty_of_forall_notMem fun u h => hnone u h.1 h.2
    exact rentable_of_free ((hinv k).free_of_no_holder hne hempty)
  · rintro env k hactive rfl
    obtain ⟨i, nft, hx, hid, hbefore, hset⟩ := released_entries hinv hactive
    refine ⟨_, i, nft, endRental_eq_ok_iff.mpr ⟨hactive, rfl⟩, hx, hid, hbefore, hset, ?_⟩
    apply rentable_of_free
    rw [shelf_released rfl]
    exact (hinv _).free_release ⟨hactive, rfl⟩

/-- Address `1` holds the only `5`, and nobody the `6`: that can be rented, and so can the `5`
once it has been returned. -/
theorem rentable_of_no_holder_or_returned_five :
    let s := run transact deployed
      [⟨⟨9, 10⟩, .store 5⟩, ⟨⟨9, 10⟩, .store 6⟩, ⟨⟨1, 11⟩, .rentNft 5⟩]
    (∃ s', rentNft ⟨2, 12⟩ 6 s = .ok s') ∧
      ∃ s' s'', endRental ⟨1, 13⟩ s = .ok s' ∧ rentNft ⟨2, 14⟩ 5 s' = .ok s'' := by
  intro s
  obtain ⟨hfree, hreturned⟩ := rentable_of_no_holder_or_returned
    [⟨⟨9, 10⟩, .store 5⟩, ⟨⟨9, 10⟩, .store 6⟩, ⟨⟨1, 11⟩, .rentNft 5⟩]
  have hnobody : ∀ u, (s.rentals u).active = true → (s.rentals u).nftId ≠ 6 := by
    intro u hactive
    have hrentals : s.rentals = Function.update deployed.rentals 1 ⟨5, 11, true⟩ := rfl
    rw [hrentals] at hactive ⊢
    by_cases hu : u = 1
    · rw [hu, Function.update_self]
      decide
    · rw [Function.update_of_ne hu] at hactive
      cases hactive
  obtain ⟨-, hsix⟩ := hfree 6 ⟨⟨⟨9, 10⟩, .store 6⟩, by decide, rfl⟩ hnobody
  obtain ⟨s', i, nft, hend, -, -, -, -, -, hfive⟩ := hreturned ⟨1, 13⟩ 5 rfl rfl
  obtain rfl : s.released 1 = s' := Except.ok.inj hend
  obtain ⟨s'', hrent⟩ := hfive ⟨2, 14⟩ rfl
  exact ⟨hsix ⟨2, 12⟩ rfl, _, s'', hend, hrent⟩

end NFTRentLight

end NftGame

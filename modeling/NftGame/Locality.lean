import NftGame.Expiry

/-!
# Every id on its own

The pool holds the entries of all ids in one array, and every address has one rental for
all ids. Still the ids have nothing to do with each other: what has happened to the copies
and the holders of `k` is decided by the committed transactions about `k` alone.

Take these out of a run (`concerning`) and replay them on a freshly deployed contract: all
of them commit again, and the contract is left with `s`'s entries of id `k` and `s`'s
rentals of `k`, and nothing else (`OnlyOf`, `each_id_on_its_own`).
-/

namespace NftGame

open Solidity Transaction

namespace NFTRentLight

/-- The transaction, if it is about `k`. -/
def concerning (k : UInt256) (s : State) (tx : Tx) : List Tx :=
  if s.idOf tx = k then [tx] else []

/-- The state `g` consists of what there is of `k` in `s`. -/
structure OnlyOf (k : UInt256) (s g : State) : Prop where
  /-- the copies of `k` -/
  entries : g.availableNfts.entries = s.availableNfts.entries.filter (NFT.hasId k)
  /-- the rentals of `k` -/
  holder : ∀ u ∈ s.holders k, g.rentals u = s.rentals u
  /-- nobody else has one -/
  idle : ∀ u ∉ s.holders k, (g.rentals u).active = false

section OnlyOf

variable {s s' g : State} {env : Env} {tx : Tx} {k : UInt256} {u : Address}

theorem onlyOf_deployed : OnlyOf k deployed deployed where
  entries := rfl
  holder := fun _ _ => rfl
  idle := fun _ _ => rfl

/-- A commit about another id leaves the entries of `k` alone. -/
theorem Commit.filter_of_ne (h : Commit s tx s') (hk : k ≠ s.idOf tx) :
    s'.availableNfts.entries.filter (NFT.hasId k) =
      s.availableNfts.entries.filter (NFT.hasId k) := by
  cases h with
  | @store env m pool hpush =>
    have hid : (⟨m, false⟩ : NFT).hasId k = false := NFT.hasId_of_ne hk (NFT.hasId_iff.mpr rfl)
    rw [DynArray.push_eq_ok hpush, List.filter_append, List.filter_cons_of_neg (by simp [hid]),
      List.filter_nil, List.append_nil]
  | rentNft hidle hfree =>
    rw [State.entries_rented]
    refine FirstMatch.filter_updateFirst_of_not fun nft hnft => ?_
    have hid := NFT.hasId_of_ne hk (NFT.hasId_of_isFree hnft)
    exact ⟨hid, hid⟩
  | endRental hactive =>
    rw [State.entries_released]
    refine FirstMatch.filter_updateFirst_of_not fun nft hnft => ?_
    have hid := NFT.hasId_of_ne hk hnft
    exact ⟨hid, hid⟩

/-- It leaves the rentals of `k` alone as well. -/
theorem Commit.rentals_of_holder (h : Commit s tx s') (hk : k ≠ s.idOf tx)
    (hu : u ∈ s.holders k) : s'.rentals u = s.rentals u := by
  by_cases hsender : u = tx.env.sender
  · subst hsender
    obtain ⟨hactive, hid⟩ := hu
    cases h with
    | store hpush => rfl
    | rentNft hidle hfree =>
      rw [hidle] at hactive
      cases hactive
    | endRental _ => exact absurd hid.symm hk
  · exact h.rentals_of_ne hsender

/-- **What is not about `k` does not show in what there is of `k`.** -/
theorem OnlyOf.commit_other (h : OnlyOf k s g) (hcommit : Commit s tx s')
    (hk : k ≠ s.idOf tx) : OnlyOf k s' g := by
  have hholders : s'.holders k = s.holders k :=
    congrArg CopyShelf.holders (hcommit.shelf_of_ne hk)
  refine ⟨?_, ?_, ?_⟩
  · rw [h.entries, hcommit.filter_of_ne hk]
  · intro u hu
    rw [hholders] at hu
    rw [h.holder u hu, hcommit.rentals_of_holder hk hu]
  · intro u hu
    rw [hholders] at hu
    exact h.idle u hu

theorem OnlyOf.store {pool : DynArray NFT} (h : OnlyOf k s g)
    (hpush : s.availableNfts.push ⟨k, false⟩ = .ok pool) :
    ∃ pool', g.availableNfts.push ⟨k, false⟩ = .ok pool' ∧
      OnlyOf k { s with availableNfts := pool } { g with availableNfts := pool' } := by
  -- there is room for the entry, the pool being no longer than that of `s`
  have hroom : g.availableNfts.length + 1 < maxArrayLength := by
    have hle : g.availableNfts.length ≤ s.availableNfts.length := by
      rw [DynArray.length, h.entries]
      exact List.length_filter_le ..
    have := DynArray.push_commits_iff.mp ⟨pool, hpush⟩
    omega
  obtain ⟨pool', hpush'⟩ := DynArray.push_commits_iff.mpr hroom
  refine ⟨pool', hpush', ?_, h.holder, h.idle⟩
  have hid : (⟨k, false⟩ : NFT).hasId k = true := NFT.hasId_iff.mpr rfl
  rw [DynArray.push_eq_ok hpush', DynArray.push_eq_ok hpush, List.filter_append,
    List.filter_cons_of_pos hid, List.filter_nil, h.entries]

theorem OnlyOf.rented (h : OnlyOf k s g) : OnlyOf k (s.rented env k) (g.rented env k) := by
  have hholders : (s.rented env k).holders k = insert env.sender (s.holders k) :=
    congrArg CopyShelf.holders shelf_rented
  refine ⟨?_, ?_, ?_⟩
  · rw [State.entries_rented, State.entries_rented, h.entries, FirstMatch.filter_updateFirst]
    intro nft hfree
    have hid := NFT.hasId_of_isFree hfree
    exact ⟨hid, hid⟩
  · intro u hu
    rw [hholders] at hu
    by_cases hsender : u = env.sender
    · subst hsender
      rw [State.rentals_rented_self, State.rentals_rented_self]
    · rw [State.rentals_rented_of_ne hsender, State.rentals_rented_of_ne hsender]
      exact h.holder u (Set.mem_of_mem_insert_of_ne hu hsender)
  · intro u hu
    rw [hholders, Set.mem_insert_iff, not_or] at hu
    rw [State.rentals_rented_of_ne hu.1]
    exact h.idle u hu.2

theorem OnlyOf.released (h : OnlyOf k s g) (hu : u ∈ s.holders k) :
    OnlyOf k (s.released u) (g.released u) := by
  obtain ⟨-, rfl⟩ := id hu
  have hrental := h.holder u hu
  have hholders :
      (s.released u).holders (s.rentals u).nftId = s.holders (s.rentals u).nftId \ {u} :=
    congrArg CopyShelf.holders (shelf_released rfl)
  refine ⟨?_, ?_, ?_⟩
  · rw [State.entries_released, State.entries_released, hrental, h.entries,
      FirstMatch.filter_updateFirst]
    intro nft hid
    exact ⟨hid, hid⟩
  · intro v hv
    rw [hholders] at hv
    rw [State.rentals_released_of_ne hv.2, State.rentals_released_of_ne hv.2]
    exact h.holder v hv.1
  · intro v hv
    by_cases hvu : v = u
    · subst hvu
      rw [State.rentals_released_self]
    · rw [State.rentals_released_of_ne hvu]
      rw [hholders] at hv
      exact h.idle v fun hholds => hv ⟨hholds, hvu⟩

/-- **What is about `k` commits there as well.** -/
theorem OnlyOf.commit_own (h : OnlyOf k s g) (hcommit : Commit s tx s') (hk : k = s.idOf tx) :
    ∃ g', transact tx g = .ok g' ∧ OnlyOf k s' g' := by
  cases hcommit with
  | @store env m pool hpush =>
    obtain rfl : k = m := hk
    obtain ⟨pool', hpush', hpool⟩ := h.store hpush
    exact ⟨_, transact_eq_ok_iff.mpr (.store hpush'), hpool⟩
  | @rentNft env m hidle hfree =>
    obtain rfl : k = m := hk
    have hfree' : g.availableNfts.entries.any (NFT.isFree k) = true := by
      rw [List.any_eq_true] at hfree ⊢
      obtain ⟨nft, hnft, hisFree⟩ := hfree
      refine ⟨nft, ?_, hisFree⟩
      rw [h.entries]
      exact List.mem_filter.mpr ⟨hnft, NFT.hasId_of_isFree hisFree⟩
    have hidle' : (g.rentals env.sender).active = false := h.idle _ (notMem_holders hidle)
    exact ⟨_, transact_eq_ok_iff.mpr (.rentNft hidle' hfree'), h.rented⟩
  | @endRental env hactive =>
    obtain rfl : k = (s.rentals env.sender).nftId := hk
    have hu : env.sender ∈ s.holders (s.rentals env.sender).nftId := ⟨hactive, rfl⟩
    have hactive' : (g.rentals env.sender).active = true := by rw [h.holder _ hu, hactive]
    exact ⟨_, transact_eq_ok_iff.mpr (.endRental hactive'), h.released hu⟩

/-- The listing of `g` is what the listing of `s` has of `k`. -/
theorem OnlyOf.available (h : OnlyOf k s g) :
    g.available = s.available.filter fun id => id = k := by
  rw [State.available, State.available, h.entries, List.filter_map, List.filter_filter,
    List.filter_filter]
  congr 1
  refine List.filter_congr fun nft _ => ?_
  simp [NFT.hasId, Bool.and_comm, Bool.beq_eq_decide_eq]

end OnlyOf

/-- **Every id lives on its own.** For every run and every id `k`, replay the committed
transactions of the run that are about `k` (`store(k)`, `rentNft(k)`, and `endRental` of a
rental of `k`) on the freshly deployed contract. All of them commit again, and the contract
is left with exactly the entries of id `k` of the whole run, in the same order and with the
same marks; with the rentals of `k`, field by field, and the access they give; and with no
other rental. It lists `k` as often. -/
theorem each_id_on_its_own (txs : List Tx) (k : UInt256) :
    let own := observed transact (concerning k) deployed txs
    let s := run transact deployed txs
    let g := run transact deployed own
    accepted transact deployed own = own ∧
    g.availableNfts.entries = s.availableNfts.entries.filter (fun nft => nft.id = k) ∧
    (∀ u, (s.rentals u).active = true → (s.rentals u).nftId = k →
      g.rentals u = s.rentals u ∧ ∀ t, checkAccess ⟨u, t⟩ g = checkAccess ⟨u, t⟩ s) ∧
    (∀ u, ¬ ((s.rentals u).active = true ∧ (s.rentals u).nftId = k) →
      (g.rentals u).active = false) ∧
    ∃ r rk, getAvailableNfts s = .ok r ∧ getAvailableNfts g = .ok rk ∧
      rk.entries = r.entries.filter fun id => id = k := by
  intro own s g
  have hstep : ∀ s g tx s', OnlyOf k s g → transact tx s = .ok s' →
      accepted transact g (concerning k s tx) = concerning k s tx ∧
        OnlyOf k s' (run transact g (concerning k s tx)) := by
    intro s g tx s' h hok
    have hcommit := transact_eq_ok_iff.mp hok
    by_cases hk : k = s.idOf tx
    · obtain ⟨g', hok', h'⟩ := h.commit_own hcommit hk
      rw [concerning, if_pos hk.symm, accepted_cons_ok hok', run_cons, exec_ok hok']
      exact ⟨rfl, h'⟩
    · rw [concerning, if_neg (Ne.symm hk)]
      exact ⟨rfl, h.commit_other hcommit hk⟩
  obtain ⟨hacc, h⟩ := observed_simulates hstep onlyOf_deployed txs
  have hduration : g.rentalDuration = s.rentalDuration :=
    (rentalDuration_run own).trans (rentalDuration_run txs).symm
  refine ⟨hacc, h.entries, fun u hactive hid => ?_, h.idle, ?_⟩
  · have hrental : g.rentals u = s.rentals u := h.holder u ⟨hactive, hid⟩
    exact ⟨hrental, fun t => checkAccess_congr hrental hduration⟩
  · exact ⟨_, _, getAvailableNfts_eq s, getAvailableNfts_eq g, h.available⟩

end NFTRentLight

end NftGame

import NftGame.Commute
import NftGame.Copies

/-!
# Rent followed by return

A user rents a copy of `k`, other users do something about other ids, and the user
returns the copy. `rentNft` marked the first *free* copy of `k`, and `endRental` unmarks
the first copy of any kind, so with several copies the pool need not be what it was. But
the number of free copies is (`CopyShelf.free_rent_release`), and nobody else can tell
that anything happened.

The proof compares two runs of the others' calls, from the state with the rental and
from the state without it. The rental commutes with each of the calls, so it is still
the only difference at the end (`run_with_rental`).
-/

namespace NftGame

open Solidity Transaction FirstMatch

namespace NFTRentLight

/-- A transaction of somebody other than `u`, about ids other than `k`. -/
def Foreign (u : Address) (k : UInt256) (s : State) (tx : Tx) : Prop :=
  tx.env.sender ≠ u ∧ ¬ s.Concerns tx k

instance (u : Address) (k : UInt256) (s : State) (tx : Tx) : Decidable (Foreign u k s tx) :=
  inferInstanceAs (Decidable (_ ∧ _))

section Foreign

variable {s s₁ s₂ : State} {env : Env} {tx : Tx} {k : UInt256} {u : Address}

/-- A commit that does not concern `k` leaves the shelf of `k` alone. -/
theorem Commit.shelf_of_not_concerns (h : Commit s tx s₁) (hk : ¬ s.Concerns tx k) :
    s₁.shelf k = s.shelf k := by
  apply h.shelf_of_ne
  rintro rfl
  exact hk h.concerns

/-- A rental of `u` does not change what other users' transactions are about. -/
theorem Foreign.of_rented (h : Foreign env.sender k (s.rented env k) tx) :
    Foreign env.sender k s tx := by
  obtain ⟨hne, hconcerns⟩ := h
  have hrental : (s.rented env k).rentals tx.env.sender = s.rentals tx.env.sender :=
    State.rentals_rented_of_ne hne
  exact ⟨hne, mt (concerns_congr hrental).mpr hconcerns⟩

/-- A foreign transaction is apart from `u`'s rental of `k`. -/
theorem Foreign.apart (h : Foreign env.sender k s tx) : Apart s ⟨env, .rentNft k⟩ tx where
  senders := .inr (.inr h.1.symm)
  stores := fun hboth => Bool.false_ne_true hboth.1
  ids := .inr fun m hm => by
    obtain ⟨rfl, -⟩ : k = m ∧ _ := hm
    exact h.2

/-- The state `s₁` is `s₂` with a rental of `k` on top, and `k` stands in `s₂` as it stood
in `s`. -/
structure RentalAhead (s : State) (env : Env) (k : UInt256) (s₁ s₂ : State) : Prop where
  /-- the rental could be made up for now -/
  rented : rentNft env k s₂ = .ok s₁
  /-- nothing has happened to the shelf of `k` -/
  shelf : s₂.shelf k = s.shelf k

/-- One foreign transaction, with the rental and without. -/
theorem RentalAhead.exec (h : RentalAhead s env k s₁ s₂) (htx : Foreign env.sender k s₁ tx) :
    RentalAhead s env k (exec transact s₁ tx) (exec transact s₂ tx) where
  rented := by
    obtain ⟨-, -, rfl⟩ := rentNft_eq_ok_iff.mp h.rented
    exact htx.of_rented.apart.commutesAt.step_ok h.rented
  shelf := by
    obtain ⟨-, -, rfl⟩ := rentNft_eq_ok_iff.mp h.rented
    refine exec_invariant (I := fun s' : State => s'.shelf k = s.shelf k) h.shelf ?_
    intro s' hok
    rw [(transact_eq_ok_iff.mp hok).shelf_of_not_concerns htx.of_rented.2, h.shelf]

/-- **Foreign transactions run the same with the rental and without**, and it is the only
difference at the end. -/
theorem run_with_rental (hrent : rentNft env k s = .ok s₁) {others : List Tx}
    (hothers : Along transact (Foreign env.sender k) s₁ others) :
    RentalAhead s env k (run transact s₁ others) (run transact s others) :=
  run_lockstep (R := RentalAhead s env k) (fun _ _ _ htx h => h.exec htx) hothers
    ⟨hrent, rfl⟩

end Foreign

/-- **Rent followed by return is neutral for availability.** From every state, let a user
commit a `rentNft(k)`, let other users make any calls about other ids, and let the user
call `endRental`. That call commits, and the user is idle again; `k` is listed as often
as at the start; and compared with what the others' calls alone would have led to from
the start, the pool has the same ids in the same places, the same entries of all ids but
`k`, and every other user has the same rental. -/
theorem rent_return_is_neutral {s s₁ : State} {env env' : Env} {k : UInt256}
    {others : List Tx} (hrent : rentNft env k s = .ok s₁)
    (hothers : Along transact (Foreign env.sender k) s₁ others)
    (hsender : env'.sender = env.sender) :
    let alone := run transact s others
    ∃ s₂, endRental env' (run transact s₁ others) = .ok s₂ ∧
      (s₂.rentals env.sender).active = false ∧
      (∃ r r₂, getAvailableNfts s = .ok r ∧ getAvailableNfts s₂ = .ok r₂ ∧
        r₂.entries.count k = r.entries.count k) ∧
      s₂.availableNfts.entries.map NFT.id = alone.availableNfts.entries.map NFT.id ∧
      (∀ (i : ℕ) (nft : NFT), nft.id ≠ k →
        (s₂.availableNfts.entries[i]? = some nft ↔
          alone.availableNfts.entries[i]? = some nft)) ∧
      ∀ v, v ≠ env.sender → s₂.rentals v = alone.rentals v := by
  intro alone
  obtain ⟨hahead, hshelf⟩ := run_with_rental hrent hothers
  obtain ⟨-, -, hrun⟩ := rentNft_eq_ok_iff.mp hahead
  rw [hrun]
  have hrental : (alone.rented env k).rentals env'.sender = ⟨k, env.timestamp, true⟩ := by
    rw [hsender, State.rentals_rented_self]
  have hk : ((alone.rented env k).rentals env.sender).nftId = k := by
    rw [State.rentals_rented_self]
  refine ⟨(alone.rented env k).released env.sender, ?_, ?_, ?_, ?_, ?_, ?_⟩
  · rw [endRental_eq, hrental, if_pos rfl, hsender]
  · rw [State.rentals_released_self]
  · refine ⟨_, _, getAvailableNfts_eq s, getAvailableNfts_eq _, ?_⟩
    obtain ⟨-, hfree, -⟩ := rentNft_eq_ok_iff.mp hrent
    have hin : false ∈ (s.shelf k).flags := false_mem_flags_iff.mpr hfree
    have hshelf' : alone.shelf k = s.shelf k := hshelf
    rw [entries_listing, entries_listing, ← free_shelf, ← free_shelf, shelf_released hk,
      shelf_rented, hshelf', CopyShelf.free_rent_release hin]
  · rw [State.ids_released, State.ids_rented]
  · intro i nft hne
    -- both updates concern entries of id `k`, before and after
    have hid : nft.hasId k = false := Bool.eq_false_iff.mpr (mt NFT.hasId_iff.mp hne)
    rw [State.entries_released, hk, getElem?_updateFirst_iff hid, State.entries_rented,
      getElem?_updateFirst_iff (NFT.isFree_of_id_ne hne)]
    · rintro nft' hfree rfl
      obtain ⟨hid', -⟩ := NFT.isFree_iff.mp hfree
      exact hne hid'
    · rintro nft' hfound rfl
      exact hne (NFT.hasId_iff.mp hfound)
  · intro v hv
    rw [State.rentals_released_of_ne hv, State.rentals_rented_of_ne hv]

/-- Address `1` takes the second of two copies of `5` while `2` holds the first, and gives
the first one back; in between `3` rents a `6`, which `2` does not get, and a `7` is
stored. -/
theorem rent_return_is_neutral_two_copies :
    let s := run transact deployed [⟨⟨9, 10⟩, .store 5⟩, ⟨⟨9, 10⟩, .store 6⟩,
      ⟨⟨9, 10⟩, .store 5⟩, ⟨⟨2, 11⟩, .rentNft 5⟩]
    let s₁ := s.rented ⟨1, 12⟩ 5
    let others : List Tx := [⟨⟨3, 13⟩, .rentNft 6⟩, ⟨⟨2, 14⟩, .rentNft 6⟩, ⟨⟨4, 15⟩, .store 7⟩]
    ∃ s₂, endRental ⟨1, 20⟩ (run transact s₁ others) = .ok s₂ ∧
      s₂.rentals 3 = (run transact s others).rentals 3 ∧
      ∃ r r₂, getAvailableNfts s = .ok r ∧ getAvailableNfts s₂ = .ok r₂ ∧
        r.entries.count 5 = 1 ∧ r₂.entries.count 5 = 1 := by
  intro s s₁ others
  have hrent : rentNft ⟨1, 12⟩ 5 s = .ok s₁ := rfl
  have hothers : Along transact (Foreign 1 5) s₁ others := by decide
  have hsender : (⟨1, 20⟩ : Env).sender = (⟨1, 12⟩ : Env).sender := rfl
  obtain ⟨s₂, hend, -, ⟨r, r₂, hr, hr₂, hcount⟩, -, -, hrentals⟩ :=
    rent_return_is_neutral hrent hothers hsender
  have hbefore : (getAvailableNfts s).map (·.entries.count 5) = .ok 1 := by decide
  rw [hr] at hbefore
  have hone : r.entries.count 5 = 1 := Except.ok.inj hbefore
  exact ⟨s₂, hend, hrentals 3 (by decide), r, r₂, hr, hr₂, hone, hcount.trans hone⟩

end NFTRentLight

end NftGame

import NftGame.Copies

/-!
# Expired is not ended

A rental is over when its time is up, and it is over when its holder ends it. Only the
two access views compare times (`checkAccess`, `getUserNfts`): to them an expired rental
and an ended one are the same (`checkAccess_released_of_expired`). The guard of
`rentNft` and the flags of the pool know nothing of time, and so an expired rental goes
on blocking its holder until `endRental` is called.

`IndistinguishableAt` says that no call made at one block time tells two states apart.
The state before the `endRental` of an expired rental and the state after it are never
indistinguishable (`expired_distinguishable`).
-/

namespace NftGame

open Solidity Transaction

namespace NFTRentLight

/-- No call made at time `t` tells `s` and `s'` apart. -/
structure IndistinguishableAt (t : UInt256) (s s' : State) : Prop where
  /-- the same rentals succeed -/
  rentNft : ∀ v k, (∃ s₁, rentNft ⟨v, t⟩ k s = .ok s₁) ↔ ∃ s₁, rentNft ⟨v, t⟩ k s' = .ok s₁
  /-- everybody has access to the same NFT -/
  checkAccess : ∀ v, checkAccess ⟨v, t⟩ s = checkAccess ⟨v, t⟩ s'
  /-- everybody is shown the same NFT -/
  getUserNfts : ∀ v, getUserNfts ⟨v, t⟩ s = getUserNfts ⟨v, t⟩ s'
  /-- the same NFTs are listed -/
  getAvailableNfts : getAvailableNfts s = getAvailableNfts s'

/-- The rental of `u` is active, and its time is up at `t`. -/
def State.Expired (s : State) (u : Address) (t : UInt256) : Prop :=
  (s.rentals u).active = true ∧
    (s.rentals u).startTime.toNat + s.rentalDuration.toNat < t.toNat

section Expired

variable {s : State} {u v : Address} {t : UInt256}

/-- An expired rental gives no access. -/
theorem State.Expired.not_valid (h : s.Expired u t) : ¬ s.Valid u t := by
  obtain ⟨-, hlt⟩ := h
  rintro ⟨-, hle⟩
  omega

/-- The access view of an address depends on nothing but its rental and the duration. -/
theorem checkAccess_congr {s' : State} (hrental : s'.rentals v = s.rentals v)
    (hduration : s'.rentalDuration = s.rentalDuration) :
    checkAccess ⟨v, t⟩ s' = checkAccess ⟨v, t⟩ s := by
  rw [checkAccess, checkAccess, hrental, hduration]

/-- **To the access views an expired rental is an ended one.** -/
theorem checkAccess_released_of_expired (h : s.Expired u t) (v : Address) :
    checkAccess ⟨v, t⟩ (s.released u) = checkAccess ⟨v, t⟩ s := by
  by_cases hv : v = u
  · subst hv
    have hnot := h.not_valid
    obtain ⟨-, hlt⟩ := h
    have hbound := t.isLt
    have hexpired : checkAccess ⟨v, t⟩ s = .ok 0 :=
      (checkAccess_eq (by dsimp only; omega)).trans (by rw [if_neg hnot])
    rw [hexpired]
    apply checkAccess_of_inactive
    rw [State.rentals_released_self]
  · exact checkAccess_congr (State.rentals_released_of_ne hv) rfl

/-- The holder of an active rental cannot rent, whether its time is up or not. -/
theorem rentNft_of_active (h : (s.rentals u).active = true) (k : UInt256) :
    rentNft ⟨u, t⟩ k s = .error (.error "Already renting") := by
  rw [rentNft_eq, if_pos h]

/-- One who has just returned a copy of an id can rent that id again. -/
theorem rentNft_released (hinv : ShelfInv s) (h : (s.rentals u).active = true) :
    ∃ s', rentNft ⟨u, t⟩ (s.rentals u).nftId (s.released u) = .ok s' := by
  have hfree : false ∈ ((s.released u).shelf (s.rentals u).nftId).flags := by
    rw [shelf_released rfl]
    exact (hinv _).free_release ⟨h, rfl⟩
  obtain ⟨-, hrentable⟩ := rentable_of_free hfree
  apply hrentable ⟨u, t⟩
  rw [State.rentals_released_self]

end Expired

/-- **An expired rental never behaves as an ended one.** In every state reached by any
run, whoever ends a rental whose time is up can be told apart from before: the access
views agree, but before the call every `rentNft` of theirs reverts, and after it they
can rent the same id again. -/
theorem expired_distinguishable (txs : List Tx) {u : Address} {t : UInt256} {s' : State}
    (hexpired : (run transact deployed txs).Expired u t)
    (hend : endRental ⟨u, t⟩ (run transact deployed txs) = .ok s') :
    ¬ IndistinguishableAt t (run transact deployed txs) s' ∧
      (∀ v, checkAccess ⟨v, t⟩ s' = checkAccess ⟨v, t⟩ (run transact deployed txs) ∧
        getUserNfts ⟨v, t⟩ s' = getUserNfts ⟨v, t⟩ (run transact deployed txs)) ∧
      (∀ k, rentNft ⟨u, t⟩ k (run transact deployed txs) =
        .error (.error "Already renting")) ∧
      ∃ k s₁, rentNft ⟨u, t⟩ k s' = .ok s₁ := by
  obtain ⟨hactive, rfl⟩ := endRental_eq_ok_iff.mp hend
  have hblocked := fun k => rentNft_of_active (t := t) hactive k
  have hagain := rentNft_released (t := t) (shelfInv_run txs) hactive
  refine ⟨fun hsame => ?_, fun v => ?_, hblocked, _, hagain⟩
  · obtain ⟨s₁, hrent⟩ := (hsame.rentNft u _).mpr hagain
    rw [hblocked] at hrent
    cases hrent
  · have hview := checkAccess_released_of_expired hexpired v
    exact ⟨hview, by rw [getUserNfts_eq, getUserNfts_eq, hview]⟩

/-- An NFT is stored and rented; nothing else happens. -/
def expiringRun : List Tx := [⟨⟨1, 1000⟩, .store 1⟩, ⟨⟨1, 1000⟩, .rentNft 1⟩]

theorem expired_distinguishable_expiringRun :
    ∃ s', endRental ⟨1, 1301⟩ (run transact deployed expiringRun) = .ok s' ∧
      ¬ IndistinguishableAt 1301 (run transact deployed expiringRun) s' := by
  have hexpired : (run transact deployed expiringRun).Expired 1 1301 :=
    ⟨by decide, by decide⟩
  exact ⟨_, rfl, (expired_distinguishable expiringRun hexpired rfl).1⟩

/-- One second after the rental of `expiringRun` has run out, neither its holder nor
anybody else can rent the NFT, and it is not listed; once the holder has called
`endRental`, it is listed and both can. -/
theorem expiringRun_blocks :
    let s := run transact deployed expiringRun
    s.Expired 1 1301 ∧
      ∃ s', endRental ⟨1, 1301⟩ s = .ok s' ∧
        ¬ IndistinguishableAt 1301 s s' ∧
        rentNft ⟨1, 1301⟩ 1 s = .error (.error "Already renting") ∧
        rentNft ⟨2, 1301⟩ 1 s = .error (.error "NFT not available") ∧
        s.available = [] ∧ s'.available = [1] ∧
        (∃ s₁, rentNft ⟨1, 1301⟩ 1 s' = .ok s₁) ∧
        ∃ s₂, rentNft ⟨2, 1301⟩ 1 s' = .ok s₂ := by
  intro s
  refine ⟨⟨by decide, by decide⟩, _, rfl, ?_, rfl, rfl, rfl, rfl, ⟨_, rfl⟩, ⟨_, rfl⟩⟩
  intro hsame
  obtain ⟨s₁, hrent⟩ := (hsame.rentNft 2 1).mpr ⟨_, rfl⟩
  cases hrent

end NFTRentLight

end NftGame

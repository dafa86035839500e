import NftGame.Operations
import NftGame.RentContract

/-!
# The pool contract refines the contract without a pool

Forgetting the pool turns a state of the pool contract into one of the contract without
(`State.forgetPool`). A committed `rentNft` or `endRental` is then the corresponding call
of the simpler contract, and a `store` is nothing at all (`Tx.replay?`). Calls that
revert are not replayed: the simpler contract has no pool to be empty, so it would accept
some of them.

The pool contract adds one thing on the side of the views: there a rental gives access
for `rentalDuration` only.
-/

namespace NftGame

open Solidity Transaction

namespace NFTRentLight

/-- The rental, as the contract without a pool stores it. -/
def Rental.forgetPool (r : Rental) : RentContract.Rental := ⟨r.nftId, r.startTime, r.active⟩

/-- The state without its pool. -/
def State.forgetPool (s : State) : RentContract.State :=
  ⟨Rental.forgetPool ∘ s.rentals⟩

/-- The call of the contract without a pool that a transaction corresponds to. -/
def Tx.replay? (tx : Tx) : Option RentContract.Tx :=
  match tx.call with
  | .store _ => none
  | .rentNft k => some ⟨tx.env, .rentGame k⟩
  | .endRental => some ⟨tx.env, .endRental⟩

section Simulation

variable {s s' : State} {tx : Tx} {env : Env} {k : UInt256} {u : Address}

theorem forgetPool_rented :
    (s.rented env k).forgetPool =
      ⟨Function.update s.forgetPool.rentals env.sender ⟨k, env.timestamp, true⟩⟩ := by
  ext1
  exact Function.comp_update Rental.forgetPool s.rentals env.sender _

theorem forgetPool_released :
    (s.released u).forgetPool =
      ⟨Function.update s.forgetPool.rentals u
        { s.forgetPool.rentals u with active := false }⟩ := by
  ext1
  exact Function.comp_update Rental.forgetPool s.rentals u _

/-- A transaction that is not replayed leaves the rentals alone. -/
theorem Commit.forgetPool_of_none (h : Commit s tx s') (hnone : tx.replay? = none) :
    s'.forgetPool = s.forgetPool := by
  cases h with
  | store hpush => rfl
  | rentNft hidle hfree => cases hnone
  | endRental hactive => cases hnone

/-- A transaction that is replayed commits there, and leads to the same rentals. -/
theorem Commit.forgetPool_of_some (h : Commit s tx s') {tx' : RentContract.Tx}
    (hsome : tx.replay? = some tx') :
    RentContract.transact tx' s.forgetPool = .ok s'.forgetPool := by
  cases h with
  | store hpush => cases hsome
  | rentNft hidle hfree =>
    obtain rfl := Option.some.inj hsome
    rw [forgetPool_rented]
    exact RentContract.rentGame_of_idle hidle _
  | endRental hactive =>
    obtain rfl := Option.some.inj hsome
    rw [forgetPool_released]
    exact RentContract.endRental_of_active hactive

/-- **Simulation**: the replayed transactions of a run all commit, and lead to the final
state without its pool. -/
theorem replay_run (txs : List Tx) :
    let replay := (accepted transact deployed txs).filterMap Tx.replay?
    accepted RentContract.transact RentContract.deployed replay = replay ∧
      run RentContract.transact RentContract.deployed replay =
        (run transact deployed txs).forgetPool := by
  have hnone : ∀ (s : State) g tx s', tx.replay? = none → g = s.forgetPool →
      transact tx s = .ok s' → g = s'.forgetPool := by
    rintro s _ tx s' hnone rfl h
    exact ((transact_eq_ok_iff.mp h).forgetPool_of_none hnone).symm
  have hsome : ∀ (s : State) g tx tx' s', tx.replay? = some tx' → g = s.forgetPool →
      transact tx s = .ok s' →
      ∃ g', RentContract.transact tx' g = .ok g' ∧ g' = s'.forgetPool := by
    rintro s _ tx tx' s' hsome rfl h
    exact ⟨_, (transact_eq_ok_iff.mp h).forgetPool_of_some hsome, rfl⟩
  have hdeployed : RentContract.deployed = deployed.forgetPool := rfl
  exact accepted_simulates (R := fun (s : State) g => g = s.forgetPool) hnone hsome hdeployed txs

end Simulation

/-- **The pool contract refines the contract without a pool.** Take the committed
`rentNft` and `endRental` calls of any run, and replay them as `rentGame` and `endRental`
calls with the same senders and times on the freshly deployed contract without a pool:
all of them commit, and at the end both contracts have the same rentals, field by field.
With block times below `2 ^ 64`, `checkAccess` then answers the same on both as long as
`t` is at most `startTime + rentalDuration`, and `0` on the pool contract from then on;
the start times shown are the same. -/
theorem refines_rentContract (txs : List Tx) :
    let s := run transact deployed txs
    let replay := (accepted transact deployed txs).filterMap Tx.replay?
    let g := run RentContract.transact RentContract.deployed replay
    accepted RentContract.transact RentContract.deployed replay = replay ∧
    (∀ u, (s.rentals u).nftId = (g.rentals u).gameId ∧
      (s.rentals u).startTime = (g.rentals u).startTime ∧
      (s.rentals u).active = (g.rentals u).active) ∧
    (∀ u t, getUserStartTime ⟨u, t⟩ s = RentContract.getUserStartTime ⟨u, t⟩ g) ∧
    ((∀ tx ∈ txs, tx.env.timestamp.toNat < 2 ^ 64) → ∀ u t,
      (t.toNat ≤ (s.rentals u).startTime.toNat + s.rentalDuration.toNat →
        checkAccess ⟨u, t⟩ s = RentContract.checkAccess ⟨u, t⟩ g) ∧
      (¬ t.toNat ≤ (s.rentals u).startTime.toNat + s.rentalDuration.toNat →
        checkAccess ⟨u, t⟩ s = .ok 0)) := by
  intro s replay g
  obtain ⟨hacc, hrun⟩ := replay_run txs
  have hg : g = s.forgetPool := hrun
  rw [hg]
  refine ⟨hacc, fun u => ⟨rfl, rfl, rfl⟩, fun u t => rfl, ?_⟩
  intro htimes u t
  have hview : checkAccess ⟨u, t⟩ s = .ok (if s.Valid u t then (s.rentals u).nftId else 0) :=
    checkAccess_eq (expiry_run_lt htimes u)
  rw [hview, RentContract.checkAccess_eq]
  refine ⟨fun hle => ?_, fun hgt => ?_⟩
  · -- within the window, access is up to the `active` flag alone
    exact congrArg Except.ok (if_congr (and_iff_left hle) rfl rfl)
  · rw [if_neg fun hvalid => hgt hvalid.2]

/-- A run with a `store`, a reverted call and a rental that has not run out: both contracts
grant access at its end. -/
theorem refines_rentContract_rental :
    let txs : List Tx := [⟨⟨1, 1000⟩, .store 7⟩, ⟨⟨1, 1000⟩, .rentNft 7⟩,
      ⟨⟨2, 1050⟩, .rentNft 7⟩]
    checkAccess ⟨1, 1300⟩ (run transact deployed txs) = .ok 7 ∧
      RentContract.checkAccess ⟨1, 1300⟩ (run RentContract.transact RentContract.deployed
        ((accepted transact deployed txs).filterMap Tx.replay?)) = .ok 7 := by
  intro txs
  obtain ⟨-, -, -, haccess⟩ := refines_rentContract txs
  have hsame := (haccess (by decide) 1 1300).1 (by decide)
  have hpool : checkAccess ⟨1, 1300⟩ (run transact deployed txs) = .ok 7 := by decide
  exact ⟨hpool, hsame.symm.trans hpool⟩

end NFTRentLight

end NftGame

import NftGame.Access
import NftGame.Copies
import NftGame.RentContract

/-!
# What a zero answer means

The access views of both contracts answer with the id of the rented NFT, and with `0` if
there is none. But `0` is an id like any other: `store(0)` puts it into the pool, and
`rentNft(0)` and `rentGame(0)` rent it out. Somebody who holds it is told `0` too.

So a `0` means "no access" in exactly the states in which nobody holds the id `0`
(`zeroMeansNone_iff_unheld`), and throughout a run exactly if none of its transactions
rents it (`zeroMeansNone_iff_none_rented`). For the pool contract it is enough that `0`
is never stored (`zeroMeansNone_of_not_stored`).
-/

namespace NftGame

open Solidity Transaction

/-- An answer that stands for "none" can be relied on exactly if it is never a value. -/
theorem ite_eq_right_iff_not {α : Type*} {p : Prop} [Decidable p] {x z : α} :
    ((if p then x else z) = z ↔ ¬ p) ↔ (p → x ≠ z) := by
  rw [ite_eq_right_iff]
  refine ⟨fun h hp hx => h.mp (fun _ => hx) hp, fun h => ⟨fun hz hp => h hp (hz hp), ?_⟩⟩
  intro hp hp'
  exact absurd hp' hp

/-! ## The contract without a pool -/

namespace RentContract

/-- To every user a zero answer means no active rental, and nothing else. -/
def ZeroMeansNone (s : State) : Prop :=
  ∀ u t, checkAccess ⟨u, t⟩ s = .ok 0 ↔ ¬ (s.rentals u).active = true

/-- The transaction does not rent out the id `0`: it is no `rentGame(0)`, or its sender
is renting already. -/
def RentsNonzero (s : State) (tx : Tx) : Prop :=
  tx.call = .rentGame 0 → (s.rentals tx.env.sender).active = true

instance (s : State) (tx : Tx) : Decidable (RentsNonzero s tx) :=
  inferInstanceAs (Decidable (_ → _))

/-- A zero answer can be relied on exactly if nobody holds the id `0`. -/
theorem zeroMeansNone_iff_unheld {s : State} :
    ZeroMeansNone s ↔ ∀ u, ¬ (s.rentals u).lease.Holds 0 := by
  simp only [ZeroMeansNone, checkAccess_eq, Except.ok.injEq, ite_eq_right_iff_not]
  refine ⟨fun h u => ?_, fun h u t hactive hzero => h u ⟨hactive, hzero⟩⟩
  rintro ⟨hactive, hzero⟩
  exact h u 0 hactive hzero

/-- The transactions that commit as a rental of `0`. -/
theorem rentsNonzero_iff (s : State) (tx : Tx) :
    RentsNonzero s tx ↔
      ∀ s', transact tx s = .ok s' → ∀ u t, tx.event? u ≠ some (.take 0 t) := by
  obtain ⟨env, call⟩ := tx
  refine ⟨fun h s' hok u t hevent => ?_, fun h hcall => ?_⟩
  · obtain ⟨-, rfl, -⟩ := event?_eq_take_iff.mp hevent
    obtain ⟨hidle, -⟩ := rentGame_eq_ok_iff.mp hok
    have hactive := h rfl
    rw [hidle] at hactive
    cases hactive
  · obtain rfl : call = .rentGame 0 := hcall
    rcases hactive : (s.rentals env.sender).active with - | -
    · have htake := h _ (transact_eq_ok_iff.mpr (.rentGame hactive)) env.sender env.timestamp
      exact absurd (event?_eq_take_iff.mpr ⟨rfl, rfl, rfl⟩) htake
    · rfl

/-- **Throughout a run a zero answer can be relied on exactly if the run does not rent out
the id `0`.** -/
theorem prefix_zeroMeansNone_iff (txs : List Tx) :
    (∀ pre, pre <+: txs → ZeroMeansNone (run transact deployed pre)) ↔
      Along transact RentsNonzero deployed txs := by
  have hdeployed : ∀ u, ¬ (deployed.rentals u).lease.Holds 0 :=
    fun u => Lease.not_holds_of_inactive rfl
  rw [← onLedger.prefix_unheld_iff rentsNonzero_iff hdeployed]
  simp only [zeroMeansNone_iff_unheld]

end RentContract

/-! ## The contract with the pool -/

namespace NFTRentLight

/-- To every user and at every time, a zero answer of either access view means no access,
and nothing else. -/
def ZeroMeansNone (s : State) : Prop :=
  ∀ u (t : UInt256), t.toNat < 2 ^ 64 →
    (checkAccess ⟨u, t⟩ s = .ok 0 ↔ ¬ s.Valid u t) ∧
      (getUserNfts ⟨u, t⟩ s = .ok 0 ↔ ¬ s.Valid u t)

/-- The transaction does not rent out the id `0`: it is no `rentNft(0)`, or its sender is
renting already, or there is no free entry of id `0`. -/
def RentsNonzero (s : State) (tx : Tx) : Prop :=
  tx.call = .rentNft 0 → (s.rentals tx.env.sender).active = true ∨
    s.availableNfts.entries.any (NFT.isFree 0) = false

instance (s : State) (tx : Tx) : Decidable (RentsNonzero s tx) :=
  inferInstanceAs (Decidable (_ → _))

section Zero

variable {s : State}

/-- A zero answer can be relied on exactly if nobody holds the id `0`. -/
theorem zeroMeansNone_iff_unheld (hstart : ∀ u, (s.rentals u).startTime.toNat < 2 ^ 64)
    (hexpiry : ∀ u, (s.rentals u).startTime.toNat + s.rentalDuration.toNat < 2 ^ 256) :
    ZeroMeansNone s ↔ ∀ u, ¬ (s.rentals u).lease.Holds 0 := by
  have hview : ∀ u t, (checkAccess ⟨u, t⟩ s = .ok 0 ↔ ¬ s.Valid u t) ↔
      (s.Valid u t → (s.rentals u).nftId ≠ 0) := by
    intro u t
    have hcheck : checkAccess ⟨u, t⟩ s =
        .ok (if s.Valid u t then (s.rentals u).nftId else 0) := checkAccess_eq (hexpiry u)
    rw [hcheck, Except.ok.injEq]
    exact ite_eq_right_iff_not
  simp only [ZeroMeansNone, getUserNfts_eq, and_self, hview]
  refine ⟨fun h u => ?_, fun h u t _ hvalid hzero => ?_⟩
  · -- a holder has access at least at the moment the rental starts
    rintro ⟨hactive, hzero⟩
    exact h u _ (hstart u) ⟨hactive, Nat.le_add_right ..⟩ hzero
  · obtain ⟨hactive, -⟩ := hvalid
    exact h u ⟨hactive, hzero⟩

/-- The transactions that commit as a rental of `0`. -/
theorem rentsNonzero_iff (s : State) (tx : Tx) :
    RentsNonzero s tx ↔
      ∀ s', transact tx s = .ok s' → ∀ u t, tx.event? u ≠ some (.take 0 t) := by
  obtain ⟨env, call⟩ := tx
  refine ⟨fun h s' hok u t hevent => ?_, fun h hcall => ?_⟩
  · obtain ⟨-, rfl, -⟩ := event?_eq_take_iff.mp hevent
    obtain ⟨hidle, hfree, -⟩ := rentNft_eq_ok_iff.mp hok
    rcases h rfl with hactive | hnone
    · rw [hidle] at hactive
      cases hactive
    · rw [hfree] at hnone
      cases hnone
  · obtain rfl : call = .rentNft 0 := hcall
    rcases hactive : (s.rentals env.sender).active with - | -
    · rcases hfree : s.availableNfts.entries.any (NFT.isFree 0) with - | -
      · exact .inr rfl
      · have htake := h _ (transact_eq_ok_iff.mpr (.rentNft hactive hfree)) env.sender
          env.timestamp
        exact absurd (event?_eq_take_iff.mpr ⟨rfl, rfl, rfl⟩) htake
    · exact .inl rfl

end Zero

/-- In a run whose block times stay below `2 ^ 64`, a zero answer can be relied on exactly
if nobody holds the id `0`. -/
theorem zeroMeansNone_run_iff {txs : List Tx}
    (htimes : ∀ tx ∈ txs, tx.env.timestamp.toNat < 2 ^ 64) :
    ZeroMeansNone (run transact deployed txs) ↔
      ∀ u, ¬ ((run transact deployed txs).rentals u).lease.Holds 0 :=
  zeroMeansNone_iff_unheld (startTime_run_lt (Nat.two_pow_pos 64) htimes)
    (expiry_run_lt htimes)

/-- **Throughout a run a zero answer can be relied on exactly if the run does not rent out
the id `0`.** -/
theorem prefix_zeroMeansNone_iff {txs : List Tx}
    (htimes : ∀ tx ∈ txs, tx.env.timestamp.toNat < 2 ^ 64) :
    (∀ pre, pre <+: txs → ZeroMeansNone (run transact deployed pre)) ↔
      Along transact RentsNonzero deployed txs := by
  have hdeployed : ∀ u, ¬ (deployed.rentals u).lease.Holds 0 :=
    fun u => Lease.not_holds_of_inactive rfl
  rw [← onLedger.prefix_unheld_iff rentsNonzero_iff hdeployed]
  refine forall₂_congr fun pre hpre => ?_
  exact zeroMeansNone_run_iff fun tx htx => htimes tx (hpre.subset htx)

/-- If `0` is never stored, nobody ever holds it, and a zero answer can be relied on. -/
theorem zeroMeansNone_of_not_stored {txs : List Tx}
    (htimes : ∀ tx ∈ txs, tx.env.timestamp.toNat < 2 ^ 64)
    (hstore : ∀ tx ∈ txs, tx.call ≠ .store 0) :
    ZeroMeansNone (run transact deployed txs) := by
  have hcopies : (run transact deployed txs).copies 0 = 0 := by
    refine accepted_induction (I := fun _ (s : State) => s.copies 0 = 0) rfl txs ?_
    intro tx htx _ s s' hnone h
    rw [(transact_eq_ok_iff.mp h).copies, hnone]
    simpa [storesOf] using hstore tx htx
  rw [zeroMeansNone_run_iff htimes]
  rintro u ⟨hactive, hzero⟩
  apply (shelfInv_run txs 0).flags_ne_nil ⟨hactive, hzero⟩
  rw [← List.length_eq_zero_iff, length_flags_shelf, hcopies]

/-- **A zero answer means no access and nothing else, exactly as long as the id `0` is not
rented out**, in both contracts. For every run of the pool contract with block times below
`2 ^ 64`: both access views answer `0` to exactly those without an active rental whose
time is not up, in every state of the run, if and only if no transaction of the run is a
`rentNft(0)` of an idle sender that finds a free entry of id `0`. For every run of the
contract without a pool: `checkAccess` answers `0` to exactly those without an active
rental, in every state of the run, if and only if no transaction of it is a `rentGame(0)`
of an idle sender. -/
theorem zeroMeansNone_iff_none_rented (txs : List Tx)
    (htimes : ∀ tx ∈ txs, tx.env.timestamp.toNat < 2 ^ 64)
    (games : List RentContract.Tx) :
    ((∀ pre, pre <+: txs → ZeroMeansNone (run transact deployed pre)) ↔
      Along transact RentsNonzero deployed txs) ∧
    ((∀ pre, pre <+: games →
        RentContract.ZeroMeansNone (run RentContract.transact RentContract.deployed pre)) ↔
      Along RentContract.transact RentContract.RentsNonzero RentContract.deployed games) :=
  ⟨prefix_zeroMeansNone_iff htimes, RentContract.prefix_zeroMeansNone_iff games⟩

/-- A `0` is stored, but rented only where it is not there to be rented. -/
theorem zeroMeansNone_iff_none_rented_other_ids :
    let txs : List Tx := [⟨⟨1, 1000⟩, .store 7⟩, ⟨⟨1, 1001⟩, .rentNft 0⟩,
      ⟨⟨1, 1002⟩, .rentNft 7⟩, ⟨⟨1, 1003⟩, .store 0⟩, ⟨⟨1, 1004⟩, .rentNft 0⟩]
    let games : List RentContract.Tx := [⟨⟨1, 1000⟩, .rentGame 7⟩, ⟨⟨1, 1001⟩, .rentGame 0⟩]
    ZeroMeansNone (run transact deployed txs) ∧
      RentContract.ZeroMeansNone (run RentContract.transact RentContract.deployed games) := by
  intro txs games
  obtain ⟨hpool, hgames⟩ := zeroMeansNone_iff_none_rented txs (by decide) games
  exact ⟨hpool.mpr (by decide) txs (List.prefix_refl txs),
    hgames.mpr (by decide) games (List.prefix_refl games)⟩

/-- The id `0` is stored and rented. -/
def zeroRun : List Tx := [⟨⟨1, 1000⟩, .store 0⟩, ⟨⟨1, 1000⟩, .rentNft 0⟩]

/-- The id `0` is rented, without a pool. -/
def zeroGame : List RentContract.Tx := [⟨⟨1, 1000⟩, .rentGame 0⟩]

/-- Address `1` holds the id `0` with all its time left, and is told `0` by both views, and
by the contract without a pool. -/
theorem zeroRun_hides_access :
    let s := run transact deployed zeroRun
    let g := run RentContract.transact RentContract.deployed zeroGame
    (s.Valid 1 1000 ∧ checkAccess ⟨1, 1000⟩ s = .ok 0 ∧ getUserNfts ⟨1, 1000⟩ s = .ok 0 ∧
      ¬ ZeroMeansNone s) ∧
    (g.rentals 1).active = true ∧ RentContract.checkAccess ⟨1, 1000⟩ g = .ok 0 ∧
      ¬ RentContract.ZeroMeansNone g := by
  intro s g
  have hvalid : s.Valid 1 1000 := by decide
  have hactive : (g.rentals 1).active = true := rfl
  refine ⟨⟨hvalid, rfl, rfl, fun h => ?_⟩, hactive, rfl, fun h => ?_⟩
  · obtain ⟨hcheck, -⟩ := h 1 1000 (by decide)
    exact hcheck.mp rfl hvalid
  · exact (h 1 1000).mp rfl hactive

end NFTRentLight

end NftGame

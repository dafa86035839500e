import NftGame.Lease
import NftGame.Operations

/-!
# Access is the user's own last rental

The rental of an address is a `Lease`: its committed `rentNft` and `endRental` calls are
the takes and drops, and no other transaction is an event of it (`Commit.lease`). So the
rental after a run is the one its own log of events leads to (`log_run`), and the views
show what that log says: the NFT of the last rental, if that was not ended and its time
is not up, and otherwise `0`.

Block times below `2 ^ 64` keep `startTime + rentalDuration` far from overflowing.
-/

namespace NftGame

open Solidity Transaction

namespace NFTRentLight

/-- The lease recorded by a rental. -/
def Rental.lease (r : Rental) : Lease UInt256 UInt256 := ⟨r.nftId, r.startTime, r.active⟩

/-- The transaction, as an event of the lease of `u`. -/
def Tx.event? (u : Address) (tx : Tx) : Option (Lease.Event UInt256 UInt256) :=
  if tx.env.sender = u then
    match tx.call with
    | .store _ => none
    | .rentNft k => some (.take k tx.env.timestamp)
    | .endRental => some .drop
  else none

/-- The `rentNft` and `endRental` calls of `u` in a history, oldest first. -/
def events (u : Address) (hist : List Tx) : List (Lease.Event UInt256 UInt256) :=
  hist.filterMap (Tx.event? u)

section Lease

variable {s s' : State} {tx : Tx} {u : Address}

theorem event?_eq_take_iff {k t : UInt256} : tx.event? u = some (.take k t) ↔
    tx.env.sender = u ∧ tx.call = .rentNft k ∧ tx.env.timestamp = t := by
  obtain ⟨env, call⟩ := tx
  cases call <;> simp [Tx.event?]

/-- **A committed transaction and the lease of `u`**: it is an event of that lease, or
leaves it alone. -/
theorem Commit.lease (h : Commit s tx s') (u : Address) :
    (tx.event? u = none ∧ s'.rentals u = s.rentals u) ∨
      ∃ e, tx.event? u = some e ∧ Lease.Step (s.rentals u).lease e (s'.rentals u).lease := by
  by_cases hu : tx.env.sender = u
  · subst hu
    cases h with
    | store hpush => exact .inl ⟨if_pos rfl, rfl⟩
    | rentNft hidle hfree =>
      refine .inr ⟨_, if_pos rfl, ?_⟩
      rw [State.rentals_rented_self]
      exact .take hidle
    | endRental hactive =>
      refine .inr ⟨_, if_pos rfl, ?_⟩
      rw [State.rentals_released_self]
      exact .drop hactive
  · exact .inl ⟨if_neg hu, h.rentals_of_ne (Ne.symm hu)⟩

/-- The contract keeps a lease for each address. -/
theorem onLedger :
    Lease.OnLedger transact (fun (s : State) u => (s.rentals u).lease) Tx.event? := by
  intro tx s s' h u
  rcases (transact_eq_ok_iff.mp h).lease u with ⟨hnone, hsame⟩ | hevent
  · exact .inl ⟨hnone, congrArg Rental.lease hsame⟩
  · exact .inr hevent

/-- **The rental of `u` after a run is where the log of its own calls leads.** -/
theorem log_run (txs : List Tx) (u : Address) :
    Lease.Log ⟨0, 0, false⟩ (events u (accepted transact deployed txs))
      ((run transact deployed txs).rentals u).lease :=
  onLedger.log deployed txs u

end Lease

/-- **Access is exactly the user's own last rental within its time window.** After any
run, whatever the other users did:

* the committed `rentNft` and `endRental` calls of `u` alternate, beginning with
  `rentNft`, and `endRental` by `u` commits exactly when the last of them is a `rentNft`;
* if that is `rentNft(k)` at `t₀` and `t` is at most `t₀ + rentalDuration`, both access
  views show `k` to `u` at `t`;
* in every other case both show `0`;
* the start time shown is that of the last `rentNft`, or `0`;
* the addition in the views does not overflow. -/
theorem access_is_last_rental (txs : List Tx)
    (htimes : ∀ tx ∈ txs, tx.env.timestamp.toNat < 2 ^ 64) (u : Address) (t : UInt256) :
    let s := run transact deployed txs
    let es := events u (accepted transact deployed txs)
    Lease.Alternates es ∧
    (∀ t', (∃ s', endRental ⟨u, t'⟩ s = .ok s') ↔ ∃ k t₀, es.getLast? = some (.take k t₀)) ∧
    (∀ k t₀, es.getLast? = some (.take k t₀) →
      t.toNat ≤ t₀.toNat + s.rentalDuration.toNat →
      checkAccess ⟨u, t⟩ s = .ok k ∧ getUserNfts ⟨u, t⟩ s = .ok k) ∧
    ((∀ k t₀, es.getLast? = some (.take k t₀) →
        ¬ t.toNat ≤ t₀.toNat + s.rentalDuration.toNat) →
      checkAccess ⟨u, t⟩ s = .ok 0 ∧ getUserNfts ⟨u, t⟩ s = .ok 0) ∧
    getUserStartTime ⟨u, t⟩ s = .ok ((es.filterMap Lease.Event.since?).getLastD 0) ∧
    checkedAdd (s.rentals u).startTime s.rentalDuration =
      .ok ((s.rentals u).startTime + s.rentalDuration) := by
  intro s es
  have hlog : Lease.Log ⟨0, 0, false⟩ es (s.rentals u).lease := log_run txs u
  have hexpiry := expiry_run_lt htimes u
  have hview : checkAccess ⟨u, t⟩ s = .ok (if s.Valid u t then (s.rentals u).nftId else 0) :=
    checkAccess_eq hexpiry
  rw [getUserNfts_eq, hview]
  refine ⟨hlog.alternates rfl, ?_, ?_, ?_, ?_, checkedAdd_ok hexpiry⟩
  · intro t'
    rw [← hlog.active_iff rfl]
    refine ⟨?_, fun hactive => ⟨_, endRental_eq_ok_iff.mpr ⟨hactive, rfl⟩⟩⟩
    rintro ⟨s', h⟩
    obtain ⟨hactive, -⟩ := endRental_eq_ok_iff.mp h
    exact hactive
  · intro k t₀ hlast hle
    obtain ⟨hk, ht₀, hactive⟩ := Lease.mk.inj (hlog.eq_of_take hlast)
    have hvalid : s.Valid u t := ⟨hactive, by rw [ht₀]; exact hle⟩
    rw [if_pos hvalid, hk]
    exact ⟨rfl, rfl⟩
  · intro hlast
    have hvalid : ¬ s.Valid u t := by
      rintro ⟨hactive, hle⟩
      obtain ⟨k, t₀, htake⟩ := (hlog.active_iff rfl).mp hactive
      obtain ⟨-, ht₀, -⟩ := Lease.mk.inj (hlog.eq_of_take htake)
      rw [ht₀] at hle
      exact hlast k t₀ htake hle
    rw [if_neg hvalid]
    exact ⟨rfl, rfl⟩
  · exact congrArg Except.ok hlog.since_eq

/-- Address `1` rents at `1000`, ends the rental, and rents again at `1100`, while `2`
gets nothing: at `1400`, the last second, both views show `1` the NFT. -/
theorem access_is_last_rental_rented_again :
    let txs : List Tx := [⟨⟨1, 1000⟩, .store 7⟩, ⟨⟨1, 1000⟩, .rentNft 7⟩,
      ⟨⟨2, 1050⟩, .rentNft 7⟩, ⟨⟨1, 1060⟩, .endRental⟩, ⟨⟨1, 1100⟩, .rentNft 7⟩]
    checkAccess ⟨1, 1400⟩ (run transact deployed txs) = .ok 7 ∧
      getUserNfts ⟨1, 1400⟩ (run transact deployed txs) = .ok 7 := by
  intro txs
  obtain ⟨-, -, hshown, -⟩ := access_is_last_rental txs (by decide) 1 1400
  exact hshown 7 1100 (by decide) (by decide)

end NFTRentLight

end NftGame

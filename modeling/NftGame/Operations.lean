import NftGame.Contract

/-!
# What the contract's functions compute

Each function of the pool contract in closed form, so that no later proof looks
inside a loop again:

* the two search loops are first-match updates of the pool (`rentNft_eq`,
  `endRental_eq`) — with *different* conditions: `rentNft` looks for a free entry of
  the id, `endRental` for any entry of it;
* a committed transaction is one of three steps (`Commit`, `transact_eq_ok_iff`), the
  inversion every invariant proof starts from;
* the two access views say the same thing (`checkAccess_eq`, `getUserNfts_eq`).
-/

namespace NftGame

open Solidity

namespace NFTRentLight

/-! ## The entries the loops look for -/

namespace NFT

/-- The entry is a copy of `k`: what `endRental` looks for. -/
def hasId (k : UInt256) (nft : NFT) : Bool := nft.id == k

/-- The entry is a free copy of `k`: what `rentNft` looks for. -/
def isFree (k : UInt256) (nft : NFT) : Bool := nft.id == k && !nft.isRented

/-- The entry, rented out. -/
def rent (nft : NFT) : NFT := { nft with isRented := true }

/-- The entry, available again. -/
def release (nft : NFT) : NFT := { nft with isRented := false }

@[simp] theorem id_rent (nft : NFT) : nft.rent.id = nft.id := rfl

@[simp] theorem isRented_rent (nft : NFT) : nft.rent.isRented = true := rfl

@[simp] theorem id_release (nft : NFT) : nft.release.id = nft.id := rfl

theorem hasId_iff {k : UInt256} {nft : NFT} : nft.hasId k = true ↔ nft.id = k :=
  beq_iff_eq

theorem isFree_iff {k : UInt256} {nft : NFT} :
    nft.isFree k = true ↔ nft.id = k ∧ nft.isRented = false := by
  simp [isFree]

@[simp] theorem isFree_rent (k : UInt256) (nft : NFT) : nft.rent.isFree k = false := by
  simp [isFree]

/-- An entry is not a copy of two ids. -/
theorem hasId_of_ne {k m : UInt256} (hkm : k ≠ m) {nft : NFT} (h : nft.hasId m = true) :
    nft.hasId k = false := by
  rw [hasId_iff] at h
  simp [hasId, h, hkm.symm]

theorem hasId_of_isFree {k : UInt256} {nft : NFT} (h : nft.isFree k = true) :
    nft.hasId k = true :=
  hasId_iff.mpr (isFree_iff.mp h).1

theorem isFree_of_id_ne {k : UInt256} {nft : NFT} (h : nft.id ≠ k) : nft.isFree k = false :=
  Bool.eq_false_iff.mpr fun hfree => h (isFree_iff.mp hfree).1

end NFT

/-! ## The states the functions return -/

namespace State

/-- `rentNft(k)` committed: the first free copy of `k` is marked, and the sender
holds `k` from now on. -/
def rented (s : State) (env : Env) (k : UInt256) : State where
  rentalDuration := s.rentalDuration
  availableNfts := s.availableNfts.updateFirst (NFT.isFree k) NFT.rent
  rentals := Function.update s.rentals env.sender ⟨k, env.timestamp, true⟩

/-- `endRental()` committed for `u`: the first copy of the id `u` held is unmarked,
and the rental is cleared down to its `active` flag. -/
def released (s : State) (u : Address) : State where
  rentalDuration := s.rentalDuration
  availableNfts := s.availableNfts.updateFirst (NFT.hasId (s.rentals u).nftId) NFT.release
  rentals := Function.update s.rentals u { s.rentals u with active := false }

variable {s : State} {env : Env} {k : UInt256} {u v : Address}

@[simp] theorem entries_rented : (s.rented env k).availableNfts.entries =
    FirstMatch.updateFirst (NFT.isFree k) NFT.rent s.availableNfts.entries := rfl

@[simp] theorem rentals_rented_self :
    (s.rented env k).rentals env.sender = ⟨k, env.timestamp, true⟩ :=
  Function.update_self ..

/-- Renting changes flags only. -/
theorem ids_rented : (s.rented env k).availableNfts.entries.map NFT.id =
    s.availableNfts.entries.map NFT.id :=
  FirstMatch.map_updateFirst_of_eq fun nft _ => NFT.id_rent nft

theorem rentals_rented_of_ne (h : v ≠ env.sender) : (s.rented env k).rentals v = s.rentals v :=
  Function.update_of_ne h ..

@[simp] theorem entries_released : (s.released u).availableNfts.entries =
    FirstMatch.updateFirst (NFT.hasId (s.rentals u).nftId) NFT.release
      s.availableNfts.entries := rfl

@[simp] theorem rentals_released_self :
    (s.released u).rentals u = { s.rentals u with active := false } :=
  Function.update_self ..

/-- Returning changes flags only. -/
theorem ids_released : (s.released u).availableNfts.entries.map NFT.id =
    s.availableNfts.entries.map NFT.id :=
  FirstMatch.map_updateFirst_of_eq fun nft _ => NFT.id_release nft

theorem rentals_released_of_ne (h : v ≠ u) : (s.released u).rentals v = s.rentals v :=
  Function.update_of_ne h ..

end State

/-! ## The state-changing functions -/

/-- `rentNft` in closed form. -/
theorem rentNft_eq (env : Env) (k : UInt256) (s : State) :
    rentNft env k s =
      if (s.rentals env.sender).active then .error (.error "Already renting")
      else if s.availableNfts.entries.any (NFT.isFree k) then .ok (s.rented env k)
      else .error (.error "NFT not available") := by
  rcases hactive : (s.rentals env.sender).active with - | -
  · simp only [rentNft, hactive]
    -- the loop state is the pool and the `found` flag
    rw [DynArray.forIn_updateFirst (p := NFT.isFree k) (f := NFT.rent)
      (g := fun a => (a, true))]
    · rcases s.availableNfts.entries.any (NFT.isFree k) with - | - <;> rfl
    · intro i nft hget hfree
      simp only [hget]
      exact if_neg (Bool.eq_false_iff.mp hfree)
    · intro i nft a' hget hfree hset
      simp only [hget]
      refine (if_pos hfree).trans ?_
      change (s.availableNfts.set i nft.rent >>= _) = _
      rw [hset]
      rfl
  · simp only [rentNft, hactive]
    rfl

/-- `endRental` in closed form. -/
theorem endRental_eq (env : Env) (s : State) :
    endRental env s =
      if (s.rentals env.sender).active then .ok (s.released env.sender)
      else .error (.error "No active rental") := by
  rcases hactive : (s.rentals env.sender).active with - | -
  · simp only [endRental, hactive]
    rfl
  · simp only [endRental, hactive]
    -- no `found` flag here: the loop state is the pool alone
    rw [DynArray.forIn_updateFirst (p := NFT.hasId (s.rentals env.sender).nftId)
      (f := NFT.release) (g := id)]
    · rcases hany : s.availableNfts.entries.any (NFT.hasId (s.rentals env.sender).nftId)
        with - | -
      · -- no entry of that id: the loop leaves the pool alone
        have hpool : s.availableNfts.updateFirst
            (NFT.hasId (s.rentals env.sender).nftId) NFT.release = s.availableNfts := by
          ext1
          exact FirstMatch.updateFirst_of_any_eq_false hany
        rw [State.released, hpool]
        rfl
      · rfl
    · intro i nft hget hmiss
      simp only [hget]
      exact if_neg (Bool.eq_false_iff.mp hmiss)
    · intro i nft a' hget hhit hset
      simp only [hget]
      refine (if_pos hhit).trans ?_
      change (s.availableNfts.set i nft.release >>= _) = _
      rw [hset]
      rfl

theorem store_eq_ok_iff {k : UInt256} {s s' : State} :
    store k s = .ok s' ↔
      ∃ pool, s.availableNfts.push ⟨k, false⟩ = .ok pool ∧
        s' = { s with availableNfts := pool } := by
  rw [store]
  rcases s.availableNfts.push ⟨k, false⟩ with e | pool
  · constructor
    · intro h
      cases h
    · rintro ⟨_, h, -⟩
      cases h
  · constructor
    · intro h
      exact ⟨pool, rfl, (Except.ok.inj h).symm⟩
    · rintro ⟨_, h, rfl⟩
      obtain rfl := Except.ok.inj h
      rfl

theorem rentNft_eq_ok_iff {env : Env} {k : UInt256} {s s' : State} :
    rentNft env k s = .ok s' ↔
      (s.rentals env.sender).active = false ∧
        s.availableNfts.entries.any (NFT.isFree k) = true ∧ s' = s.rented env k := by
  rw [rentNft_eq]
  rcases (s.rentals env.sender).active with - | -
  · rcases s.availableNfts.entries.any (NFT.isFree k) with - | -
    · simp
    · simp [eq_comm]
  · simp

theorem endRental_eq_ok_iff {env : Env} {s s' : State} :
    endRental env s = .ok s' ↔
      (s.rentals env.sender).active = true ∧ s' = s.released env.sender := by
  rw [endRental_eq]
  rcases (s.rentals env.sender).active with - | -
  · simp
  · simp [eq_comm]

/-- **What a committed transaction does**, guards included: one constructor per
function. -/
inductive Commit (s : State) : Tx → State → Prop where
  /-- `store` found room for another entry -/
  | store {env : Env} {k : UInt256} {pool : DynArray NFT}
      (hpush : s.availableNfts.push ⟨k, false⟩ = .ok pool) :
      Commit s ⟨env, .store k⟩ { s with availableNfts := pool }
  /-- `rentNft` came from an idle sender and found a free copy -/
  | rentNft {env : Env} {k : UInt256} (hidle : (s.rentals env.sender).active = false)
      (hfree : s.availableNfts.entries.any (NFT.isFree k) = true) :
      Commit s ⟨env, .rentNft k⟩ (s.rented env k)
  /-- `endRental` came from a sender with an active rental -/
  | endRental {env : Env} (hactive : (s.rentals env.sender).active = true) :
      Commit s ⟨env, .endRental⟩ (s.released env.sender)

theorem transact_eq_ok_iff {tx : Tx} {s s' : State} :
    transact tx s = .ok s' ↔ Commit s tx s' := by
  constructor
  · intro h
    obtain ⟨env, call⟩ := tx
    cases call with
    | store k =>
      obtain ⟨pool, hpush, rfl⟩ := store_eq_ok_iff.mp h
      exact .store hpush
    | rentNft k =>
      obtain ⟨hidle, hfree, rfl⟩ := rentNft_eq_ok_iff.mp h
      exact .rentNft hidle hfree
    | endRental =>
      obtain ⟨hactive, rfl⟩ := endRental_eq_ok_iff.mp h
      exact .endRental hactive
  · intro h
    cases h with
    | store hpush => exact store_eq_ok_iff.mpr ⟨_, hpush, rfl⟩
    | rentNft hidle hfree => exact rentNft_eq_ok_iff.mpr ⟨hidle, hfree, rfl⟩
    | endRental hactive => exact endRental_eq_ok_iff.mpr ⟨hactive, rfl⟩

/-- The id a transaction is about: its argument, or the `nftId` stored for its sender. -/
def State.idOf (s : State) (tx : Tx) : UInt256 :=
  match tx.call with
  | .store k => k
  | .rentNft k => k
  | .endRental => (s.rentals tx.env.sender).nftId

@[simp] theorem State.idOf_store {s : State} {env : Env} {k : UInt256} :
    s.idOf ⟨env, .store k⟩ = k := rfl

@[simp] theorem State.idOf_rentNft {s : State} {env : Env} {k : UInt256} :
    s.idOf ⟨env, .rentNft k⟩ = k := rfl

@[simp] theorem State.idOf_endRental {s : State} {env : Env} :
    s.idOf ⟨env, .endRental⟩ = (s.rentals env.sender).nftId := rfl

/-- No transaction changes the rental duration. -/
theorem Commit.rentalDuration {s s' : State} {tx : Tx} (h : Commit s tx s') :
    s'.rentalDuration = s.rentalDuration := by
  cases h with
  | store hpush => rfl
  | rentNft hidle hfree => rfl
  | endRental hactive => rfl

/-- A transaction touches no rental but its sender's. -/
theorem Commit.rentals_of_ne {s s' : State} {tx : Tx} (h : Commit s tx s') {u : Address}
    (hu : u ≠ tx.env.sender) : s'.rentals u = s.rentals u := by
  cases h with
  | store hpush => rfl
  | rentNft hidle hfree => exact State.rentals_rented_of_ne hu
  | endRental hactive => exact State.rentals_released_of_ne hu

/-- The rental of an address that sends none of the transactions. -/
theorem rentals_run_of_notMem {s : State} {txs : List Tx} {u : Address}
    (hu : ∀ tx ∈ txs, u ≠ tx.env.sender) :
    (Transaction.run transact s txs).rentals u = s.rentals u := by
  refine Transaction.accepted_induction (I := fun _ (s' : State) => s'.rentals u = s.rentals u)
    rfl txs ?_
  intro tx htx _ s₁ s₂ hs₁ h
  rw [(transact_eq_ok_iff.mp h).rentals_of_ne (hu tx htx), hs₁]

/-- The rental duration of a reachable state is the deployed one. -/
theorem rentalDuration_run (txs : List Tx) :
    (Transaction.run transact deployed txs).rentalDuration = 300 := by
  refine Transaction.run_invariant (I := fun s : State => s.rentalDuration = 300) ?_ rfl txs
  intro s tx s' hs h
  rw [(transact_eq_ok_iff.mp h).rentalDuration]
  exact hs

/-- A start time changes only to the block time of the transaction. -/
theorem Commit.startTime {s s' : State} {tx : Tx} (h : Commit s tx s') (u : Address) :
    (s'.rentals u).startTime = (s.rentals u).startTime ∨
      (s'.rentals u).startTime = tx.env.timestamp := by
  by_cases hu : u = tx.env.sender
  · subst hu
    cases h with
    | store hpush => exact .inl rfl
    | rentNft hidle hfree => exact .inr (by rw [State.rentals_rented_self])
    | endRental hactive => exact .inl (by rw [State.rentals_released_self])
  · exact .inl (by rw [h.rentals_of_ne hu])

/-- What bounds the block times of a run bounds the start times it leaves. -/
theorem startTime_run_lt {bound : ℕ} (hpos : 0 < bound) {txs : List Tx}
    (htimes : ∀ tx ∈ txs, tx.env.timestamp.toNat < bound) (u : Address) :
    ((Transaction.run transact deployed txs).rentals u).startTime.toNat < bound := by
  refine Transaction.accepted_induction (s := deployed)
    (I := fun _ (s : State) => (s.rentals u).startTime.toNat < bound) hpos txs ?_
  intro tx htx _ s s' hlt h
  rcases (transact_eq_ok_iff.mp h).startTime u with hsame | hnow
  · rw [hsame]
    exact hlt
  · rw [hnow]
    exact htimes tx htx

/-- With block times below `2 ^ 64`, `startTime + rentalDuration` does not overflow. -/
theorem expiry_run_lt {txs : List Tx} (htimes : ∀ tx ∈ txs, tx.env.timestamp.toNat < 2 ^ 64)
    (u : Address) :
    ((Transaction.run transact deployed txs).rentals u).startTime.toNat +
      (Transaction.run transact deployed txs).rentalDuration.toNat < 2 ^ 256 := by
  have hstart := startTime_run_lt (Nat.two_pow_pos 64) htimes u
  rw [rentalDuration_run]
  have : (300 : UInt256).toNat = 300 := by decide
  omega

/-! ## The access views -/

/-- The rental gives access at time `t`: it is active, and `t` is at most
`startTime + rentalDuration`, an addition of numbers that does not wrap. -/
def State.Valid (s : State) (u : Address) (t : UInt256) : Prop :=
  (s.rentals u).active = true ∧
    t.toNat ≤ (s.rentals u).startTime.toNat + s.rentalDuration.toNat

instance (s : State) (u : Address) (t : UInt256) : Decidable (s.Valid u t) :=
  inferInstanceAs (Decidable (_ ∧ _))

section Views

variable {s : State} {env : Env}

/-- Without an active rental the start time is not even looked at. -/
theorem checkAccess_of_inactive (h : (s.rentals env.sender).active = false) :
    checkAccess env s = .ok 0 := by
  simp only [checkAccess, h]
  rfl

/-- `checkAccess` in closed form, for a start time that cannot overflow. -/
theorem checkAccess_eq
    (h : (s.rentals env.sender).startTime.toNat + s.rentalDuration.toNat < 2 ^ 256) :
    checkAccess env s =
      .ok (if s.Valid env.sender env.timestamp then (s.rentals env.sender).nftId else 0) := by
  rcases hactive : (s.rentals env.sender).active with - | -
  · have hvalid : ¬ s.Valid env.sender env.timestamp := by
      rintro ⟨htrue, -⟩
      rw [hactive] at htrue
      cases htrue
    rw [checkAccess_of_inactive hactive, if_neg hvalid]
  · have hexpiry : ((s.rentals env.sender).startTime + s.rentalDuration).toNat =
        (s.rentals env.sender).startTime.toNat + s.rentalDuration.toNat :=
      BitVec.toNat_add_of_lt h
    have hvalid : s.Valid env.sender env.timestamp ↔
        ¬ env.timestamp > (s.rentals env.sender).startTime + s.rentalDuration := by
      rw [State.Valid, gt_iff_lt, BitVec.lt_def, hexpiry, Nat.not_lt]
      exact and_iff_right hactive
    simp only [checkAccess, hactive, Bool.not_true, Bool.false_eq_true, if_false,
      checkedAdd_ok h, hvalid, ite_not]
    change (if env.timestamp > _ then _ else _) = _
    split <;> rfl

/-- `getUserNfts` is `checkAccess`, written with one condition for both ways a rental
can be over. -/
theorem getUserNfts_eq (env : Env) (s : State) : getUserNfts env s = checkAccess env s := by
  rcases hactive : (s.rentals env.sender).active with - | -
  · simp only [getUserNfts, checkAccess, hactive]
    rfl
  · simp only [getUserNfts, checkAccess, hactive, Bool.not_true, Bool.false_eq_true, if_false]
    rcases checkedAdd (s.rentals env.sender).startTime s.rentalDuration with e | expiry
    · rfl
    · change (if decide (env.timestamp > expiry) = true then _ else _) =
        if env.timestamp > expiry then _ else _
      simp only [decide_eq_true_eq]

end Views

end NFTRentLight

end NftGame

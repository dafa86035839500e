import NftGame.Operations

/-!
# Transactions whose order does not matter

Two transactions of different senders about different ids do not see each other: the
search of one passes over the entries the other one writes to, appended entries
included, and the rentals they read and write are different ones. So either of them
commits or reverts as if the other had not been there, and the effects on the pool
commute (`Call.onPool_comm`), as do those on the rentals (`Tx.onRentals_comm`).

A `store` reads no rental at all, so its sender is of no importance; but two `store`s
leave their entries in different places. Two `endRental`s of different senders commute
even about one id: both clear the flag of the same entry.
-/

namespace NftGame

open Solidity Transaction FirstMatch

namespace NFTRentLight

/-! ## What a transaction is about -/

/-- The call is a `store`. -/
def Call.isStore : Call → Bool
  | .store _ => true
  | .rentNft _ => false
  | .endRental => false

/-- The transaction looks at the entries of id `k`. An `endRental` without an active
rental looks at none. -/
def State.Concerns (s : State) (tx : Tx) (k : UInt256) : Prop :=
  s.idOf tx = k ∧ (tx.call = .endRental → (s.rentals tx.env.sender).active = true)

instance (s : State) (tx : Tx) (k : UInt256) : Decidable (s.Concerns tx k) :=
  inferInstanceAs (Decidable (_ ∧ _))

/-- What a committed call about `k` does to the pool. -/
def Call.onPool (k : UInt256) (l : List NFT) : Call → List NFT
  | .store _ => l ++ [⟨k, false⟩]
  | .rentNft _ => updateFirst (NFT.isFree k) NFT.rent l
  | .endRental => updateFirst (NFT.hasId k) NFT.release l

/-- What a committed transaction does to the rentals. -/
def Tx.onRentals (tx : Tx) (rentals : Address → Rental) : Address → Rental :=
  match tx.call with
  | .store _ => rentals
  | .rentNft k => Function.update rentals tx.env.sender ⟨k, tx.env.timestamp, true⟩
  | .endRental =>
    Function.update rentals tx.env.sender { rentals tx.env.sender with active := false }

section Effects

variable {s s' : State} {x y tx : Tx} {c d : Call} {k m : UInt256} {l : List NFT}

theorem Commit.entries (h : Commit s tx s') :
    s'.availableNfts.entries = tx.call.onPool (s.idOf tx) s.availableNfts.entries := by
  cases h with
  | store hpush => exact DynArray.push_eq_ok hpush
  | rentNft hidle hfree => rfl
  | endRental hactive => rfl

theorem Commit.rentals (h : Commit s tx s') : s'.rentals = tx.onRentals s.rentals := by
  cases h with
  | store hpush => rfl
  | rentNft hidle hfree => rfl
  | endRental hactive => rfl

/-- What a transaction is about depends on its sender's rental at most. -/
theorem concerns_congr (h : s'.rentals tx.env.sender = s.rentals tx.env.sender) :
    s'.Concerns tx k ↔ s.Concerns tx k := by
  simp only [State.Concerns, State.idOf, h]

/-- What commits about `k` concerns `k`. -/
theorem Commit.concerns (h : Commit s tx s') : s.Concerns tx (s.idOf tx) := by
  refine ⟨rfl, fun hcall => ?_⟩
  cases h with
  | store hpush => cases hcall
  | rentNft hidle hfree => cases hcall
  | endRental hactive => exact hactive

/-- A call that is no `store` updates the first entry of its id that it likes. -/
theorem Call.exists_updateFirst (hd : d.isStore = false) (m : UInt256) :
    ∃ p f, (∀ l, d.onPool m l = updateFirst p f l) ∧ (∀ nft, p nft = true → nft.id = m) ∧
      ∀ nft : NFT, (f nft).id = nft.id := by
  cases d with
  | store => cases hd
  | rentNft => exact ⟨_, _, fun _ => rfl, fun _ h => (NFT.isFree_iff.mp h).1, fun _ => rfl⟩
  | endRental => exact ⟨_, _, fun _ => rfl, fun _ h => NFT.hasId_iff.mp h, fun _ => rfl⟩

/-- A `store` appends. -/
theorem Call.onPool_of_isStore (hc : c.isStore = true) (k : UInt256) (l : List NFT) :
    c.onPool k l = l ++ [⟨k, false⟩] := by
  cases c with
  | store => rfl
  | rentNft => cases hc
  | endRental => cases hc

/-- No call but a `store` sees an entry of another id appended. -/
theorem Call.onPool_concat (hd : d.isStore = false) (hkm : k ≠ m) :
    d.onPool m (l ++ [⟨k, false⟩]) = d.onPool m l ++ [⟨k, false⟩] := by
  obtain ⟨p, f, hpool, hp, -⟩ := Call.exists_updateFirst hd m
  rw [hpool, hpool, updateFirst_concat_neg]
  exact Bool.eq_false_iff.mpr fun h => hkm (hp _ h)

/-- **Calls about different ids commute on every pool**, `store`s among themselves
excepted. -/
theorem Call.onPool_comm (hkm : k ≠ m) (hstores : ¬ (c.isStore = true ∧ d.isStore = true)) :
    d.onPool m (c.onPool k l) = c.onPool k (d.onPool m l) := by
  rcases hc : c.isStore with - | -
  · obtain ⟨p, f, hpool, hp, hf⟩ := Call.exists_updateFirst hc k
    rcases hd : d.isStore with - | -
    · obtain ⟨q, g, hpool', hq, hg⟩ := Call.exists_updateFirst hd m
      rw [hpool, hpool', hpool, hpool']
      exact updateFirst_comm_of_key hkm.symm hq hp hg hf
    · rw [Call.onPool_of_isStore hd, Call.onPool_of_isStore hd, Call.onPool_concat hc hkm.symm]
  · have hd : d.isStore = false := Bool.eq_false_iff.mpr fun hd => hstores ⟨hc, hd⟩
    rw [Call.onPool_of_isStore hc, Call.onPool_of_isStore hc, Call.onPool_concat hd hkm]

/-- A call about another id neither uses up nor adds a free copy of `k`. -/
theorem Call.any_isFree_onPool (hkm : k ≠ m) :
    (c.onPool m l).any (NFT.isFree k) = l.any (NFT.isFree k) := by
  rcases hc : c.isStore with - | -
  · obtain ⟨p, f, hpool, hp, hf⟩ := Call.exists_updateFirst hc m
    rw [hpool]
    refine any_updateFirst fun nft hnft => ?_
    have hid : nft.id ≠ k := fun h => hkm (h.symm.trans (hp nft hnft))
    rw [NFT.isFree_of_id_ne hid, NFT.isFree_of_id_ne (by rw [hf]; exact hid)]
  · rw [Call.onPool_of_isStore hc, List.any_append, List.any_cons, List.any_nil,
      NFT.isFree_of_id_ne (Ne.symm hkm), Bool.false_or, Bool.or_false]

/-- No call but a `store` changes the length of the pool. -/
theorem Call.length_onPool (hd : d.isStore = false) : (d.onPool m l).length = l.length := by
  obtain ⟨p, f, hpool, -⟩ := Call.exists_updateFirst hd m
  rw [hpool, length_updateFirst]

/-- A transaction rewrites its sender's rental, if any. -/
theorem Tx.exists_onRentals (tx : Tx) : ∃ g : Rental → Rental, ∀ rentals,
    tx.onRentals rentals =
      Function.update rentals tx.env.sender (g (rentals tx.env.sender)) := by
  obtain ⟨env, call⟩ := tx
  cases call with
  | store => exact ⟨id, fun rentals => (Function.update_eq_self ..).symm⟩
  | rentNft => exact ⟨fun _ => _, fun _ => rfl⟩
  | endRental => exact ⟨fun r => { r with active := false }, fun _ => rfl⟩

theorem Tx.onRentals_of_isStore (h : tx.call.isStore = true) (rentals : Address → Rental) :
    tx.onRentals rentals = rentals := by
  obtain ⟨env, call⟩ := tx
  cases call with
  | store => rfl
  | rentNft => cases h
  | endRental => cases h

/-- **Transactions of different senders commute on the rentals**, and so does a `store`
with everything. -/
theorem Tx.onRentals_comm (h : x.call.isStore = true ∨ y.call.isStore = true ∨
      x.env.sender ≠ y.env.sender) (rentals : Address → Rental) :
    y.onRentals (x.onRentals rentals) = x.onRentals (y.onRentals rentals) := by
  rcases h with hx | hy | hne
  · rw [Tx.onRentals_of_isStore hx, Tx.onRentals_of_isStore hx]
  · rw [Tx.onRentals_of_isStore hy, Tx.onRentals_of_isStore hy]
  · obtain ⟨f, hf⟩ := x.exists_onRentals
    obtain ⟨g, hg⟩ := y.exists_onRentals
    rw [hf, hf, hg, hg, Function.update_of_ne hne, Function.update_of_ne hne.symm,
      Function.update_comm hne]

end Effects

/-! ## The outcome of a transaction -/

section Outcome

variable {s s' : State} {env : Env} {k : UInt256}

theorem revert?_store : revert? transact s ⟨env, .store k⟩ =
    if s.availableNfts.length + 1 < maxArrayLength then none else some (.panic 0x41) := by
  by_cases hroom : s.availableNfts.length + 1 < maxArrayLength
  · simp only [revert?, transact, store, DynArray.push, dif_pos hroom, if_pos hroom]
    rfl
  · simp only [revert?, transact, store, DynArray.push, dif_neg hroom, if_neg hroom]
    rfl

theorem revert?_rentNft : revert? transact s ⟨env, .rentNft k⟩ =
    if (s.rentals env.sender).active then some (.error "Already renting")
    else if s.availableNfts.entries.any (NFT.isFree k) then none
    else some (.error "NFT not available") := by
  simp only [revert?, transact, rentNft_eq]
  rcases (s.rentals env.sender).active with - | - <;>
    rcases s.availableNfts.entries.any (NFT.isFree k) with - | - <;> rfl

theorem revert?_endRental : revert? transact s ⟨env, .endRental⟩ =
    if (s.rentals env.sender).active then none else some (.error "No active rental") := by
  simp only [revert?, transact, endRental_eq]
  rcases (s.rentals env.sender).active with - | - <;> rfl

end Outcome

/-! ## Commuting -/

/-- What keeps two transactions apart in a state. -/
structure Apart (s : State) (x y : Tx) : Prop where
  /-- they come from different senders, unless one is a `store` -/
  senders : x.call.isStore = true ∨ y.call.isStore = true ∨ x.env.sender ≠ y.env.sender
  /-- they are not both a `store` -/
  stores : ¬ (x.call.isStore = true ∧ y.call.isStore = true)
  /-- they do not look at the entries of one id, unless both are an `endRental` -/
  ids : (x.call = .endRental ∧ y.call = .endRental) ∨
    ∀ k, s.Concerns x k → ¬ s.Concerns y k

section Apart

variable {s s₁ s₂ s₃ s₄ : State} {x y : Tx}

theorem Apart.symm (h : Apart s x y) : Apart s y x where
  senders := by
    rcases h.senders with hx | hy | hne
    · exact .inr (.inl hx)
    · exact .inl hy
    · exact .inr (.inr hne.symm)
  stores := fun hboth => h.stores hboth.symm
  ids := h.ids.imp And.symm fun hids k hy hx => hids k hx hy

/-- The rental a transaction reads is not the other one's to change. -/
theorem Apart.rentals (h : Apart s x y) (hx : x.call.isStore = false) (hy : Commit s y s₂) :
    s₂.rentals x.env.sender = s.rentals x.env.sender := by
  rcases h.senders with hstore | hstore | hne
  · rw [hx] at hstore
    cases hstore
  · rw [hy.rentals, Tx.onRentals_of_isStore hstore]
  · exact hy.rentals_of_ne hne

/-- A transaction is about the same id after the other one. -/
theorem Apart.idOf (h : Apart s x y) (hy : Commit s y s₂) : s₂.idOf x = s.idOf x := by
  have hrental := fun hx => h.rentals hx hy
  obtain ⟨env, call⟩ := x
  cases call with
  | store k => rfl
  | rentNft k => rfl
  | endRental => exact congrArg Rental.nftId (hrental rfl)

/-- **A transaction has the same outcome before and after the other one.** -/
theorem Apart.revert? (h : Apart s x y) (hy : Commit s y s₂) :
    Transaction.revert? transact s₂ x = Transaction.revert? transact s x := by
  obtain ⟨env, call⟩ := x
  cases call with
  | store k =>
    have hstore : y.call.isStore = false :=
      Bool.eq_false_iff.mpr fun hstore => h.stores ⟨rfl, hstore⟩
    have hlen : s₂.availableNfts.length = s.availableNfts.length := by
      rw [DynArray.length, hy.entries, Call.length_onPool hstore]
    rw [revert?_store, revert?_store, hlen]
  | rentNft k =>
    have hid : k ≠ s.idOf y := by
      rcases h.ids with ⟨hcall, -⟩ | hids
      · cases hcall
      · rintro rfl
        exact hids _ ⟨rfl, fun hcall => by cases hcall⟩ hy.concerns
    rw [revert?_rentNft, revert?_rentNft, h.rentals rfl hy, hy.entries,
      Call.any_isFree_onPool hid]
  | endRental =>
    rw [revert?_endRental, revert?_endRental, h.rentals rfl hy]

/-- Both orders of two commits lead to one state. -/
theorem Apart.commit_comm (h : Apart s x y) (hx : Commit s x s₁) (hy : Commit s y s₂)
    (hxy : Commit s₁ y s₃) (hyx : Commit s₂ x s₄) : s₃ = s₄ := by
  ext1
  · rw [hxy.rentalDuration, hx.rentalDuration, hyx.rentalDuration, hy.rentalDuration]
  · ext1
    rw [hxy.entries, hx.entries, hyx.entries, hy.entries, h.symm.idOf hx, h.idOf hy]
    by_cases hid : s.idOf x = s.idOf y
    · -- only two `endRental`s can both commit about one id, and they do the same
      rcases h.ids with ⟨hcallx, hcally⟩ | hids
      · rw [hid, hcallx, hcally]
      · exact absurd hy.concerns (hids _ (hid ▸ hx.concerns))
    · exact Call.onPool_comm hid h.stores
  · rw [hxy.rentals, hx.rentals, hyx.rentals, hy.rentals]
    exact Tx.onRentals_comm h.senders _

/-- **Transactions that are apart commute.** -/
theorem Apart.commutesAt (h : Apart s x y) : CommutesAt transact s x y := by
  refine .of_frame ?_ ?_ ?_
  · intro s₂ hy
    exact h.revert? (transact_eq_ok_iff.mp hy)
  · intro s₁ hx
    exact h.symm.revert? (transact_eq_ok_iff.mp hx)
  · intro s₁ s₂ s₃ s₄ hx hy hxy hyx
    rw [transact_eq_ok_iff] at hx hy hxy hyx
    exact h.commit_comm hx hy hxy hyx

end Apart

/-- **Transactions about different ids do not depend on their order.** For every state,
two transactions that come from different senders or one of which is a `store`, that are
not both a `store`, and that are about different ids: in both orders the pool and the
rentals end up the same, and each of the two commits, or reverts with the same error. So
it is for two `endRental`s of different senders, whatever ids they return. -/
theorem different_ids_commute (s : State) (x y : Tx) :
    ((x.env.sender ≠ y.env.sender ∨ x.call.isStore = true ∨ y.call.isStore = true) →
      ¬ (x.call.isStore = true ∧ y.call.isStore = true) → s.idOf x ≠ s.idOf y →
      CommutesAt transact s x y) ∧
    (x.call = .endRental → y.call = .endRental → x.env.sender ≠ y.env.sender →
      CommutesAt transact s x y) := by
  refine ⟨fun hsenders hstores hids => ?_, fun hx hy hne => ?_⟩
  · refine Apart.commutesAt ⟨?_, hstores, .inr ?_⟩
    · rcases hsenders with hne | hx | hy
      · exact .inr (.inr hne)
      · exact .inl hx
      · exact .inr (.inl hy)
    · rintro k ⟨hx, -⟩ ⟨hy, -⟩
      exact hids (hx.trans hy.symm)
  · refine Apart.commutesAt ⟨.inr (.inr hne), ?_, .inl ⟨hx, hy⟩⟩
    rintro ⟨hstore, -⟩
    rw [hx] at hstore
    cases hstore

/-- In a pool of two ids, a rental of one and a return of the other; and two returns of
copies of one id. -/
theorem different_ids_commute_returns :
    let s := run transact deployed [⟨⟨9, 10⟩, .store 5⟩, ⟨⟨9, 10⟩, .store 6⟩,
      ⟨⟨9, 10⟩, .store 5⟩, ⟨⟨1, 11⟩, .rentNft 5⟩, ⟨⟨2, 12⟩, .rentNft 5⟩]
    CommutesAt transact s ⟨⟨1, 20⟩, .endRental⟩ ⟨⟨3, 20⟩, .rentNft 6⟩ ∧
      CommutesAt transact s ⟨⟨1, 20⟩, .endRental⟩ ⟨⟨2, 20⟩, .endRental⟩ := by
  intro s
  refine ⟨?_, ?_⟩
  · exact (different_ids_commute s _ _).1 (.inl (by decide)) (by decide) (by decide)
  · exact (different_ids_commute s _ _).2 rfl rfl (by decide)

end NFTRentLight

end NftGame

import NftGame.Operations

/-!
# The listing of available NFTs

`getAvailableNfts` walks the pool twice: once to count the free entries and allocate
a result of that size, once to fill it. `State.available` is what it ought to return —
the ids of the free entries, in pool order — and the two passes are proved to agree on
it: the fill index stays below the allocated length, and ends at it
(`fillAvailable_eq`).

The listing then is what the other functions act on: `rentNft(k)` commits for an idle
sender exactly when `k` is listed, and erases its first occurrence; `store(k)` appends
`k`.
-/

namespace NftGame

open Solidity

namespace NFTRentLight

/-- The entry is not rented out. -/
def NFT.free (nft : NFT) : Bool := !nft.isRented

/-- The ids of the free entries, in pool order. -/
def State.available (s : State) : List UInt256 :=
  (s.availableNfts.entries.filter NFT.free).map NFT.id

theorem length_available (s : State) :
    s.available.length = s.availableNfts.entries.countP NFT.free := by
  rw [State.available, List.length_map, List.countP_eq_length_filter]

theorem length_available_lt (s : State) : s.available.length < maxArrayLength := by
  rw [length_available]
  exact Nat.lt_of_le_of_lt List.countP_le_length s.availableNfts.length_lt

/-- The result of the listing. -/
def State.listing (s : State) : DynArray UInt256 := ⟨s.available, length_available_lt s⟩

@[simp] theorem entries_listing (s : State) : s.listing.entries = s.available := rfl

/-! ## The two passes -/

/-- What the first `i` entries of the pool contribute to the listing. -/
def State.listed (s : State) (i : ℕ) : List UInt256 :=
  ((s.availableNfts.entries.take i).filter NFT.free).map NFT.id

section Passes

variable {s : State} {i idx : ℕ} {nft : NFT} {result : DynArray UInt256}

theorem listed_length : s.listed s.availableNfts.length = s.available := by
  rw [State.listed, List.take_length, State.available]

theorem listed_succ_of_rented (h : s.availableNfts.entries[i]? = some nft)
    (hr : nft.isRented = true) : s.listed (i + 1) = s.listed i := by
  simp [State.listed, List.take_add_one, h, NFT.free, hr]

theorem listed_succ_of_free (h : s.availableNfts.entries[i]? = some nft)
    (hr : nft.isRented = false) : s.listed (i + 1) = s.listed i ++ [nft.id] := by
  simp [State.listed, List.take_add_one, h, NFT.free, hr]

theorem length_listed_le (s : State) (i : ℕ) : (s.listed i).length ≤ s.available.length :=
  (((List.take_sublist i _).filter NFT.free).map NFT.id).length_le

/-- The counting pass counts the free entries. -/
theorem countAvailable_eq (s : State) : countAvailable s = .ok s.available.length := by
  rw [countAvailable]
  refine forIn_range_bind (fun i count => count = (s.listed i).length) ?_ rfl ?_
  · rintro i hi count rfl
    obtain ⟨nft, hx⟩ : ∃ nft, s.availableNfts.entries[i]? = some nft :=
      ⟨_, List.getElem?_eq_getElem hi⟩
    simp only [DynArray.get_ok hx, ok_bind]
    refine ⟨_, ?_, rfl⟩
    cases hr : nft.isRented with
    | false =>
      rw [listed_succ_of_free hx hr, List.length_append]
      rfl
    | true =>
      rw [listed_succ_of_rented hx hr]
      rfl
  · rintro count rfl
    rw [listed_length]
    rfl

/-- The invariant of the filling pass, before entry `i`: the fill index is the number
of free entries seen, and the result holds their ids, followed by the zeros that are
still to be overwritten. -/
structure Filling (s : State) (i : ℕ) (result : DynArray UInt256) (idx : ℕ) : Prop where
  /-- the fill index -/
  idx_eq : idx = (s.listed i).length
  /-- the result so far -/
  entries_eq : result.entries = s.listed i ++ List.replicate (s.available.length - idx) 0

/-- Throughout the pass, the result has the allocated length. -/
theorem Filling.length_eq (h : Filling s i result idx) :
    result.length = s.available.length := by
  have hle := length_listed_le s i
  rw [DynArray.length, h.entries_eq, List.length_append, List.length_replicate, h.idx_eq]
  omega

/-- A free entry finds the fill index in bounds, and its id goes there. -/
theorem Filling.write (h : Filling s i result idx) (hx : s.availableNfts.entries[i]? = some nft)
    (hr : nft.isRented = false) :
    ∃ result', result.set idx nft.id = .ok result' ∧ Filling s (i + 1) result' (idx + 1) := by
  have hsucc := listed_succ_of_free hx hr
  -- the entry was counted, so the counted length has room for it
  obtain ⟨n, hn⟩ : ∃ n, s.available.length = idx + (n + 1) := by
    have hle := length_listed_le s (i + 1)
    rw [hsucc, List.length_append, List.length_singleton, ← h.idx_eq] at hle
    exact ⟨s.available.length - idx - 1, by omega⟩
  have hbound : idx < result.length := by
    rw [h.length_eq]
    omega
  obtain ⟨result', hset, hentries⟩ := DynArray.set_ok hbound nft.id
  refine ⟨result', hset, ?_, ?_⟩
  · rw [hsucc, List.length_append, h.idx_eq]
    rfl
  · have hbefore : s.available.length - idx = n + 1 := by omega
    have hafter : s.available.length - (idx + 1) = n := by omega
    rw [hentries, h.entries_eq, hbefore, hafter, hsucc, h.idx_eq,
      List.set_append_right _ _ (Nat.le_refl _), Nat.sub_self, List.replicate_succ,
      List.set_cons_zero, List.append_assoc, List.singleton_append]

/-- The filling pass, started on a result of the counted size: every write is in
bounds, and it ends with the listing, filled up to its end. -/
theorem fillAvailable_eq (s : State) :
    fillAvailable s.available.length s = .ok (s.listing, s.available.length) := by
  obtain ⟨fresh, hnew, hfresh⟩ := DynArray.new_ok (length_available_lt s) (0 : UInt256)
  simp only [fillAvailable, hnew, ok_bind]
  refine forIn_range_bind (fun i (st : DynArray UInt256 × ℕ) => Filling s i st.1 st.2)
    ?_ ⟨rfl, hfresh⟩ ?_
  · rintro i hi ⟨result, idx⟩ hfill
    obtain ⟨nft, hx⟩ : ∃ nft, s.availableNfts.entries[i]? = some nft :=
      ⟨_, List.getElem?_eq_getElem hi⟩
    simp only [DynArray.get_ok hx, ok_bind]
    cases hr : nft.isRented with
    | false =>
      obtain ⟨result', hset, hfill'⟩ := hfill.write hx hr
      refine ⟨(result', idx + 1), ?_, hfill'⟩
      simp only [hset]
      rfl
    | true =>
      have hsame := listed_succ_of_rented hx hr
      exact ⟨(result, idx), rfl, hsame ▸ hfill.idx_eq, hsame ▸ hfill.entries_eq⟩
  · rintro ⟨result, idx⟩ ⟨hidx, hresult⟩
    rw [listed_length] at hidx hresult
    have : result = s.listing := by
      ext1
      rw [hresult, hidx, Nat.sub_self, List.replicate_zero, List.append_nil, entries_listing]
    rw [this, hidx]
    rfl

/-- **The listing**: `getAvailableNfts` never reverts, and returns the ids of the free
entries in pool order. -/
theorem getAvailableNfts_eq (s : State) : getAvailableNfts s = .ok s.listing := by
  rw [getAvailableNfts, countAvailable_eq, ok_bind, fillAvailable_eq]
  rfl

end Passes

/-! ## The listing and the calls that change it -/

section Calls

variable {s s' : State} {env : Env} {k : UInt256}

/-- `k` is listed exactly when `rentNft(k)` would find an entry. -/
theorem mem_available_iff :
    k ∈ s.available ↔ s.availableNfts.entries.any (NFT.isFree k) = true := by
  rw [State.available, List.mem_map, List.any_eq_true]
  constructor
  · rintro ⟨nft, hmem, hid⟩
    obtain ⟨hnft, hfree⟩ := List.mem_filter.mp hmem
    exact ⟨nft, hnft, NFT.isFree_iff.mpr ⟨hid, by simpa [NFT.free] using hfree⟩⟩
  · rintro ⟨nft, hnft, hfree⟩
    obtain ⟨hid, hr⟩ := NFT.isFree_iff.mp hfree
    exact ⟨nft, List.mem_filter.mpr ⟨hnft, by simp [NFT.free, hr]⟩, hid⟩

/-- A copy can be stored as long as the pool has room, as `DynArray.push` has it: compiled code
would take one entry more. -/
theorem store_commits_iff :
    (∃ s', store k s = .ok s') ↔ s.availableNfts.length + 1 < maxArrayLength := by
  rw [← DynArray.push_commits_iff (x := ⟨k, false⟩)]
  constructor
  · rintro ⟨s', h⟩
    obtain ⟨pool, hpush, -⟩ := store_eq_ok_iff.mp h
    exact ⟨pool, hpush⟩
  · rintro ⟨pool, hpush⟩
    exact ⟨_, store_eq_ok_iff.mpr ⟨pool, hpush, rfl⟩⟩

/-- A rental takes the first occurrence of its id out of the listing. -/
theorem available_rented : (s.rented env k).available = s.available.erase k := by
  refine FirstMatch.map_filter_updateFirst_erase ?_ ?_
  · intro nft
    rw [NFT.isFree_iff]
    simp [NFT.free]
  · intro nft _
    rfl

/-- A new copy goes to the end of the listing. -/
theorem available_push {pool : DynArray NFT}
    (hpush : s.availableNfts.push ⟨k, false⟩ = .ok pool) :
    ({ s with availableNfts := pool } : State).available = s.available ++ [k] := by
  simp [State.available, DynArray.push_eq_ok hpush, NFT.free]

/-- An idle sender can rent exactly the ids that are listed. -/
theorem rentNft_commits_iff (hidle : (s.rentals env.sender).active = false) :
    (∃ s', rentNft env k s = .ok s') ↔ k ∈ s.available := by
  rw [mem_available_iff]
  constructor
  · rintro ⟨s', h⟩
    obtain ⟨-, hfree, -⟩ := rentNft_eq_ok_iff.mp h
    exact hfree
  · intro h
    exact ⟨_, rentNft_eq_ok_iff.mpr ⟨hidle, h, rfl⟩⟩

end Calls

/-- **The listing and the renting path agree.** For every pool: the counting and the
filling pass do not revert, the fill index ends at the length that was allocated, and
`getAvailableNfts` returns the ids of the free entries in pool order. An idle sender
can rent exactly the listed ids; a rental takes out the first occurrence of its id and
keeps the order of the others, and a stored id is appended if the pool has room. -/
theorem listing_agrees_with_renting (s : State) :
    ∃ count result,
      countAvailable s = .ok count ∧
      fillAvailable count s = .ok (result, count) ∧ result.length = count ∧
      getAvailableNfts s = .ok result ∧
      result.entries =
        (s.availableNfts.entries.filter fun nft => !nft.isRented).map NFT.id ∧
      (∀ env k, (s.rentals env.sender).active = false →
        ((∃ s', rentNft env k s = .ok s') ↔ k ∈ result.entries)) ∧
      (∀ env k s', rentNft env k s = .ok s' →
        ∃ result', getAvailableNfts s' = .ok result' ∧
          result'.entries = result.entries.erase k) ∧
      (∀ k s', store k s = .ok s' →
        ∃ result', getAvailableNfts s' = .ok result' ∧
          result'.entries = result.entries ++ [k]) ∧
      (∀ k, (∃ s', store k s = .ok s') ↔ s.availableNfts.length + 1 < maxArrayLength) := by
  refine ⟨s.available.length, s.listing, countAvailable_eq s, fillAvailable_eq s, rfl,
    getAvailableNfts_eq s, rfl, fun env k => rentNft_commits_iff, ?_, ?_,
    fun k => store_commits_iff⟩
  · intro env k s' h
    obtain ⟨-, -, rfl⟩ := rentNft_eq_ok_iff.mp h
    exact ⟨_, getAvailableNfts_eq _, available_rented⟩
  · intro k s' h
    obtain ⟨pool, hpush, rfl⟩ := store_eq_ok_iff.mp h
    exact ⟨_, getAvailableNfts_eq _, available_push hpush⟩

end NFTRentLight

end NftGame

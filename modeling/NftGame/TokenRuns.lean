import NftGame.Reentrancy
import NftGame.TokenLists

/-!
# What the token views answer

From deployment on, whatever is called and whatever the receivers of tokens do, the lists are
kept (`inv_run`): an action that commits keeps them, and so does every run. What the views
answer is then exactly the tokens there are, and those of each owner (`enumeration_exact`).

The rest of the contract is that of `ERC721`, and the actions have the effects they have there
(`act_effect`).
-/

namespace NftGame

open Solidity Transaction

namespace ERC721Enumerable

open ERC721 (Action Effect Error Tx transact)

/-! ## The token contract inside -/

section Inside

variable {s s' : State} {newOwner auth owner : Address} {tokenId : UInt256}

theorem toState_addTokenToOwnerEnumeration
    (h : addTokenToOwnerEnumeration newOwner tokenId s = .ok s') : s'.toState = s.toState := by
  obtain ⟨balance, -, h⟩ := bind_eq_ok h
  obtain ⟨length, -, h⟩ := bind_eq_ok h
  cases h
  rfl

theorem toState_addTokenToAllTokensEnumeration
    (h : addTokenToAllTokensEnumeration tokenId s = .ok s') : s'.toState = s.toState := by
  obtain ⟨allTokens, -, h⟩ := bind_eq_ok h
  cases h
  rfl

theorem toState_removeTokenFromOwnerEnumeration
    (h : removeTokenFromOwnerEnumeration owner tokenId s = .ok s') : s'.toState = s.toState := by
  obtain ⟨lastTokenIndex, -, h⟩ := bind_eq_ok h
  dsimp only at h
  split at h <;> cases h <;> rfl

theorem toState_removeTokenFromAllTokensEnumeration
    (h : removeTokenFromAllTokensEnumeration tokenId s = .ok s') : s'.toState = s.toState := by
  obtain ⟨lastTokenIndex, -, h⟩ := bind_eq_ok h
  obtain ⟨lastTokenId, -, h⟩ := bind_eq_ok h
  obtain ⟨swapped, -, h⟩ := bind_eq_ok h
  obtain ⟨allTokens, -, h⟩ := bind_eq_ok h
  cases h
  rfl

theorem toState_fromSide (h : fromSide owner newOwner tokenId s = .ok s') :
    s'.toState = s.toState := by
  rw [fromSide] at h
  split at h
  · exact toState_addTokenToAllTokensEnumeration h
  · split at h
    · cases h
      rfl
    · exact toState_removeTokenFromOwnerEnumeration h

theorem toState_toSide (h : toSide owner newOwner tokenId s = .ok s') :
    s'.toState = s.toState := by
  rw [toSide] at h
  split at h
  · exact toState_removeTokenFromAllTokensEnumeration h
  · split at h
    · cases h
      rfl
    · exact toState_addTokenToOwnerEnumeration h

/-- The overridden `_update` does to the token contract what the original does. -/
theorem super_update (h : update newOwner tokenId auth s = .ok (s', owner)) :
    ERC721.update newOwner tokenId auth s.toState = .ok (s'.toState, owner) := by
  rw [update_eq_bind] at h
  obtain ⟨⟨base, previousOwner⟩, hbase, h⟩ := bind_eq_ok h
  obtain ⟨s₁, hfrom, h⟩ := bind_eq_ok h
  obtain ⟨s₂, hto, h⟩ := bind_eq_ok h
  cases h
  rw [hbase, toState_toSide hto, toState_fromSide hfrom]

/-- What is done to the token contract inside only, it has done. -/
theorem eq_ok_of_base {x : Except Error ERC721.State}
    (h : (do let base ← x; return { s with toState := base }) = .ok s') : x = .ok s'.toState := by
  obtain ⟨base, hbase, h⟩ := bind_eq_ok h
  cases h
  exact hbase

/-- The actions of this contract have the effects they have on the original. -/
theorem act_effect {action : Action} (h : act action s = .ok s') :
    Effect s.toState action s'.toState := by
  rw [← ERC721.act_eq_ok_iff]
  cases action with
  | approve sender approved tokenId => exact eq_ok_of_base h
  | setApprovalForAll sender operator approved => exact eq_ok_of_base h
  | transferFrom sender owner newOwner tokenId =>
    obtain ⟨hnew, hupdate⟩ := ERC721.transferFrom_eq_ok_iff.mp h
    exact ERC721.transferFrom_eq_ok_iff.mpr ⟨hnew, super_update hupdate⟩
  | mint newOwner tokenId =>
    obtain ⟨hnew, hupdate⟩ := ERC721.mint_eq_ok_iff.mp h
    exact ERC721.mint_eq_ok_iff.mpr ⟨hnew, super_update hupdate⟩
  | burn tokenId =>
    obtain ⟨owner, hne, hupdate⟩ := ERC721.burn_eq_ok_iff.mp h
    exact ERC721.burn_eq_ok_iff.mpr ⟨owner, hne, super_update hupdate⟩
  | transfer owner newOwner tokenId =>
    obtain ⟨hnew, hne, hupdate⟩ := ERC721.transfer_eq_ok_iff.mp h
    exact ERC721.transfer_eq_ok_iff.mpr ⟨hnew, hne, super_update hupdate⟩
  | setApproval approved tokenId auth emitEvent => exact eq_ok_of_base h
  | setApprovalForAllOf owner operator approved => exact eq_ok_of_base h
  | update newOwner tokenId auth =>
    obtain ⟨owner, hupdate⟩ := ERC721.discard_eq_ok_iff.mp h
    exact ERC721.discard_eq_ok_iff.mpr ⟨owner, super_update hupdate⟩

end Inside

/-! ## The lists along a run -/

section Runs

variable {s s' : State} {newOwner auth owner : Address} {tokenId : UInt256}

theorem eq_ok_of_checked {α : Type} {x : Except Revert α} {a : α} (h : checked x = .ok a) :
    x = .ok a := by
  rcases x with e | b
  · cases h
  · cases h
    rfl

/-- Where the list of all tokens has no room, nothing can be added to it. -/
theorem room_of_update (h : update newOwner tokenId auth s = .ok (s', owner)) :
    s.owners tokenId ≠ 0 ∨ s.allTokens.length + 1 < maxArrayLength := by
  by_cases hnone : s.owners tokenId = 0
  · right
    obtain ⟨-, howner, -⟩ := ERC721.update_eq_ok_iff.mp (super_update h)
    rw [update_eq_bind] at h
    obtain ⟨⟨base, previousOwner⟩, hbase, h⟩ := bind_eq_ok h
    obtain ⟨s₁, hfrom, -⟩ := bind_eq_ok h
    obtain ⟨-, hprevious, -⟩ := ERC721.update_eq_ok_iff.mp hbase
    rw [fromSide, if_pos (hprevious.symm.trans hnone)] at hfrom
    obtain ⟨allTokens, hpush, -⟩ := bind_eq_ok hfrom
    exact DynArray.push_commits_iff.mp ⟨allTokens, eq_ok_of_checked hpush⟩
  · exact .inl hnone

/-- `_update` keeps the invariant whenever it commits. -/
theorem Inv.update (hs : Inv s) (h : update newOwner tokenId auth s = .ok (s', owner)) :
    Inv s' := by
  obtain ⟨hallows, howner, -⟩ := ERC721.update_eq_ok_iff.mp (super_update h)
  have hspec : s.Updates newOwner tokenId auth := update_spec hs hallows (room_of_update h)
  obtain ⟨s₁, hupdate, -, hs₁⟩ := hspec
  rw [hupdate] at h
  cases h
  exact hs₁

/-- The invariant does not look at approvals. -/
theorem Inv.congr_base {base : ERC721.State} (hs : Inv s) (howners : base.owners = s.owners)
    (hbalances : base.balances = s.balances) : Inv { s with toState := base } := by
  have htokens : base.tokensOf = s.tokensOf := by
    funext owner
    rw [ERC721.State.tokensOf, howners, ERC721.State.tokensOf]
  constructor
  · intro owner howner
    dsimp only
    rw [htokens, hbalances]
    exact hs.owned owner howner
  · dsimp only
    rw [htokens]
    exact hs.all

/-- What moves no tokens inside, the lists need not follow. -/
theorem Inv.of_base {x : Except Error ERC721.State} (hs : Inv s)
    (hx : ∀ base, x = .ok base → base.owners = s.owners ∧ base.balances = s.balances)
    (h : (do let base ← x; return { s with toState := base }) = .ok s') : Inv s' := by
  obtain ⟨base, hbase, h⟩ := bind_eq_ok h
  obtain ⟨howners, hbalances⟩ := hx base hbase
  cases h
  exact hs.congr_base howners hbalances

theorem Inv.act {action : Action} (hs : Inv s) (h : act action s = .ok s') : Inv s' := by
  cases action with
  | approve sender approved tokenId => exact hs.of_base (fun _ => ERC721.setApproval_keeps) h
  | setApprovalForAll sender operator approved =>
    exact hs.of_base (fun _ => ERC721.setApprovalForAll_keeps) h
  | transferFrom sender owner newOwner tokenId =>
    obtain ⟨-, hupdate⟩ := ERC721.transferFrom_eq_ok_iff.mp h
    exact hs.update hupdate
  | mint newOwner tokenId =>
    obtain ⟨-, hupdate⟩ := ERC721.mint_eq_ok_iff.mp h
    exact hs.update hupdate
  | burn tokenId =>
    obtain ⟨_, -, hupdate⟩ := ERC721.burn_eq_ok_iff.mp h
    exact hs.update hupdate
  | transfer owner newOwner tokenId =>
    obtain ⟨-, -, hupdate⟩ := ERC721.transfer_eq_ok_iff.mp h
    exact hs.update hupdate
  | setApproval approved tokenId auth emitEvent =>
    exact hs.of_base (fun _ => ERC721.setApproval_keeps) h
  | setApprovalForAllOf owner operator approved =>
    exact hs.of_base (fun _ => ERC721.setApprovalForAll_keeps) h
  | update newOwner tokenId auth =>
    obtain ⟨_, hupdate⟩ := ERC721.discard_eq_ok_iff.mp h
    exact hs.update hupdate

theorem inv_run (txs : List Tx) : Inv (run (transact act) deployed txs) :=
  ERC721.transact_invariant (fun _ _ _ _ hs h => hs.act h) inv_deployed

/-- A move makes the list of all tokens longer if the token is new, and shorter if it is
burned. -/
theorem Inv.length_moved (hs : Inv s) (hs' : Inv s') {newOwner : Address} {tokenId : UInt256}
    (h : s'.toState = s.toState.moved newOwner tokenId) :
    s'.allTokens.length + (if newOwner = 0 then 1 else 0) =
      s.allTokens.length + (if s.owners tokenId = 0 then 1 else 0) := by
  rw [← hs.all.ncard_eq, ← hs'.all.ncard_eq, h]
  have hnew : s.owners tokenId = 0 → tokenId ∉ (s.tokensOf 0)ᶜ := fun hnone h => h hnone
  have hold : s.owners tokenId ≠ 0 → tokenId ∈ (s.tokensOf 0)ᶜ := id
  by_cases hburn : newOwner = 0
  · subst hburn
    rw [ERC721.compl_tokensOf_burned, if_pos rfl]
    by_cases hnone : s.owners tokenId = 0
    · rw [if_pos hnone, Set.sdiff_singleton_eq_self (hnew hnone)]
    · rw [if_neg hnone]
      exact Set.ncard_sdiff_singleton_add_one (hold hnone) hs.all.finite
  · rw [ERC721.compl_tokensOf_moved hburn, if_neg hburn]
    by_cases hnone : s.owners tokenId = 0
    · rw [if_pos hnone]
      exact Set.ncard_insert_of_notMem (hnew hnone) hs.all.finite
    · rw [if_neg hnone, Set.insert_eq_of_mem (hold hnone)]

end Runs

/-! ## What the views answer -/

/-- A view that lists the tokens of `S`: it answers below `n`, and each of the tokens once. -/
structure Exact (view : UInt256 → Except Error UInt256) (n : UInt256) (S : Set UInt256) :
    Prop where
  /-- it answers below `n` -/
  answers : ∀ index, (∃ tokenId, view index = .ok tokenId) ↔ index < n
  /-- with tokens of the set -/
  sound : ∀ index tokenId, view index = .ok tokenId → tokenId ∈ S
  /-- each of them at one index -/
  once : ∀ tokenId ∈ S, ∃! index, view index = .ok tokenId
  /-- there are `n` of them -/
  count : S.ncard = n.toNat

section Views

variable {s : State} {owner : Address}

theorem exact_of_enumerates {slot : ℕ → UInt256} {pos : UInt256 → ℕ} {n : UInt256}
    {S : Set UInt256} {view : UInt256 → Except Error UInt256}
    (h : Enumerates slot pos n.toNat S)
    (hin : ∀ index, index < n → view index = .ok (slot index.toNat))
    (hout : ∀ index, ¬ index < n → ∃ e, view index = .error e) : Exact view n S := by
  have hlt : ∀ index tokenId, view index = .ok tokenId →
      index < n ∧ slot index.toNat = tokenId := by
    intro index tokenId hview
    by_cases hindex : index < n
    · rw [hin index hindex] at hview
      exact ⟨hindex, Except.ok.inj hview⟩
    · obtain ⟨e, he⟩ := hout index hindex
      rw [he] at hview
      cases hview
  refine ⟨fun index => ⟨?_, ?_⟩, ?_, ?_, h.ncard_eq⟩
  · rintro ⟨tokenId, hview⟩
    exact (hlt index tokenId hview).1
  · exact fun hindex => ⟨_, hin index hindex⟩
  · intro index tokenId hview
    obtain ⟨hindex, rfl⟩ := hlt index tokenId hview
    exact h.slot_mem _ hindex
  · intro tokenId htoken
    have hpos := h.pos_lt tokenId htoken
    have hindex : (BitVec.ofNat 256 (pos tokenId)).toNat = pos tokenId := by
      rw [BitVec.toNat_ofNat, Nat.mod_eq_of_lt (hpos.trans n.isLt)]
    refine ⟨BitVec.ofNat 256 (pos tokenId), ?_, ?_⟩
    · dsimp only
      rw [hin, hindex, h.slot_pos tokenId htoken]
      rw [BitVec.lt_def, hindex]
      exact hpos
    · intro index hview
      obtain ⟨hlt, rfl⟩ := hlt index tokenId hview
      rw [h.pos_slot _ hlt, BitVec.ofNat_toNat, BitVec.setWidth_eq]

theorem tokenByIndex_eq (index : UInt256) (s : State) :
    tokenByIndex index s =
      if index < totalSupply s then checked (s.allTokens.get index.toNat)
      else .error (.outOfBoundsIndex 0 index) := by
  rw [tokenByIndex]
  by_cases hindex : index < totalSupply s
  · simp only [ge_iff_le, BitVec.not_le.mpr hindex, hindex, if_true, if_false]
  · simp only [ge_iff_le, BitVec.not_lt.mp hindex, hindex, if_true, if_false]
    rfl

theorem tokenOfOwnerByIndex_eq (howner : owner ≠ 0) (index : UInt256) (s : State) :
    tokenOfOwnerByIndex owner index s =
      if index < s.balances owner then .ok (s.ownedTokens owner index)
      else .error (.outOfBoundsIndex owner index) := by
  rw [tokenOfOwnerByIndex, ERC721.balanceOf_eq howner]
  by_cases hindex : index < s.balances owner
  · simp only [ok_bind, ge_iff_le, BitVec.not_le.mpr hindex, hindex, if_true, if_false]
    rfl
  · simp only [ok_bind, ge_iff_le, BitVec.not_lt.mp hindex, hindex, if_true, if_false]
    rfl

theorem Inv.exact_tokenByIndex (hs : Inv s) :
    Exact (tokenByIndex · s) (totalSupply s)
      {tokenId | ∃ owner, ERC721.ownerOf tokenId s.toState = .ok owner} := by
  have htokens : {tokenId | ∃ owner, ERC721.ownerOf tokenId s.toState = .ok owner} =
      (s.tokensOf 0)ᶜ := by
    ext tokenId
    simp only [ERC721.ownerOf_eq_ok_iff]
    exact ⟨fun ⟨_, hne, howner⟩ hzero => hne (howner.symm.trans hzero),
      fun hne => ⟨_, hne, rfl⟩⟩
  have hlength : (totalSupply s).toNat = s.allTokens.length := s.allTokens.toNat_length
  have hall := hs.all
  rw [State.Listed, ← hlength] at hall
  rw [htokens]
  refine exact_of_enumerates hall (fun index hindex => ?_) (fun index hindex => ?_)
  · have hlt : index.toNat < s.allTokens.entries.length :=
      (BitVec.lt_def.mp hindex).trans_eq hlength
    rw [tokenByIndex_eq, if_pos hindex, DynArray.get_ok, checked_ok]
    rw [List.getElem?_eq_getElem hlt, Option.getD_some]
  · rw [tokenByIndex_eq, if_neg hindex]
    exact ⟨_, rfl⟩

theorem Inv.exact_tokenOfOwnerByIndex (hs : Inv s) (howner : owner ≠ 0) :
    Exact (tokenOfOwnerByIndex owner · s) (s.balances owner)
      {tokenId | ERC721.ownerOf tokenId s.toState = .ok owner} := by
  have htokens : {tokenId | ERC721.ownerOf tokenId s.toState = .ok owner} = s.tokensOf owner := by
    ext tokenId
    exact ERC721.ownerOf_eq_ok_iff.trans (and_iff_right howner)
  rw [htokens]
  refine exact_of_enumerates (hs.owned owner howner) (fun index hindex => ?_)
    (fun index hindex => ?_)
  · rw [tokenOfOwnerByIndex_eq howner, if_pos hindex, BitVec.ofNat_toNat, BitVec.setWidth_eq]
  · rw [tokenOfOwnerByIndex_eq howner, if_neg hindex]
    exact ⟨_, rfl⟩

end Views

/-- **The views list the tokens**: after any run, every token there is is listed once, and the
tokens of every owner are, and the counts are right. -/
theorem enumeration_exact (txs : List Tx) :
    let s := run (transact act) deployed txs
    Exact (tokenByIndex · s) (totalSupply s)
        {tokenId | ∃ owner, ERC721.ownerOf tokenId s.toState = .ok owner} ∧
      ∀ owner, owner ≠ 0 → ∃ balance, ERC721.balanceOf owner s.toState = .ok balance ∧
        Exact (tokenOfOwnerByIndex owner · s) balance
          {tokenId | ERC721.ownerOf tokenId s.toState = .ok owner} := by
  have hs := inv_run txs
  refine ⟨hs.exact_tokenByIndex, fun owner howner => ?_⟩
  exact ⟨_, ERC721.balanceOf_eq howner _, hs.exact_tokenOfOwnerByIndex howner⟩

end ERC721Enumerable

end NftGame

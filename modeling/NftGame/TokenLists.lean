import NftGame.ERC721Enumerable
import NftGame.Enumerates
import NftGame.TokenEffects

/-!
# The lists of tokens

`ERC721Enumerable` keeps two kinds of lists, each with a table of positions: one of all
tokens, and one for each owner. All owners share one table. Each list is an enumeration
(`Enumerates`) of a set that the token contract determines, and as long as it says: that is
the invariant (`Inv`).

The four functions that add a token to a list or remove it are proved first, each to do that
and to leave the other lists alone. `_update` calls two of them at most, after the token
contract has changed owner and balances, so between the two the lists are those of neither
state (`Taken`). In the end they are those of the new one, and neither of them has failed,
unless the list of all tokens has no room (`update_spec`).
-/

namespace NftGame

open Solidity

namespace ERC721Enumerable

open ERC721 (Error)

/-! ## The lists -/

/-- The tokens of `S` are listed, as many as `n`, as those of `owner`. -/
def State.ListedFor (s : State) (owner : Address) (n : ℕ) (S : Set UInt256) : Prop :=
  Enumerates (fun i => s.ownedTokens owner (BitVec.ofNat 256 i))
    (fun tokenId => (s.ownedTokensIndex tokenId).toNat) n S

/-- The tokens of `S` are all that are listed. -/
def State.Listed (s : State) (S : Set UInt256) : Prop :=
  Enumerates (fun i => s.allTokens.entries[i]?.getD 0)
    (fun tokenId => (s.allTokensIndex tokenId).toNat) s.allTokens.length S

section Lists

variable {s : State} {owner : Address} {tokenId : UInt256} {S : Set UInt256} {n : ℕ}

/-- Nothing but the lists of the owners has changed. -/
structure State.OwnersOnly (s s' : State) : Prop where
  /-- not the token contract -/
  toState : s'.toState = s.toState
  /-- not the list of all tokens -/
  allTokens : s'.allTokens = s.allTokens
  /-- not the positions in it -/
  allTokensIndex : s'.allTokensIndex = s.allTokensIndex

/-- Nothing but the list of all tokens has changed. -/
structure State.AllOnly (s s' : State) : Prop where
  /-- not the token contract -/
  toState : s'.toState = s.toState
  /-- not the lists of the owners -/
  ownedTokens : s'.ownedTokens = s.ownedTokens
  /-- not the positions in them -/
  ownedTokensIndex : s'.ownedTokensIndex = s.ownedTokensIndex

theorem State.OwnersOnly.listed {s' : State} (h : s.OwnersOnly s') (hs : s.Listed S) :
    s'.Listed S := by
  rwa [State.Listed, h.allTokens, h.allTokensIndex]

theorem State.AllOnly.listedFor {s' : State} (h : s.AllOnly s') (hs : s.ListedFor owner n S) :
    s'.ListedFor owner n S := by
  rwa [State.ListedFor, h.ownedTokens, h.ownedTokensIndex]

@[simp] theorem checked_ok {α : Type} (a : α) : checked (.ok a) = .ok a := rfl

/-- The slots after one has been written to. -/
theorem ownedTokens_setOwnedToken (s : State) (owner : Address) (index tokenId : UInt256) {i : ℕ}
    (hi : i < 2 ^ 256) :
    (s.setOwnedToken owner index tokenId).ownedTokens owner (BitVec.ofNat 256 i) =
      Function.update (fun i => s.ownedTokens owner (BitVec.ofNat 256 i)) index.toNat tokenId
        i := by
  have hindex : BitVec.ofNat 256 i = index ↔ i = index.toNat := by
    rw [← BitVec.toNat_inj, BitVec.toNat_ofNat, Nat.mod_eq_of_lt hi]
  change Function.update s.ownedTokens owner (Function.update (s.ownedTokens owner) index tokenId)
    owner _ = _
  rw [Function.update_self]
  by_cases h : i = index.toNat
  · rw [hindex.mpr h, h, Function.update_self, Function.update_self]
  · rw [Function.update_of_ne (mt hindex.mp h), Function.update_of_ne h]

theorem ownedTokens_setOwnedToken_of_ne {a : Address} (ha : a ≠ owner) (index : UInt256) :
    (s.setOwnedToken owner index tokenId).ownedTokens a = s.ownedTokens a :=
  Function.update_of_ne ha ..

/-- The positions after one has been written to. -/
theorem toNat_update (index : UInt256 → UInt256) (tokenId value x : UInt256) :
    (Function.update index tokenId value x).toNat =
      Function.update (fun x => (index x).toNat) tokenId value.toNat x := by
  by_cases h : x = tokenId
  · subst h
    rw [Function.update_self, Function.update_self]
  · rw [Function.update_of_ne h, Function.update_of_ne h]

theorem addTokenToOwnerEnumeration_spec (howner : owner ≠ 0) (h : s.ListedFor owner n S)
    (htoken : tokenId ∉ S) (hbalance : (s.balances owner).toNat = n + 1) :
    ∃ s', addTokenToOwnerEnumeration owner tokenId s = .ok s' ∧ s.OwnersOnly s' ∧
      s'.ListedFor owner (n + 1) (insert tokenId S) ∧
      ∀ a m T, a ≠ owner → tokenId ∉ T → s.ListedFor a m T → s'.ListedFor a m T := by
  have hone : (1 : UInt256) ≤ s.balances owner := by
    rw [BitVec.le_def, hbalance]
    exact Nat.le_add_left 1 n
  have hlength : (s.balances owner - 1).toNat = n := by
    rw [BitVec.toNat_sub_of_le hone, hbalance]
    rfl
  have hbound := (s.balances owner).isLt
  refine ⟨{ s.setOwnedToken owner (s.balances owner - 1) tokenId with
    ownedTokensIndex :=
      Function.update s.ownedTokensIndex tokenId (s.balances owner - 1) }, ?_, ⟨rfl, rfl, rfl⟩,
    ?_, ?_⟩
  · rw [addTokenToOwnerEnumeration, ERC721.balanceOf_eq howner]
    simp only [ok_bind, checkedSub_ok hone, checked_ok]
    rfl
  · refine (h.push htoken).congr (fun i hi => ?_) (fun x _ => ?_)
    · refine (ownedTokens_setOwnedToken s owner _ _ (by omega)).trans ?_
      rw [hlength]
    · refine (toNat_update ..).trans ?_
      rw [hlength]
  · intro a m T ha htoken hT
    refine hT.congr (fun i _ => ?_) (fun x hx => ?_)
    · exact congrFun (ownedTokens_setOwnedToken_of_ne ha _) _
    · have hne : x ≠ tokenId := fun heq => htoken (heq ▸ hx)
      dsimp only
      rw [Function.update_of_ne hne]

/-- The last token of the owner has taken the place of another one. -/
def State.swapLast (s : State) (owner : Address) (tokenId : UInt256) : State :=
  if s.ownedTokensIndex tokenId = s.balances owner then s
  else
    { s.setOwnedToken owner (s.ownedTokensIndex tokenId)
        (s.ownedTokens owner (s.balances owner)) with
      ownedTokensIndex := Function.update s.ownedTokensIndex
        (s.ownedTokens owner (s.balances owner)) (s.ownedTokensIndex tokenId) }

/-- The swap is skipped where it would change nothing. -/
theorem swapLast_spec (h : s.ListedFor owner (n + 1) S) (htoken : tokenId ∈ S)
    (hbalance : (s.balances owner).toNat = n) :
    s.OwnersOnly (s.swapLast owner tokenId) ∧
      (s.swapLast owner tokenId).ListedFor owner n (S \ {tokenId}) ∧
      ∀ a m T, a ≠ owner → (∀ t ∈ S, t ∉ T) → s.ListedFor a m T →
        (s.swapLast owner tokenId).ListedFor a m T := by
  have hlt := (s.balances owner).isLt
  have hlast : BitVec.ofNat 256 n = s.balances owner := by
    rw [← hbalance, BitVec.ofNat_toNat, BitVec.setWidth_eq]
  have hpop := h.swapPop htoken
  have hlastMem : s.ownedTokens owner (s.balances owner) ∈ S := by
    rw [← hlast]
    exact h.slot_mem n (Nat.lt_succ_self n)
  rw [State.swapLast]
  split
  · next hsame =>
    -- the token is the last one
    refine ⟨⟨rfl, rfl, rfl⟩, hpop.congr (fun i hi => ?_) (fun x hx => ?_), fun _ _ _ _ _ hT => hT⟩
    · have hne : i ≠ (s.ownedTokensIndex tokenId).toNat := by
        rw [hsame, hbalance]
        exact hi.ne
      rw [Function.update_of_ne hne]
    · have hself : s.ownedTokens owner (BitVec.ofNat 256 n) = tokenId := by
        have hslot := h.slot_pos tokenId htoken
        rwa [hsame, hbalance] at hslot
      have hne : x ≠ s.ownedTokens owner (BitVec.ofNat 256 n) := by
        rw [hself]
        exact hx.2
      rw [Function.update_of_ne hne]
  · next hne =>
    refine ⟨⟨rfl, rfl, rfl⟩, hpop.congr (fun i hi => ?_) (fun x _ => ?_), ?_⟩
    · refine (ownedTokens_setOwnedToken s owner _ _ (by omega)).trans ?_
      rw [hlast]
    · refine (toNat_update ..).trans ?_
      rw [hlast]
    · intro a m T ha hdisjoint hT
      refine hT.congr (fun i _ => ?_) (fun x hx => ?_)
      · exact congrFun (ownedTokens_setOwnedToken_of_ne ha _) _
      · have hne : x ≠ s.ownedTokens owner (s.balances owner) := by
          rintro rfl
          exact hdisjoint _ hlastMem hx
        dsimp only
        rw [Function.update_of_ne hne]

theorem removeTokenFromOwnerEnumeration_spec (howner : owner ≠ 0)
    (h : s.ListedFor owner (n + 1) S) (htoken : tokenId ∈ S)
    (hbalance : (s.balances owner).toNat = n) :
    ∃ s', removeTokenFromOwnerEnumeration owner tokenId s = .ok s' ∧ s.OwnersOnly s' ∧
      s'.ListedFor owner n (S \ {tokenId}) ∧
      ∀ a m T, a ≠ owner → (∀ t ∈ S, t ∉ T) → s.ListedFor a m T → s'.ListedFor a m T := by
  obtain ⟨honly, hlisted, hothers⟩ := swapLast_spec h htoken hbalance
  let s₁ := s.swapLast owner tokenId
  let s₂ : State := { s₁ with ownedTokensIndex := Function.update s₁.ownedTokensIndex tokenId 0 }
  have hlt := (s.balances owner).isLt
  refine ⟨s₂.setOwnedToken owner (s.balances owner) 0, ?_,
    ⟨honly.toState, honly.allTokens, honly.allTokensIndex⟩, ?_, ?_⟩
  · rw [removeTokenFromOwnerEnumeration, ERC721.balanceOf_eq howner]
    by_cases hsame : s.ownedTokensIndex tokenId = s.balances owner
    · simp only [ok_bind, s₂, s₁, State.swapLast, hsame, bne_self_eq_false, if_true]
      rfl
    · simp only [ok_bind, s₂, s₁, State.swapLast, bne_iff_ne.mpr hsame, hsame, if_true, if_false]
      rfl
  · refine hlisted.congr (fun i hi => ?_) (fun x hx => ?_)
    · refine (ownedTokens_setOwnedToken s₂ owner _ _ (by omega)).trans ?_
      rw [hbalance]
      exact Function.update_of_ne hi.ne ..
    · exact congrArg BitVec.toNat (Function.update_of_ne hx.2 ..)
  · intro a m T ha hdisjoint hT
    refine (hothers a m T ha hdisjoint hT).congr (fun i _ => ?_) (fun x hx => ?_)
    · exact congrFun (ownedTokens_setOwnedToken_of_ne ha _) _
    · have hne : x ≠ tokenId := fun heq => hdisjoint _ htoken (heq ▸ hx)
      exact congrArg BitVec.toNat (Function.update_of_ne hne ..)

theorem addTokenToAllTokensEnumeration_spec (h : s.Listed S) (htoken : tokenId ∉ S)
    (hroom : s.allTokens.length + 1 < maxArrayLength) :
    ∃ s', addTokenToAllTokensEnumeration tokenId s = .ok s' ∧ s.AllOnly s' ∧
      s'.Listed (insert tokenId S) := by
  obtain ⟨allTokens, hpush⟩ := DynArray.push_commits_iff (x := tokenId).mpr hroom
  have hentries := DynArray.push_eq_ok hpush
  let length := BitVec.ofNat 256 s.allTokens.length
  have hlength : length.toNat = s.allTokens.length := s.allTokens.toNat_length
  refine ⟨{ s with
    allTokens, allTokensIndex := Function.update s.allTokensIndex tokenId length }, ?_,
    ⟨rfl, rfl, rfl⟩, ?_⟩
  · rw [addTokenToAllTokensEnumeration]
    simp only [hpush, checked_ok]
    rfl
  · have hlen : allTokens.length = s.allTokens.length + 1 := by
      rw [DynArray.length, hentries, List.length_append, List.length_singleton]
    rw [State.Listed, hlen]
    refine (h.push htoken).congr (fun i hi => ?_) (fun x _ => ?_)
    · dsimp only
      rw [hentries]
      rcases Nat.lt_succ_iff_lt_or_eq.mp hi with hlt | rfl
      · rw [List.getElem?_append_left hlt, Function.update_of_ne hlt.ne]
      · rw [List.getElem?_concat_length, Function.update_self, Option.getD_some]
    · refine (toNat_update ..).trans ?_
      rw [hlength]

theorem removeTokenFromAllTokensEnumeration_spec (h : s.Listed S) (htoken : tokenId ∈ S) :
    ∃ s', removeTokenFromAllTokensEnumeration tokenId s = .ok s' ∧ s.AllOnly s' ∧
      s'.Listed (S \ {tokenId}) := by
  obtain ⟨m, hm⟩ : ∃ m, s.allTokens.entries.length = m + 1 :=
    Nat.exists_eq_add_one.mpr ((Nat.zero_le _).trans_lt (h.pos_lt tokenId htoken))
  have hlength : (BitVec.ofNat 256 s.allTokens.length).toNat = s.allTokens.entries.length :=
    s.allTokens.toNat_length
  have hone : (1 : UInt256) ≤ BitVec.ofNat 256 s.allTokens.length := by
    rw [BitVec.le_def, hlength, hm]
    exact Nat.le_add_left 1 m
  have hlast : (BitVec.ofNat 256 s.allTokens.length - 1).toNat = m := by
    rw [BitVec.toNat_sub_of_le hone, hlength, hm]
    rfl
  have hm' : m < s.allTokens.entries.length := by omega
  have hget : s.allTokens.get m = .ok (s.allTokens.entries[m]?.getD 0) := by
    refine DynArray.get_ok ?_
    rw [List.getElem?_eq_getElem hm', Option.getD_some]
  obtain ⟨swapped, hset, hswapped⟩ := DynArray.set_ok (h.pos_lt tokenId htoken)
    (s.allTokens.entries[m]?.getD 0)
  obtain ⟨allTokens, hpop, hentries⟩ := DynArray.pop_ok (a := swapped) (by
    rw [DynArray.length, hswapped, List.length_set]
    omega)
  refine ⟨{ s with
    allTokens, allTokensIndex := Function.update (Function.update s.allTokensIndex
      (s.allTokens.entries[m]?.getD 0) (s.allTokensIndex tokenId)) tokenId 0 }, ?_,
    ⟨rfl, rfl, rfl⟩, ?_⟩
  · rw [removeTokenFromAllTokensEnumeration]
    simp only [ok_bind, checkedSub_ok hone, checked_ok, hlast, hget, hset, hpop]
    rfl
  · have hlen : allTokens.length = m := by
      rw [DynArray.length, hentries, List.length_dropLast, hswapped, List.length_set]
      omega
    rw [State.Listed, hlen]
    rw [State.Listed, DynArray.length, hm] at h
    refine (h.swapPop htoken).congr (fun i hi => ?_) (fun x hx => ?_)
    · dsimp only
      rw [hentries, hswapped, List.getElem?_dropLast, List.length_set, if_pos (by omega),
        List.getElem?_set]
      by_cases hi' : i = (s.allTokensIndex tokenId).toNat
      · rw [if_pos hi'.symm, if_pos (by omega), hi', Function.update_self, Option.getD_some]
      · rw [if_neg (Ne.symm hi'), Function.update_of_ne hi']
    · dsimp only
      rw [Function.update_of_ne hx.2]
      exact toNat_update ..

end Lists

/-! ## The invariant -/

/-- The lists are those of the tokens that exist, and of the tokens of each owner, as long as
its balance says. -/
structure Inv (s : State) : Prop where
  /-- the tokens of each owner -/
  owned : ∀ owner, owner ≠ 0 →
    s.ListedFor owner (s.balances owner).toNat (s.tokensOf owner)
  /-- the tokens -/
  all : s.Listed (s.tokensOf 0)ᶜ

theorem inv_deployed : Inv deployed where
  owned owner howner := by
    have hnone : deployed.tokensOf owner = ∅ :=
      Set.eq_empty_of_forall_notMem fun _ h => howner h.symm
    rw [hnone]
    exact .empty _ _
  all := by
    have hnone : (deployed.tokensOf 0)ᶜ = ∅ :=
      Set.eq_empty_of_forall_notMem fun _ h => h rfl
    rw [hnone]
    exact .empty _ _

section Update

variable {s : State} {newOwner auth : Address} {tokenId : UInt256}

/-- No balance can overflow: there are not that many tokens. -/
theorem Inv.balance_lt (hs : Inv s) {owner : Address} (howner : owner ≠ 0) :
    (s.balances owner).toNat + 1 < 2 ^ 256 := by
  have hsub : s.tokensOf owner ⊆ (s.tokensOf 0)ᶜ := by
    intro t ht hzero
    exact howner (ht.symm.trans hzero)
  have hle := Set.ncard_le_ncard hsub hs.all.finite
  rw [(hs.owned owner howner).ncard_eq, hs.all.ncard_eq] at hle
  have hlt : (s.balances owner).toNat < maxArrayLength := hle.trans_lt s.allTokens.length_lt
  have hmax : maxArrayLength + 1 < 2 ^ 256 := by decide
  omega

/-- The balance of the owner of a token. -/
theorem Inv.balance_pos (hs : Inv s) (howner : s.owners tokenId ≠ 0) :
    ∃ n, (s.balances (s.owners tokenId)).toNat = n + 1 ∧
      (s.balances (s.owners tokenId) - 1).toNat = n := by
  have hpos := (hs.owned _ howner).pos_lt tokenId rfl
  obtain ⟨n, hn⟩ : ∃ n, (s.balances (s.owners tokenId)).toNat = n + 1 :=
    Nat.exists_eq_add_one.mpr ((Nat.zero_le _).trans_lt hpos)
  refine ⟨n, hn, ?_⟩
  rw [BitVec.toNat_sub_of_le, hn]
  · rfl
  · rw [BitVec.le_def, hn]
    exact Nat.le_add_left 1 n

/-- The tokens of those who have nothing to do with a move. -/
theorem Inv.owned_moved (hs : Inv s) {owner : Address} (hzero : owner ≠ 0)
    (hnew : owner ≠ newOwner) (hold : owner ≠ s.owners tokenId) :
    s.ListedFor owner ((s.toState.moved newOwner tokenId).balances owner).toNat
      ((s.toState.moved newOwner tokenId).tokensOf owner) := by
  have hnot : tokenId ∉ s.tokensOf owner := fun h => hold h.symm
  rw [ERC721.balances_moved_of_ne hnew hold, ERC721.tokensOf_moved_of_ne hnew,
    Set.sdiff_singleton_eq_self hnot]
  exact hs.owned owner hzero

/-- Halfway through a move from `s`: the token contract has moved the token, and it is on no
owner's list. -/
structure State.Taken (s : State) (newOwner : Address) (tokenId : UInt256) (s₁ : State) :
    Prop where
  /-- the token contract has done its part -/
  toState : s₁.toState = s.toState.moved newOwner tokenId
  /-- the other lists are what they will be -/
  others : ∀ owner, owner ≠ 0 → owner ≠ newOwner →
    s₁.ListedFor owner (s₁.balances owner).toNat (s₁.tokensOf owner)
  /-- that of the new owner is what it was -/
  new : newOwner ≠ 0 →
    s₁.ListedFor newOwner (s.balances newOwner).toNat (s.tokensOf newOwner)

/-- A new token is on no list. -/
theorem Inv.taken (hs : Inv s) (howner : s.owners tokenId = 0) :
    s.Taken newOwner tokenId { s with toState := s.toState.moved newOwner tokenId } where
  toState := rfl
  others _ hzero hnew := hs.owned_moved hzero hnew (by rwa [howner])
  new := hs.owned newOwner

theorem State.Taken.allOnly {s₁ s₂ : State} (h : s.Taken newOwner tokenId s₁)
    (honly : s₁.AllOnly s₂) : s.Taken newOwner tokenId s₂ where
  toState := honly.toState.trans h.toState
  others owner hzero hnew := by
    rw [honly.toState]
    exact honly.listedFor (h.others owner hzero hnew)
  new hzero := honly.listedFor (h.new hzero)

/-- The token is taken off the list of its old owner. -/
theorem Inv.remove (hs : Inv s) (howner : s.owners tokenId ≠ 0)
    (hne : s.owners tokenId ≠ newOwner) :
    ∃ s₁, removeTokenFromOwnerEnumeration (s.owners tokenId) tokenId
        { s with toState := s.toState.moved newOwner tokenId } = .ok s₁ ∧
      s.Taken newOwner tokenId s₁ ∧ s₁.Listed (s.tokensOf 0)ᶜ := by
  let s₀ : State := { s with toState := s.toState.moved newOwner tokenId }
  obtain ⟨n, hn, hn'⟩ := hs.balance_pos howner
  have hbalance : (s₀.balances (s.owners tokenId)).toNat = n := by
    change ((s.toState.moved newOwner tokenId).balances (s.owners tokenId)).toNat = _
    rw [ERC721.balances_moved_old howner hne, hn']
  have hlisted : s₀.ListedFor (s.owners tokenId) (n + 1) (s.tokensOf (s.owners tokenId)) :=
    hn ▸ hs.owned _ howner
  obtain ⟨s₁, hremove, honly, hown, hothers⟩ :=
    removeTokenFromOwnerEnumeration_spec howner hlisted rfl hbalance
  have hdisjoint : ∀ {a : Address}, a ≠ s.owners tokenId →
      ∀ t ∈ s.tokensOf (s.owners tokenId), t ∉ s.tokensOf a := by
    intro a ha t ht ht'
    exact ha (ht'.symm.trans ht)
  refine ⟨s₁, hremove, ⟨honly.toState, fun a hzero hnew => ?_, fun hzero => ?_⟩,
    honly.listed hs.all⟩
  · rw [honly.toState]
    by_cases hold : a = s.owners tokenId
    · subst hold
      rw [show s₀.toState.tokensOf (s.owners tokenId) = _ from ERC721.tokensOf_moved_of_ne hne]
      exact hbalance ▸ hown
    · refine hothers a _ _ hold ?_ (hs.owned_moved hzero hnew hold)
      rw [ERC721.tokensOf_moved_of_ne hnew]
      exact fun t ht ht' => hdisjoint hold t ht ht'.1
  · exact hothers _ _ _ (Ne.symm hne) (hdisjoint (Ne.symm hne)) (hs.owned newOwner hzero)

/-- It is put on the list of its new owner. -/
theorem State.Taken.add {s₁ : State} (h : s.Taken newOwner tokenId s₁) (hs : Inv s)
    (hnew : newOwner ≠ 0) (hne : newOwner ≠ s.owners tokenId) :
    ∃ s₂, addTokenToOwnerEnumeration newOwner tokenId s₁ = .ok s₂ ∧ s₁.OwnersOnly s₂ ∧
      ∀ owner, owner ≠ 0 → s₂.ListedFor owner (s₂.balances owner).toNat (s₂.tokensOf owner) := by
  have hbalance : (s₁.balances newOwner).toNat = (s.balances newOwner).toNat + 1 := by
    rw [h.toState, ERC721.balances_moved_new hnew hne]
    exact BitVec.toNat_add_of_lt (hs.balance_lt hnew)
  obtain ⟨s₂, hadd, honly, hown, hothers⟩ :=
    addTokenToOwnerEnumeration_spec hnew (h.new hnew) (fun heq => hne heq.symm) hbalance
  refine ⟨s₂, hadd, honly, fun a hzero => ?_⟩
  rw [honly.toState]
  by_cases hsame : a = newOwner
  · subst hsame
    rw [hbalance, h.toState, ERC721.tokensOf_moved_self]
    exact hown
  · refine hothers a _ _ hsame ?_ (h.others a hzero hsame)
    rw [h.toState, ERC721.tokensOf_moved_of_ne hsame]
    exact fun hmem => hmem.2 rfl

/-- The first half of what `_update` does for the lists, on the side of the old owner: the token
joins the list of all tokens, or leaves that of the owner. -/
def fromSide (previousOwner newOwner : Address) (tokenId : UInt256) (s : State) :
    Except Error State :=
  if previousOwner = 0 then addTokenToAllTokensEnumeration tokenId s
  else if previousOwner = newOwner then .ok s
  else removeTokenFromOwnerEnumeration previousOwner tokenId s

/-- The second half, on the side of the new owner: it leaves the list of all tokens, or joins
that of the owner. -/
def toSide (previousOwner newOwner : Address) (tokenId : UInt256) (s : State) :
    Except Error State :=
  if newOwner = 0 then removeTokenFromAllTokensEnumeration tokenId s
  else if previousOwner = newOwner then .ok s
  else addTokenToOwnerEnumeration newOwner tokenId s

theorem update_eq_bind (newOwner : Address) (tokenId : UInt256) (auth : Address) (s : State) :
    update newOwner tokenId auth s = (do
      let (base, previousOwner) ← ERC721.update newOwner tokenId auth s.toState
      let s ← fromSide previousOwner newOwner tokenId { s with toState := base }
      let s ← toSide previousOwner newOwner tokenId s
      return (s, previousOwner)) := by
  rw [update]
  congr 1
  funext p
  obtain ⟨base, previousOwner⟩ := p
  dsimp only [fromSide, toSide]
  by_cases hnone : previousOwner = 0 <;> by_cases hburn : newOwner = 0 <;>
    by_cases hsame : previousOwner = newOwner <;>
    simp only [beq_iff_eq, bne_iff_ne, ne_eq, hnone, hburn, hsame, if_true, if_false, not_true,
      not_false_iff, ok_bind, @eq_comm _ 0 newOwner]

/-- `_update` goes through: the token is moved, and the lists are kept. -/
def State.Updates (s : State) (newOwner : Address) (tokenId : UInt256) (auth : Address) : Prop :=
  ∃ s', update newOwner tokenId auth s = .ok (s', s.owners tokenId) ∧
    s'.toState = s.toState.moved newOwner tokenId ∧ Inv s'

theorem super_update_eq (hallows : s.Allows auth tokenId) (newOwner : Address) :
    ERC721.update newOwner tokenId auth s.toState =
      .ok (s.toState.moved newOwner tokenId, s.owners tokenId) := by
  rw [ERC721.update_eq, if_pos hallows]

/-- With nothing to burn, the token is added and removed again. -/
theorem update_nothing (hs : Inv s) (hallows : s.Allows auth tokenId)
    (howner : s.owners tokenId = 0) (hroom : s.allTokens.length + 1 < maxArrayLength) :
    s.Updates 0 tokenId auth := by
  let s₀ : State := { s with toState := s.toState.moved 0 tokenId }
  obtain ⟨s₁, hadd, honly, hall⟩ :=
    addTokenToAllTokensEnumeration_spec (s := s₀) hs.all (fun h => h howner) hroom
  obtain ⟨s₂, hremove, honly', hall'⟩ :=
    removeTokenFromAllTokensEnumeration_spec hall (Set.mem_insert ..)
  have htaken := ((hs.taken howner).allOnly honly).allOnly honly'
  refine ⟨s₂, ?_, htaken.toState, fun a ha => htaken.others a ha ha, ?_⟩
  · simp only [update_eq_bind, super_update_eq hallows, ok_bind, fromSide, toSide, howner,
      if_true]
    rw [hadd, ok_bind, hremove, ok_bind]
    rfl
  · rw [htaken.toState, ERC721.compl_tokensOf_burned]
    rwa [Set.insert_sdiff_of_mem _ (Set.mem_singleton _)] at hall'

theorem update_mint (hs : Inv s) (hallows : s.Allows auth tokenId)
    (howner : s.owners tokenId = 0) (hroom : s.allTokens.length + 1 < maxArrayLength)
    (hnew : newOwner ≠ 0) : s.Updates newOwner tokenId auth := by
  let s₀ : State := { s with toState := s.toState.moved newOwner tokenId }
  obtain ⟨s₁, hadd, honly, hall⟩ :=
    addTokenToAllTokensEnumeration_spec (s := s₀) hs.all (fun h => h howner) hroom
  have htaken := (hs.taken howner).allOnly honly
  obtain ⟨s₂, hadd', honly', howned⟩ := htaken.add hs hnew (by rwa [howner])
  have hstate := honly'.toState.trans htaken.toState
  refine ⟨s₂, ?_, hstate, howned, ?_⟩
  · simp only [update_eq_bind, super_update_eq hallows, ok_bind, fromSide, toSide, howner,
      if_true, hnew, Ne.symm hnew, if_false]
    rw [hadd, ok_bind, hadd', ok_bind]
    rfl
  · rw [hstate, ERC721.compl_tokensOf_moved hnew]
    exact honly'.listed hall

theorem update_burn (hs : Inv s) (hallows : s.Allows auth tokenId)
    (howner : s.owners tokenId ≠ 0) : s.Updates 0 tokenId auth := by
  obtain ⟨s₁, hremove, htaken, hlisted⟩ := hs.remove howner howner
  obtain ⟨s₂, hremove', honly, hall⟩ :=
    removeTokenFromAllTokensEnumeration_spec hlisted howner
  have htaken := htaken.allOnly honly
  refine ⟨s₂, ?_, htaken.toState, fun a ha => htaken.others a ha ha, ?_⟩
  · simp only [update_eq_bind, super_update_eq hallows, ok_bind, fromSide, toSide, howner,
      if_false, if_true]
    rw [hremove, ok_bind, hremove', ok_bind]
    rfl
  · rw [htaken.toState, ERC721.compl_tokensOf_burned]
    exact hall

/-- Moving a token to its owner leaves the lists alone. -/
theorem update_self (hs : Inv s) (hallows : s.Allows auth tokenId)
    (howner : s.owners tokenId ≠ 0) : s.Updates (s.owners tokenId) tokenId auth := by
  have hself : tokenId ∈ s.tokensOf (s.owners tokenId) := rfl
  have hexists : tokenId ∈ (s.tokensOf 0)ᶜ := howner
  refine ⟨{ s with toState := s.toState.moved (s.owners tokenId) tokenId }, ?_, rfl,
    fun a ha => ?_, ?_⟩
  · simp only [update_eq_bind, super_update_eq hallows, ok_bind, fromSide, toSide, howner,
      if_false, if_true]
    rfl
  · by_cases hold : a = s.owners tokenId
    · subst hold
      rw [ERC721.tokensOf_moved_self, ERC721.balances_moved_self howner,
        Set.insert_eq_of_mem hself]
      exact hs.owned _ ha
    · exact hs.owned_moved ha hold hold
  · rw [ERC721.compl_tokensOf_moved howner, Set.insert_eq_of_mem hexists]
    exact hs.all

theorem update_transfer (hs : Inv s) (hallows : s.Allows auth tokenId)
    (howner : s.owners tokenId ≠ 0) (hnew : newOwner ≠ 0) (hne : newOwner ≠ s.owners tokenId) :
    s.Updates newOwner tokenId auth := by
  have hexists : tokenId ∈ (s.tokensOf 0)ᶜ := howner
  obtain ⟨s₁, hremove, htaken, hlisted⟩ := hs.remove howner (Ne.symm hne)
  obtain ⟨s₂, hadd, honly, howned⟩ := htaken.add hs hnew hne
  have hstate := honly.toState.trans htaken.toState
  refine ⟨s₂, ?_, hstate, howned, ?_⟩
  · simp only [update_eq_bind, super_update_eq hallows, ok_bind, fromSide, toSide, howner,
      hnew, Ne.symm hne, if_false]
    rw [hremove, ok_bind, hadd, ok_bind]
    rfl
  · rw [hstate, ERC721.compl_tokensOf_moved hnew, Set.insert_eq_of_mem hexists]
    exact honly.listed hlisted

/-- **`_update` keeps the lists**, and does not fail but for the reasons it should. -/
theorem update_spec (hs : Inv s) (hallows : s.Allows auth tokenId)
    (hroom : s.owners tokenId ≠ 0 ∨ s.allTokens.length + 1 < maxArrayLength) :
    s.Updates newOwner tokenId auth := by
  by_cases howner : s.owners tokenId = 0
  · have hroom := hroom.resolve_left (fun h => h howner)
    by_cases hburn : newOwner = 0
    · subst hburn
      exact update_nothing hs hallows howner hroom
    · exact update_mint hs hallows howner hroom hburn
  · by_cases hburn : newOwner = 0
    · subst hburn
      exact update_burn hs hallows howner
    · by_cases hsame : newOwner = s.owners tokenId
      · subst hsame
        exact update_self hs hallows howner
      · exact update_transfer hs hallows howner hburn hsame

end Update

end ERC721Enumerable

end NftGame

import NftGame.ERC721

/-!
# The enumerable token contract

The contract `ERC721Enumerable` that the repository vendors
(`token/ERC721/extensions/ERC721Enumerable.sol`), function by function: an `ERC721` that can
list its tokens, and those of each owner. It overrides `_update`.
-/

namespace NftGame

open Solidity

namespace ERC721Enumerable

open ERC721 (Action Error)

/-! ## Storage -/

/-- The storage of the contract. -/
@[ext] structure State : Type extends ERC721.State where
  /-- the tokens of each owner, below its balance -/
  ownedTokens : Address → UInt256 → UInt256
  /-- where each token stands among those of its owner -/
  ownedTokensIndex : UInt256 → UInt256
  /-- the tokens -/
  allTokens : DynArray UInt256
  /-- where each token stands among them -/
  allTokensIndex : UInt256 → UInt256

/-- The freshly deployed contract: all of its storage is zero. -/
def deployed : State where
  owners := fun _ => 0
  balances := fun _ => 0
  tokenApprovals := fun _ => 0
  operatorApprovals := fun _ _ => false
  logs := []
  ownedTokens := fun _ _ => 0
  ownedTokensIndex := fun _ => 0
  allTokens := .empty
  allTokensIndex := fun _ => 0

/-- `_ownedTokens[owner][index] = tokenId`. -/
def State.setOwnedToken (s : State) (owner : Address) (index tokenId : UInt256) : State :=
  { s with ownedTokens :=
      Function.update s.ownedTokens owner (Function.update (s.ownedTokens owner) index tokenId) }

/-- A step that is checked by the language. -/
def checked {α : Type} (x : Except Revert α) : Except Error α := x.mapError .revert

/-! ## Views -/

/-- The number of tokens. -/
def totalSupply (s : State) : UInt256 := BitVec.ofNat 256 s.allTokens.length

/-- The token at an index among those of an owner. -/
def tokenOfOwnerByIndex (owner : Address) (index : UInt256) (s : State) :
    Except Error UInt256 := do
  let balance ← ERC721.balanceOf owner s.toState
  if index ≥ balance then
    throw (.outOfBoundsIndex owner index)
  return s.ownedTokens owner index

/-- The token at an index. -/
def tokenByIndex (index : UInt256) (s : State) : Except Error UInt256 := do
  if index ≥ totalSupply s then
    throw (.outOfBoundsIndex 0 index)
  checked (s.allTokens.get index.toNat)

/-! ## The lists of tokens -/

/-- Add a token to those of its new owner, whose balance counts it already. -/
def addTokenToOwnerEnumeration (newOwner : Address) (tokenId : UInt256) (s : State) :
    Except Error State := do
  let balance ← ERC721.balanceOf newOwner s.toState
  let length ← checked (checkedSub balance 1)
  let s := s.setOwnedToken newOwner length tokenId
  return { s with ownedTokensIndex := Function.update s.ownedTokensIndex tokenId length }

/-- Add a token to all tokens. -/
def addTokenToAllTokensEnumeration (tokenId : UInt256) (s : State) : Except Error State := do
  let length := BitVec.ofNat 256 s.allTokens.length
  let s := { s with allTokensIndex := Function.update s.allTokensIndex tokenId length }
  let allTokens ← checked (s.allTokens.push tokenId)
  return { s with allTokens }

/-- Remove a token from those of an owner, whose balance does not count it any more: the last
one takes its place. -/
def removeTokenFromOwnerEnumeration (owner : Address) (tokenId : UInt256) (s : State) :
    Except Error State := do
  let lastTokenIndex ← ERC721.balanceOf owner s.toState
  let tokenIndex := s.ownedTokensIndex tokenId
  let mut s := s
  if tokenIndex != lastTokenIndex then
    let lastTokenId := s.ownedTokens owner lastTokenIndex
    s := s.setOwnedToken owner tokenIndex lastTokenId
    s := { s with ownedTokensIndex := Function.update s.ownedTokensIndex lastTokenId tokenIndex }
  s := { s with ownedTokensIndex := Function.update s.ownedTokensIndex tokenId 0 }
  return s.setOwnedToken owner lastTokenIndex 0

/-- Remove a token from all tokens: the last one takes its place, also if it is that one. -/
def removeTokenFromAllTokensEnumeration (tokenId : UInt256) (s : State) :
    Except Error State := do
  let lastTokenIndex ← checked (checkedSub (BitVec.ofNat 256 s.allTokens.length) 1)
  let tokenIndex := s.allTokensIndex tokenId
  let lastTokenId ← checked (s.allTokens.get lastTokenIndex.toNat)
  let allTokens ← checked (s.allTokens.set tokenIndex.toNat lastTokenId)
  let s := { s with
    allTokens, allTokensIndex := Function.update s.allTokensIndex lastTokenId tokenIndex }
  let s := { s with allTokensIndex := Function.update s.allTokensIndex tokenId 0 }
  let allTokens ← checked (s.allTokens.pop)
  return { s with allTokens }

/-! ## Moving a token -/

/-- `_update`, overridden: keep the lists up to date. -/
def update (newOwner : Address) (tokenId : UInt256) (auth : Address) (s : State) :
    Except Error (State × Address) := do
  let (base, previousOwner) ← ERC721.update newOwner tokenId auth s.toState
  let mut s := { s with toState := base }
  if previousOwner == 0 then
    s ← addTokenToAllTokensEnumeration tokenId s
  else if previousOwner != newOwner then
    s ← removeTokenFromOwnerEnumeration previousOwner tokenId s
  if newOwner == 0 then
    s ← removeTokenFromAllTokensEnumeration tokenId s
  else if previousOwner != newOwner then
    s ← addTokenToOwnerEnumeration newOwner tokenId s
  return (s, previousOwner)

/-- Run an action on this contract. -/
def act (action : Action) (s : State) : Except Error State :=
  match action with
  | .approve sender approved tokenId => do
    let base ← ERC721.approve sender approved tokenId s.toState
    return { s with toState := base }
  | .setApprovalForAll sender operator approved => do
    let base ← ERC721.setApprovalForAll sender operator approved s.toState
    return { s with toState := base }
  | .transferFrom sender owner newOwner tokenId =>
    ERC721.transferFrom update sender owner newOwner tokenId s
  | .mint newOwner tokenId => ERC721.mint update newOwner tokenId s
  | .burn tokenId => ERC721.burn update tokenId s
  | .transfer owner newOwner tokenId => ERC721.transfer update owner newOwner tokenId s
  | .setApproval approved tokenId auth emitEvent => do
    let base ← ERC721.setApproval approved tokenId auth emitEvent s.toState
    return { s with toState := base }
  | .setApprovalForAllOf owner operator approved => do
    let base ← ERC721.setApprovalForAll owner operator approved s.toState
    return { s with toState := base }
  | .update newOwner tokenId auth => do
    let (s, _) ← update newOwner tokenId auth s
    return s

end ERC721Enumerable

end NftGame

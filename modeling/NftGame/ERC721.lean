import Mathlib.Logic.Function.Basic
import NftGame.Strings

/-!
# The token contract

The contract `ERC721` that the repository vendors (`token/ERC721/ERC721.sol`), function by
function, without its name and symbol. Of a function and its internal variant with a leading
underscore, the internal one of `approve` is called `setApproval` here, and the other pairs
are one definition.

The function that moves tokens, `_update`, is virtual. What calls it is therefore defined for
any `_update`, on any storage (`transferFrom` and what follows).

The mappings are private, so the state changes through the functions of this file alone. Some of
them are external, and the internal ones are there for the contracts derived from this one, which
decide when to call them and for whom. Both are the actions (`Action`).
-/

namespace NftGame

open Solidity

namespace ERC721

/-! ## Storage -/

/-- The events, as they are logged. -/
inductive Log : Type where
  /-- `Transfer(from, to, tokenId)` -/
  | transfer : Address → Address → UInt256 → Log
  /-- `Approval(owner, approved, tokenId)` -/
  | approval : Address → Address → UInt256 → Log
  /-- `ApprovalForAll(owner, operator, approved)` -/
  | approvalForAll : Address → Address → Bool → Log
  deriving DecidableEq, Repr

/-- The storage of the contract, and the events emitted. -/
@[ext] structure State : Type where
  /-- the owner of each token; the zero address if it does not exist -/
  owners : UInt256 → Address
  /-- the number of tokens of each address -/
  balances : Address → UInt256
  /-- who may transfer the token besides its owner -/
  tokenApprovals : UInt256 → Address
  /-- who may do so with all tokens of an owner -/
  operatorApprovals : Address → Address → Bool
  /-- the events emitted, oldest first -/
  logs : List Log

/-- `emit`. -/
def State.emit (s : State) (log : Log) : State := { s with logs := s.logs ++ [log] }

/-- Why a call of a token contract reverts. -/
inductive Error : Type where
  /-- `ERC721InvalidOwner(owner)` -/
  | invalidOwner : Address → Error
  /-- `ERC721NonexistentToken(tokenId)` -/
  | nonexistentToken : UInt256 → Error
  /-- `ERC721IncorrectOwner(sender, tokenId, owner)` -/
  | incorrectOwner : Address → UInt256 → Address → Error
  /-- `ERC721InvalidSender(sender)` -/
  | invalidSender : Address → Error
  /-- `ERC721InvalidReceiver(receiver)` -/
  | invalidReceiver : Address → Error
  /-- `ERC721InsufficientApproval(operator, tokenId)` -/
  | insufficientApproval : Address → UInt256 → Error
  /-- `ERC721InvalidApprover(approver)` -/
  | invalidApprover : Address → Error
  /-- `ERC721InvalidOperator(operator)` -/
  | invalidOperator : Address → Error
  /-- `ERC721OutOfBoundsIndex(owner, index)` -/
  | outOfBoundsIndex : Address → UInt256 → Error
  /-- a check of the language has failed -/
  | revert : Revert → Error
  /-- writing a number has failed -/
  | strings : Strings.Error → Error
  /-- the bytes a receiver has reverted with -/
  | reason : List (BitVec 8) → Error
  deriving DecidableEq, Repr

/-! ## Views -/

/-- The owner of a token that exists. -/
def requireOwned (tokenId : UInt256) (s : State) : Except Error Address := do
  let owner := s.owners tokenId
  if owner == 0 then
    throw (.nonexistentToken tokenId)
  return owner

/-- The number of tokens of an owner. -/
def balanceOf (owner : Address) (s : State) : Except Error UInt256 := do
  if owner == 0 then
    throw (.invalidOwner 0)
  return s.balances owner

/-- The owner of a token. -/
def ownerOf (tokenId : UInt256) (s : State) : Except Error Address := requireOwned tokenId s

/-- Who is approved for a token. -/
def getApproved (tokenId : UInt256) (s : State) : Except Error Address := do
  let _ ← requireOwned tokenId s
  return s.tokenApprovals tokenId

/-- The operator may manage all tokens of the owner. -/
def isApprovedForAll (owner operator : Address) (s : State) : Bool :=
  s.operatorApprovals owner operator

/-- The spender may move the token, if `owner` is its owner. -/
def isAuthorized (owner spender : Address) (tokenId : UInt256) (s : State) : Bool :=
  spender != 0 &&
    (owner == spender || isApprovedForAll owner spender s || s.tokenApprovals tokenId == spender)

/-- Reverts unless the spender may move the token. -/
def checkAuthorized (owner spender : Address) (tokenId : UInt256) (s : State) :
    Except Error Unit := do
  if !isAuthorized owner spender tokenId s then
    if owner == 0 then
      throw (.nonexistentToken tokenId)
    else
      throw (.insufficientApproval spender tokenId)

/-- The URI of a token: its number behind the base URI, which is virtual, or nothing if that is
empty. -/
def tokenURI (baseURI : Strings.Bytes) (tokenId : UInt256) (s : State) :
    Except Error Strings.Bytes := do
  let _ ← requireOwned tokenId s
  if baseURI.length > 0 then
    let digits ← (Strings.toString tokenId).mapError .strings
    (Strings.concat baseURI digits).mapError .revert
  else
    return .empty

/-! ## Approvals -/

/-- Approve an address for a token. The check that `auth` may do so is left out if that is the
zero address. -/
def setApproval (approved : Address) (tokenId : UInt256) (auth : Address) (emitEvent : Bool)
    (s : State) : Except Error State := do
  let mut s := s
  if emitEvent || auth != 0 then
    let owner ← requireOwned tokenId s
    -- who is approved for the token alone may not approve others
    if auth != 0 && owner != auth && !isApprovedForAll owner auth s then
      throw (.invalidApprover auth)
    if emitEvent then
      s := s.emit (.approval owner approved tokenId)
  return { s with tokenApprovals := Function.update s.tokenApprovals tokenId approved }

/-- Approve an address for a token. -/
def approve (sender approved : Address) (tokenId : UInt256) (s : State) : Except Error State :=
  setApproval approved tokenId sender true s

/-- Approve an operator for all tokens of the sender, or withdraw that. -/
def setApprovalForAll (sender operator : Address) (approved : Bool) (s : State) :
    Except Error State := do
  if operator == 0 then
    throw (.invalidOperator operator)
  let operators := Function.update (s.operatorApprovals sender) operator approved
  let s := { s with operatorApprovals := Function.update s.operatorApprovals sender operators }
  return s.emit (.approvalForAll sender operator approved)

/-! ## Moving a token -/

/-- Move a token to a new owner, or mint it, or burn it if that is the zero address, and
return its previous owner. The check that `auth` may do so is left out if that is the zero
address. -/
def update (newOwner : Address) (tokenId : UInt256) (auth : Address) (s : State) :
    Except Error (State × Address) := do
  let owner := s.owners tokenId
  let mut s := s
  if auth != 0 then
    checkAuthorized owner auth tokenId s
  if owner != 0 then
    s ← setApproval 0 tokenId 0 false s
    -- unchecked, as the addition below: both wrap around
    s := { s with balances := Function.update s.balances owner (s.balances owner - 1) }
  if newOwner != 0 then
    s := { s with balances := Function.update s.balances newOwner (s.balances newOwner + 1) }
  s := { s with owners := Function.update s.owners tokenId newOwner }
  return (s.emit (.transfer owner newOwner tokenId), owner)

/-! ## What moves tokens -/

section Virtual

variable {σ : Type} (update : Address → UInt256 → Address → σ → Except Error (σ × Address))

/-- Move a token of `owner`, if the sender may. -/
def transferFrom (sender owner newOwner : Address) (tokenId : UInt256) (s : σ) :
    Except Error σ := do
  if newOwner == 0 then
    throw (.invalidReceiver 0)
  let (s, previousOwner) ← update newOwner tokenId sender s
  if previousOwner != owner then
    throw (.incorrectOwner owner tokenId previousOwner)
  return s

/-- `_mint`: make a new token. -/
def mint (newOwner : Address) (tokenId : UInt256) (s : σ) : Except Error σ := do
  if newOwner == 0 then
    throw (.invalidReceiver 0)
  let (s, previousOwner) ← update newOwner tokenId 0 s
  if previousOwner != 0 then
    throw (.invalidSender 0)
  return s

/-- `_burn`: destroy a token. -/
def burn (tokenId : UInt256) (s : σ) : Except Error σ := do
  let (s, previousOwner) ← update 0 tokenId 0 s
  if previousOwner == 0 then
    throw (.nonexistentToken tokenId)
  return s

/-- `_transfer`: move a token of `owner`, whoever asks for it. -/
def transfer (owner newOwner : Address) (tokenId : UInt256) (s : σ) : Except Error σ := do
  if newOwner == 0 then
    throw (.invalidReceiver 0)
  let (s, previousOwner) ← update newOwner tokenId 0 s
  if previousOwner == 0 then
    throw (.nonexistentToken tokenId)
  else if previousOwner != owner then
    throw (.incorrectOwner owner tokenId previousOwner)
  return s

end Virtual

/-! ## Actions -/

/-- An address that can send something. -/
abbrev Sender : Type := {sender : Address // sender ≠ 0}

/-- The ways to change the state: the external functions, and the internal ones that a derived
contract can call. Without `_increaseBalance`, which is for contracts that override `_ownerOf`:
here a balance is the number of tokens, and an enumerable contract refuses to increase it. -/
inductive Action : Type where
  /-- `approve(approved, tokenId)` -/
  | approve : Sender → Address → UInt256 → Action
  /-- `setApprovalForAll(operator, approved)` -/
  | setApprovalForAll : Sender → Address → Bool → Action
  /-- `transferFrom(from, to, tokenId)` -/
  | transferFrom : Sender → Address → Address → UInt256 → Action
  /-- a derived contract's `_mint(to, tokenId)` -/
  | mint : Address → UInt256 → Action
  /-- a derived contract's `_burn(tokenId)` -/
  | burn : UInt256 → Action
  /-- a derived contract's `_transfer(from, to, tokenId)` -/
  | transfer : Address → Address → UInt256 → Action
  /-- a derived contract's `_approve(approved, tokenId, auth, emitEvent)`; without the last
  argument, that is true -/
  | setApproval : Address → UInt256 → Address → Bool → Action
  /-- a derived contract's `_setApprovalForAll(owner, operator, approved)` -/
  | setApprovalForAllOf : Address → Address → Bool → Action
  /-- a derived contract's `_update(to, tokenId, auth)` -/
  | update : Address → UInt256 → Address → Action
  deriving DecidableEq

/-- Run an action on this contract. -/
def act (action : Action) (s : State) : Except Error State :=
  match action with
  | .approve sender approved tokenId => approve sender approved tokenId s
  | .setApprovalForAll sender operator approved => setApprovalForAll sender operator approved s
  | .transferFrom sender owner newOwner tokenId =>
    transferFrom update sender owner newOwner tokenId s
  | .mint newOwner tokenId => mint update newOwner tokenId s
  | .burn tokenId => burn update tokenId s
  | .transfer owner newOwner tokenId => transfer update owner newOwner tokenId s
  | .setApproval approved tokenId auth emitEvent => setApproval approved tokenId auth emitEvent s
  | .setApprovalForAllOf owner operator approved => setApprovalForAll owner operator approved s
  | .update newOwner tokenId auth => do
    let (s, _) ← update newOwner tokenId auth s
    return s

end ERC721

end NftGame

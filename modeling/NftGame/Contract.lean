import Mathlib.Logic.Function.Basic
import NftGame.Solidity
import NftGame.Transaction

/-!
# The rental contract with the NFT pool

The contract `NFTRentLight` of `rent_contract_RL_attempt.sol`, function by function,
in the order of the source. A transaction is a call together with its environment
(sender and block time), and `transact` runs it on the contract state.

Writes happen on a copy of the state that is returned at the end, so a call that
reverts has written nothing.
-/

namespace NftGame

open Solidity

namespace NFTRentLight

/-! ## Storage -/

/-- An entry of the pool: one copy of an NFT. It does not say who holds it. -/
structure NFT : Type where
  /-- which NFT it is a copy of -/
  id : UInt256
  /-- the copy is rented out -/
  isRented : Bool
  deriving DecidableEq, Repr

/-- The last rental of an address; once ended, only `active` is cleared. -/
structure Rental : Type where
  /-- the rented NFT -/
  nftId : UInt256
  /-- the block time it was rented at -/
  startTime : UInt256
  /-- the rental has not been ended -/
  active : Bool
  deriving DecidableEq, Repr

/-- The storage of the contract. -/
@[ext] structure State : Type where
  /-- how long a rental gives access, in seconds -/
  rentalDuration : UInt256
  /-- the pool, in the order the copies were stored -/
  availableNfts : DynArray NFT
  /-- the rental of each address -/
  rentals : Address → Rental

/-- The freshly deployed contract: `rentalDuration` is 5 minutes, the rest is zero. -/
def deployed : State where
  rentalDuration := 300
  availableNfts := .empty
  rentals := fun _ => ⟨0, 0, false⟩

/-! ## Functions -/

/-- Add an NFT to the rentable pool. -/
def store (nftId : UInt256) (s : State) : Except Revert State := do
  let availableNfts ← s.availableNfts.push ⟨nftId, false⟩
  return { s with availableNfts }

/-- The counting pass of `getAvailableNfts`. -/
def countAvailable (s : State) : Except Revert ℕ := do
  let mut count := 0
  for i in List.range s.availableNfts.length do
    let nft ← s.availableNfts.get i
    if !nft.isRented then
      count := count + 1
  return count

/-- The filling pass of `getAvailableNfts`: the allocated result, and the fill index
it ends with. -/
def fillAvailable (count : ℕ) (s : State) : Except Revert (DynArray UInt256 × ℕ) := do
  let mut result ← DynArray.new count (0 : UInt256)
  let mut idx := 0
  for i in List.range s.availableNfts.length do
    let nft ← s.availableNfts.get i
    if !nft.isRented then
      result ← result.set idx nft.id
      idx := idx + 1
  return (result, idx)

/-- Get all currently available NFTs. -/
def getAvailableNfts (s : State) : Except Revert (DynArray UInt256) := do
  let count ← countAvailable s
  let (result, _) ← fillAvailable count s
  return result

/-- Rent an available NFT. -/
def rentNft (env : Env) (nftId : UInt256) (s : State) : Except Revert State := do
  require (!(s.rentals env.sender).active) "Already renting"
  let mut availableNfts := s.availableNfts
  let mut found := false
  for i in List.range s.availableNfts.length do
    let nft ← availableNfts.get i
    if nft.id == nftId && !nft.isRented then
      availableNfts ← availableNfts.set i { nft with isRented := true }
      found := true
      break
  require found "NFT not available"
  let rental : Rental := { nftId, startTime := env.timestamp, active := true }
  return { s with availableNfts, rentals := Function.update s.rentals env.sender rental }

/-- Check what NFT the sender has rented (0 if none). -/
def checkAccess (env : Env) (s : State) : Except Revert UInt256 := do
  let r := s.rentals env.sender
  if !r.active then
    return 0
  -- auto-expire if time is up
  let expiry ← checkedAdd r.startTime s.rentalDuration
  if env.timestamp > expiry then
    return 0
  return r.nftId

/-- Get when the sender's rental started. -/
def getUserStartTime (env : Env) (s : State) : Except Revert UInt256 :=
  return (s.rentals env.sender).startTime

/-- End the sender's rental early. -/
def endRental (env : Env) (s : State) : Except Revert State := do
  require (s.rentals env.sender).active "No active rental"
  let rentedId := (s.rentals env.sender).nftId
  let mut availableNfts := s.availableNfts
  for i in List.range s.availableNfts.length do
    let nft ← availableNfts.get i
    -- the first entry of that id, rented or not
    if nft.id == rentedId then
      availableNfts ← availableNfts.set i { nft with isRented := false }
      break
  let rental : Rental := { s.rentals env.sender with active := false }
  return { s with availableNfts, rentals := Function.update s.rentals env.sender rental }

/-- Show the sender's current NFT (if still valid). -/
def getUserNfts (env : Env) (s : State) : Except Revert UInt256 := do
  let r := s.rentals env.sender
  -- `||` leaves its second operand, and so the addition, unevaluated on `!r.active`
  let isOver ← if !r.active then pure true else do
    let expiry ← checkedAdd r.startTime s.rentalDuration
    pure (decide (env.timestamp > expiry))
  if isOver then
    return 0
  return r.nftId

/-! ## Transactions -/

/-- The calls that can change the state. -/
inductive Call : Type where
  /-- `store(nftId)` -/
  | store : UInt256 → Call
  /-- `rentNft(nftId)` -/
  | rentNft : UInt256 → Call
  /-- `endRental()` -/
  | endRental : Call
  deriving DecidableEq, Repr

/-- A call with the environment it is made in. -/
structure Tx : Type where
  /-- sender and block time -/
  env : Env
  /-- the function called, with its argument -/
  call : Call
  deriving DecidableEq, Repr

/-- Run a transaction on the contract. -/
def transact (tx : Tx) (s : State) : Except Revert State :=
  match tx.call with
  | .store nftId => store nftId s
  | .rentNft nftId => rentNft tx.env nftId s
  | .endRental => endRental tx.env s

end NFTRentLight

end NftGame

import Mathlib.Logic.Function.Basic
import NftGame.Lease
import NftGame.Solidity
import NftGame.Transaction

/-!
# The rental contract without a pool

The contract of `rent_contract.sol`, function by function, in the order of the source
(there it is called `NFTRentLight` as well). It keeps a rental for each address and
nothing else: any id can be rented, by any number of addresses at a time, and a rental
lasts until it is ended.
-/

namespace NftGame

open Solidity

namespace RentContract

/-! ## Storage -/

/-- The last rental of an address; once ended, only `active` is cleared. -/
structure Rental : Type where
  /-- the rented game -/
  gameId : UInt256
  /-- the block time it was rented at -/
  startTime : UInt256
  /-- the rental has not been ended -/
  active : Bool
  deriving DecidableEq, Repr

/-- The storage of the contract. -/
@[ext] structure State : Type where
  /-- the rental of each address -/
  rentals : Address → Rental

/-- The freshly deployed contract. -/
def deployed : State := ⟨fun _ => ⟨0, 0, false⟩⟩

/-! ## Functions -/

/-- Rent a game. -/
def rentGame (env : Env) (gameId : UInt256) (s : State) : Except Revert State := do
  require (!(s.rentals env.sender).active) "Already renting"
  let rental : Rental := { gameId, startTime := env.timestamp, active := true }
  return { s with rentals := Function.update s.rentals env.sender rental }

/-- The game the sender has rented (0 if none). -/
def checkAccess (env : Env) (s : State) : Except Revert UInt256 := do
  let r := s.rentals env.sender
  if !r.active then
    return 0
  return r.gameId

/-- When the sender's rental started. -/
def getUserStartTime (env : Env) (s : State) : Except Revert UInt256 :=
  return (s.rentals env.sender).startTime

/-- End the sender's rental. -/
def endRental (env : Env) (s : State) : Except Revert State := do
  require (s.rentals env.sender).active "No active rental"
  let rental : Rental := { s.rentals env.sender with active := false }
  return { s with rentals := Function.update s.rentals env.sender rental }

/-! ## Transactions -/

/-- The calls that can change the state. -/
inductive Call : Type where
  /-- `rentGame(gameId)` -/
  | rentGame : UInt256 → Call
  /-- `endRental()` -/
  | endRental : Call
  deriving DecidableEq, Repr

/-- A call with the environment it is made in. -/
structure Tx : Type where
  /-- sender and block time -/
  env : Env
  /-- the function called, with its argument -/
  call : Call
  deriving DecidableEq, Repr

/-- Run a transaction on the contract. -/
def transact (tx : Tx) (s : State) : Except Revert State :=
  match tx.call with
  | .rentGame gameId => rentGame tx.env gameId s
  | .endRental => endRental tx.env s

/-! ## What the functions compute -/

section Functions

variable {s : State} {env : Env}

theorem rentGame_of_idle (h : (s.rentals env.sender).active = false) (k : UInt256) :
    rentGame env k s =
      .ok ⟨Function.update s.rentals env.sender ⟨k, env.timestamp, true⟩⟩ := by
  rw [rentGame, h]
  rfl

theorem endRental_of_active (h : (s.rentals env.sender).active = true) :
    endRental env s =
      .ok ⟨Function.update s.rentals env.sender
        { s.rentals env.sender with active := false }⟩ := by
  rw [endRental, h]
  rfl

theorem rentGame_eq_ok_iff {k : UInt256} {s' : State} :
    rentGame env k s = .ok s' ↔ (s.rentals env.sender).active = false ∧
      s' = ⟨Function.update s.rentals env.sender ⟨k, env.timestamp, true⟩⟩ := by
  rcases h : (s.rentals env.sender).active with - | -
  · rw [rentGame_of_idle h]
    simp [eq_comm]
  · rw [rentGame, h]
    exact iff_of_false (fun herr => by cases herr) fun hidle => by cases hidle.1

theorem endRental_eq_ok_iff {s' : State} :
    endRental env s = .ok s' ↔ (s.rentals env.sender).active = true ∧
      s' = ⟨Function.update s.rentals env.sender
        { s.rentals env.sender with active := false }⟩ := by
  rcases h : (s.rentals env.sender).active with - | -
  · rw [endRental, h]
    exact iff_of_false (fun herr => by cases herr) fun hactive => by cases hactive.1
  · rw [endRental_of_active h]
    simp [eq_comm]

/-- **What a committed transaction does**, guards included: one constructor per
function. -/
inductive Commit (s : State) : Tx → State → Prop where
  /-- `rentGame` came from an idle sender -/
  | rentGame {env : Env} {k : UInt256} (hidle : (s.rentals env.sender).active = false) :
      Commit s ⟨env, .rentGame k⟩
        ⟨Function.update s.rentals env.sender ⟨k, env.timestamp, true⟩⟩
  /-- `endRental` came from a sender with an active rental -/
  | endRental {env : Env} (hactive : (s.rentals env.sender).active = true) :
      Commit s ⟨env, .endRental⟩
        ⟨Function.update s.rentals env.sender { s.rentals env.sender with active := false }⟩

theorem transact_eq_ok_iff {tx : Tx} {s' : State} :
    transact tx s = .ok s' ↔ Commit s tx s' := by
  refine ⟨fun h => ?_, fun h => ?_⟩
  · obtain ⟨env, call⟩ := tx
    cases call with
    | rentGame k =>
      obtain ⟨hidle, rfl⟩ := rentGame_eq_ok_iff.mp h
      exact .rentGame hidle
    | endRental =>
      obtain ⟨hactive, rfl⟩ := endRental_eq_ok_iff.mp h
      exact .endRental hactive
  · cases h with
    | rentGame hidle => exact rentGame_eq_ok_iff.mpr ⟨hidle, rfl⟩
    | endRental hactive => exact endRental_eq_ok_iff.mpr ⟨hactive, rfl⟩

/-- Access lasts as long as the rental is active. -/
theorem checkAccess_eq (env : Env) (s : State) :
    checkAccess env s =
      .ok (if (s.rentals env.sender).active = true then (s.rentals env.sender).gameId
        else 0) := by
  rcases h : (s.rentals env.sender).active with - | - <;>
    · simp only [checkAccess, h]
      rfl

end Functions

/-! ## The rentals are leases -/

/-- The lease recorded by a rental. -/
def Rental.lease (r : Rental) : Lease UInt256 UInt256 := ⟨r.gameId, r.startTime, r.active⟩

/-- The transaction, as an event of the lease of `u`. -/
def Tx.event? (u : Address) (tx : Tx) : Option (Lease.Event UInt256 UInt256) :=
  if tx.env.sender = u then
    match tx.call with
    | .rentGame k => some (.take k tx.env.timestamp)
    | .endRental => some .drop
  else none

theorem event?_eq_take_iff {tx : Tx} {u : Address} {k t : UInt256} :
    tx.event? u = some (.take k t) ↔
      tx.env.sender = u ∧ tx.call = .rentGame k ∧ tx.env.timestamp = t := by
  obtain ⟨env, call⟩ := tx
  cases call <;> simp [Tx.event?]

/-- The contract keeps a lease for each address. -/
theorem onLedger :
    Lease.OnLedger transact (fun (s : State) u => (s.rentals u).lease) Tx.event? := by
  intro tx s s' h u
  by_cases hu : tx.env.sender = u
  · subst hu
    cases transact_eq_ok_iff.mp h with
    | rentGame hidle =>
      refine .inr ⟨_, if_pos rfl, ?_⟩
      simp only [Function.update_self]
      exact .take hidle
    | endRental hactive =>
      refine .inr ⟨_, if_pos rfl, ?_⟩
      simp only [Function.update_self]
      exact .drop hactive
  · refine .inl ⟨if_neg hu, ?_⟩
    cases transact_eq_ok_iff.mp h with
    | rentGame hidle => simp only [Function.update_of_ne (Ne.symm hu)]
    | endRental hactive => simp only [Function.update_of_ne (Ne.symm hu)]

end RentContract

end NftGame

import NftGame.Contract

/-!
# The web page and the chain

The page of `front-end/v4` (`App.jsx`), and any number of copies of it, open in front of one
deployed contract.

The page never waits: a handler that has sent something to the node is suspended, the user
goes on clicking, and the handler goes on when the answer comes. So a page is its React
state together with the handlers that are waiting (`Pending`), and the whole is a ledger of
events (`step`): a user does something on a page, the node works off something that is
waiting, an answer arrives. Nothing is said about the order: transactions are mined and
answers arrive in any order, requests fail, and other people send transactions of their
own.

An event that cannot happen in a state is an `.error`.
-/

namespace NftGame

open Solidity NFTRentLight

namespace FrontEnd

universe u

/-! ## The page -/

/-- An entry of the page's list of rented NFTs. -/
structure RentedNft : Type where
  /-- the NFT, as it was listed when the button was clicked -/
  id : UInt256
  /-- `Date.now()` when the rental was confirmed -/
  rentedAt : ℕ
  deriving DecidableEq, Repr

/-- The handlers of the page that send a transaction, with their argument. -/
inductive Handler : Type where
  /-- `mintNftHandler(nftId)` -/
  | mintNft : UInt256 → Handler
  /-- `rentNftHandler(nftId)` -/
  | rentNft : UInt256 → Handler
  deriving DecidableEq, Repr

/-- The call a handler sends. -/
def Handler.call : Handler → Call
  | .mintNft nftId => .store nftId
  | .rentNft nftId => .rentNft nftId

/-- Something a page has sent out. -/
inductive Pending : Type where
  /-- the transaction of a handler, sent from an account; the handler awaits its receipt -/
  | sending : Handler → Address → Pending
  /-- the same, but the handler has been told that it failed; it may still be mined -/
  | abandoned : Handler → Address → Pending
  /-- a mined transaction; its receipt is on the way to the handler -/
  | mined : Handler → Pending
  /-- a call of `getAvailableNfts` on its way to the node -/
  | reading : Pending
  /-- the answer to it, on its way back -/
  | answered : List UInt256 → Pending
  deriving DecidableEq, Repr

/-- The state of a page. The contract object is there as soon as an account has been
selected once. -/
structure Page : Type where
  /-- the account selected in the wallet -/
  account : Option Address
  /-- the rentals confirmed on this page -/
  rentedNfts : List RentedNft
  /-- the ids shown, each with a button to rent it -/
  availableNfts : List UInt256
  /-- what has been sent out, oldest first -/
  pending : List Pending
  deriving DecidableEq, Repr

namespace Page

/-- A page just loaded. -/
def empty : Page := ⟨none, [], [], []⟩

/-- Something more is sent out. -/
def send (page : Page) (sent : Pending) : Page :=
  { page with pending := page.pending ++ [sent] }

/-- `pending[i]` has got one step further. -/
def advance (page : Page) (i : ℕ) (sent : Pending) : Page :=
  { page with pending := page.pending.set i sent }

/-- Nothing more will come of `pending[i]`. -/
def drop (page : Page) (i : ℕ) : Page :=
  { page with pending := page.pending.eraseIdx i }

/-- `setAccount`, called by the wallet component. A new account makes a new contract
object, and with it `loadAvailableNfts` runs. -/
def setAccount (page : Page) (account : Option Address) : Page :=
  if page.account = account then page
  else if account.isSome then { page with account }.send .reading
  else { page with account }

/-- `setRentedNfts((prev) => [...prev, rented])`; as `rentedNfts` changes,
`loadAvailableNfts` runs. -/
def addRented (page : Page) (rented : RentedNft) : Page :=
  { page with rentedNfts := page.rentedNfts ++ [rented] }.send .reading

/-- A handler goes on with the receipt of its transaction: it asks for the listing again,
after `rentNftHandler` has noted the rental. -/
def confirm (page : Page) (i : ℕ) (now : ℕ) : Handler → Page
  | .mintNft _ => page.advance i .reading
  | .rentNft nftId => (page.advance i .reading).addRented ⟨nftId, now⟩

/-- `setAvailableNfts(nfts)`, with which every handler ends. -/
def setAvailable (page : Page) (i : ℕ) (nfts : List UInt256) : Page :=
  { page with availableNfts := nfts }.drop i

end Page

/-- The ids the page has a mint button for. -/
def mintButtons : List UInt256 := [1, 2, 3]

/-! ## The system -/

/-- The contract on its chain, and the open pages. -/
structure System (ι : Type u) : Type u where
  /-- the state of the contract -/
  chain : State
  /-- the pages -/
  pages : ι → Page

/-- What can happen. -/
inductive Event (ι : Type u) : Type u where
  /-- an account is selected on a page, or none any more -/
  | setAccount : ι → Option Address → Event ι
  /-- a mint button is clicked -/
  | clickMint : ι → UInt256 → Event ι
  /-- a rent button is clicked -/
  | clickRent : ι → UInt256 → Event ι
  /-- a transaction of a page is mined, at a block time -/
  | mine : ι → ℕ → UInt256 → Event ι
  /-- the node answers a call of a page -/
  | answer : ι → ℕ → Event ι
  /-- what a page was waiting for arrives, at a time of its clock -/
  | arrive : ι → ℕ → ℕ → Event ι
  /-- a page is told that what it was waiting for has failed -/
  | fail : ι → ℕ → Event ι
  /-- a transaction that no page has sent is mined -/
  | foreign : Tx → Event ι

variable {ι : Type u} [DecidableEq ι]

namespace System

/-- The contract freshly deployed, and no page used yet. -/
def initial : System ι := ⟨deployed, fun _ => .empty⟩

/-- A page has changed. -/
def setPage (s : System ι) (p : ι) (page : Page) : System ι :=
  { s with pages := Function.update s.pages p page }

/-- `button`, if the page shows its buttons: it does while an account is selected. -/
def click (s : System ι) (p : ι) (handler : Handler) (shown : Bool) :
    Except Unit (System ι) :=
  match (s.pages p).account with
  | some account =>
    if shown then .ok (s.setPage p ((s.pages p).send (.sending handler account)))
    else .error ()
  | none => .error ()

/-- A transaction of a page goes into a block, unless the contract reverts it. -/
def mine (s : System ι) (p : ι) (i : ℕ) (time : UInt256) : Except Unit (System ι) :=
  match (s.pages p).pending[i]? with
  | some (.sending handler account) =>
    match transact ⟨⟨account, time⟩, handler.call⟩ s.chain with
    | .ok chain => .ok { s.setPage p ((s.pages p).advance i (.mined handler)) with chain }
    | .error _ => .error ()
  | some (.abandoned handler account) =>
    match transact ⟨⟨account, time⟩, handler.call⟩ s.chain with
    | .ok chain => .ok { s.setPage p ((s.pages p).drop i) with chain }
    | .error _ => .error ()
  | _ => .error ()

/-- The node runs a `getAvailableNfts` on the state it has now. -/
def answer (s : System ι) (p : ι) (i : ℕ) : Except Unit (System ι) :=
  match (s.pages p).pending[i]? with
  | some .reading =>
    match getAvailableNfts s.chain with
    | .ok nfts => .ok (s.setPage p ((s.pages p).advance i (.answered nfts.entries)))
    | .error _ => .error ()
  | _ => .error ()

/-- A handler goes on with what it has been waiting for. -/
def arrive (s : System ι) (p : ι) (i : ℕ) (now : ℕ) : Except Unit (System ι) :=
  match (s.pages p).pending[i]? with
  | some (.mined handler) => .ok (s.setPage p ((s.pages p).confirm i now handler))
  | some (.answered nfts) => .ok (s.setPage p ((s.pages p).setAvailable i nfts))
  | _ => .error ()

/-- A handler lands in its `catch`: it logs the error and ends. A transaction that was
sent is not taken back by that. -/
def fail (s : System ι) (p : ι) (i : ℕ) : Except Unit (System ι) :=
  match (s.pages p).pending[i]? with
  | some (.sending handler account) =>
    .ok (s.setPage p ((s.pages p).advance i (.abandoned handler account)))
  | some (.abandoned _ _) => .error ()
  | some _ => .ok (s.setPage p ((s.pages p).drop i))
  | none => .error ()

end System

/-- What an event does to the system. -/
def step (event : Event ι) (s : System ι) : Except Unit (System ι) :=
  match event with
  | .setAccount p account => .ok (s.setPage p ((s.pages p).setAccount account))
  | .clickMint p nftId => s.click p (.mintNft nftId) (nftId ∈ mintButtons)
  | .clickRent p nftId => s.click p (.rentNft nftId) (nftId ∈ (s.pages p).availableNfts)
  | .mine p i time => s.mine p i time
  | .answer p i => s.answer p i
  | .arrive p i now => s.arrive p i now
  | .fail p i => s.fail p i
  | .foreign tx =>
    match transact tx s.chain with
    | .ok chain => .ok { s with chain }
    | .error _ => .error ()

end FrontEnd

end NftGame

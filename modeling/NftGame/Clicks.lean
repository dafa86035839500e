import NftGame.Expiry
import NftGame.Pages
import NftGame.Unended
import NftGame.ZeroAnswer

/-!
# What the buttons can do

The page has buttons to mint and to rent, and none to return. Every click is one
transaction, mined once or not at all, and nothing is mined that was not clicked, or sent by
somebody who does not use the pages (`clicks_accounted`).

So for those who use the pages only, the contract is a simpler one. An account rents once,
for one `rentalDuration`, and is locked out for good (`account_rents_once`). And the two
flaws of the contract cannot be reached: it takes an `endRental` sent by other means to lose
a copy (`no_copy_lost_by_pages`), and a `store(0)` sent by other means to make a zero answer
ambiguous (`zero_answer_by_pages`).
-/

namespace NftGame

open Solidity Transaction NFTRentLight

namespace FrontEnd

universe u

variable {ι : Type u} [DecidableEq ι]

/-! ## Clicks and transactions -/

/-- What a page has sent and nobody has mined yet. -/
def Page.unmined (page : Page) : List (Handler × Address) :=
  page.pending.filterMap Pending.transaction?

section Unmined

variable {chain : State} {page page' : Page} {i : ℕ} {x : Pending}
  {sent mined : List (Handler × Address)}

theorem unmined_cons (x : Pending) (l : List Pending) :
    (x :: l).filterMap Pending.transaction? =
      x.transaction?.toList ++ l.filterMap Pending.transaction? := by
  cases x <;> rfl

theorem unmined_send (x : Pending) :
    (page.send x).unmined = page.unmined ++ x.transaction?.toList := by
  rw [Page.unmined, Page.send, List.filterMap_append, unmined_cons, List.filterMap_nil,
    List.append_nil]
  rfl

theorem unmined_drop (hi : page.pending[i]? = some x) :
    page.unmined.Perm (x.transaction?.toList ++ (page.drop i).unmined) := by
  obtain ⟨hlt, rfl⟩ := List.getElem?_eq_some_iff.mp hi
  have hget := (List.getElem_cons_eraseIdx_perm hlt).filterMap Pending.transaction?
  rw [unmined_cons] at hget
  exact hget.symm

theorem unmined_advance (x' : Pending) (hi : page.pending[i]? = some x) :
    (page.advance i x').unmined.Perm (x'.transaction?.toList ++ (page.drop i).unmined) := by
  obtain ⟨hlt, -⟩ := List.getElem?_eq_some_iff.mp hi
  have hset := (List.set_perm_cons_eraseIdx hlt x').filterMap Pending.transaction?
  rwa [unmined_cons] at hset

/-- Changing an entry into one with the same transaction. -/
theorem unmined_advance_of_eq (x' : Pending) (hi : page.pending[i]? = some x)
    (hsame : x'.transaction? = x.transaction?) : (page.advance i x').unmined.Perm page.unmined := by
  have hadvance := unmined_advance x' hi
  rw [hsame] at hadvance
  exact hadvance.trans (unmined_drop hi).symm

theorem unmined_setAccount (account : Option Address) :
    (page.setAccount account).unmined = page.unmined := by
  rw [Page.setAccount]
  split
  · rfl
  · split
    · exact (unmined_send _).trans (List.append_nil _)
    · rfl

theorem unmined_confirm {handler : Handler} (now : ℕ)
    (hi : page.pending[i]? = some (.mined handler)) :
    (page.confirm i now handler).unmined.Perm page.unmined := by
  have hread := unmined_advance_of_eq .reading hi rfl
  cases handler with
  | mintNft k => exact hread
  | rentNft k =>
    rw [Page.confirm, Page.addRented, unmined_send]
    exact (List.append_nil _).symm ▸ hread

/-- **A page keeps its transactions until they are mined.** -/
theorem Page.Moves.unmined (h : Page.Moves chain page sent mined page') :
    (page.unmined ++ sent).Perm (mined ++ page'.unmined) := by
  cases h with
  | setAccount account =>
    rw [List.append_nil, unmined_setAccount]
    rfl
  | click =>
    rw [unmined_send]
    rfl
  | @mine i handler account hi =>
    have hdrop := unmined_drop hi
    have hadvance := unmined_advance (.mined handler) hi
    rw [List.append_nil]
    exact hdrop.trans (hadvance.symm.append_left _)
  | mineAbandoned hi =>
    rw [List.append_nil]
    exact unmined_drop hi
  | answer hi =>
    rw [List.append_nil]
    exact (unmined_advance_of_eq (.answered chain.available) hi rfl).symm
  | confirm now hi =>
    rw [List.append_nil]
    exact (unmined_confirm now hi).symm
  | setAvailable hi =>
    rw [List.append_nil]
    exact unmined_drop hi

/-- Giving a transaction up does not take it back. -/
theorem Page.Fails.unmined (h : Page.Fails page page') : page.unmined.Perm page'.unmined := by
  cases h with
  | @abandon i handler account hi =>
    exact (unmined_advance_of_eq (.abandoned handler account) hi rfl).symm
  | lose hi hsent =>
    have hdrop := unmined_drop hi
    rwa [hsent] at hdrop

end Unmined

section Mined

variable (events : List (Event ι)) {p : ι} {tx : Tx} {k : UInt256} {account : Address}

/-- What has been clicked on a page has been mined, or may still be. -/
theorem clicked_run (p : ι) : (observed step (sentBy p) .initial events).Perm
    (observed step (minedOf p) .initial events ++
      ((run step .initial events).pages p).unmined) := by
  refine observed_conserves (fun s => (s.pages p).unmined) (fun s event s' h => ?_)
    System.initial events
  rcases page_step h p with ⟨hsame, hsent, hmined⟩ | hmoves | ⟨-, hsent, hmined, hfails⟩
  · rw [hsame, hsent, hmined, List.append_nil]
    rfl
  · exact hmoves.unmined
  · rw [hsent, hmined, List.append_nil]
    exact hfails.unmined

variable {events}

/-- What has been mined was sent by a page, or by somebody else. -/
theorem mem_minedIn (htx : tx ∈ minedIn events) : .foreign tx ∈ events ∨
    ∃ p handler, (handler, tx.env.sender) ∈ observed step (minedOf p) .initial events ∧
      tx.call = handler.call := by
  obtain ⟨pre, event, post, s', rfl, h, hobs⟩ := mem_observed_iff.mp htx
  cases event with
  | mine p i time =>
    obtain ⟨handler, account, -, -, hbind, -⟩ := mine_eq_ok h
    rw [onChain, hbind, List.mem_singleton] at hobs
    subst hobs
    refine .inr ⟨p, handler, mem_observed_iff.mpr ⟨pre, _, post, s', rfl, h, ?_⟩, rfl⟩
    rw [minedOf, if_pos rfl, hbind]
    exact List.mem_singleton_self _
  | foreign tx' =>
    rw [onChain, List.mem_singleton] at hobs
    rw [hobs]
    exact .inl (List.mem_append_right _ List.mem_cons_self)
  | _ => cases hobs

/-- A page mints nothing but what it has a button for. -/
theorem mem_mintButtons (hsent : (.mintNft k, account) ∈ observed step (sentBy p) .initial events) :
    k ∈ mintButtons := by
  obtain ⟨pre, event, post, s', rfl, h, hobs⟩ := mem_observed_iff.mp hsent
  cases event with
  | clickMint q m =>
    obtain ⟨hshown, account', haccount, -⟩ := click_eq_ok h
    rw [sentBy, haccount] at hobs
    split at hobs
    · obtain ⟨⟨⟩, -⟩ := Prod.mk.inj (List.mem_singleton.mp hobs)
      exact of_decide_eq_true hshown
    · cases hobs
  | clickRent q m =>
    obtain ⟨-, account', haccount, -⟩ := click_eq_ok h
    rw [sentBy, haccount] at hobs
    split at hobs
    · obtain ⟨⟨⟩, -⟩ := Prod.mk.inj (List.mem_singleton.mp hobs)
    · cases hobs
  | _ => cases hobs

/-- **A page never ends a rental**, and stores only the ids of its buttons. -/
theorem call_of_mined (htx : tx ∈ minedIn events) (hown : .foreign tx ∉ events) :
    tx.call ≠ .endRental ∧ ∀ k, tx.call = .store k → k ∈ mintButtons := by
  obtain ⟨p, handler, hmined, hcall⟩ := (mem_minedIn htx).resolve_left hown
  have hsent := (clicked_run events p).symm.subset (List.mem_append_left _ hmined)
  rw [hcall]
  cases handler with
  | mintNft m =>
    refine ⟨by rintro ⟨⟩, ?_⟩
    rintro _ ⟨⟩
    exact mem_mintButtons hsent
  | rentNft m => exact ⟨by rintro ⟨⟩, by rintro _ ⟨⟩⟩

end Mined

/-- **An account used on the pages only rents once.** If nobody ends a rental for `u`
elsewhere, then once a rental of `u` is mined, it is the only one `u` ever makes, whatever
is clicked on whichever page: every other `rentNft` of `u` reverts, and the access views
show the NFT for the `300` seconds of that one rental, and `0` ever after. -/
theorem account_rents_once (events : List (Event ι)) {u : Address} {k t₀ : UInt256}
    (honly : ∀ tx, .foreign tx ∈ events → tx.env.sender = u → tx.call ≠ .endRental)
    (hrent : ⟨⟨u, t₀⟩, .rentNft k⟩ ∈ minedIn events) (htime : t₀.toNat < 2 ^ 64) :
    let s := (run step .initial events).chain
    NFTRentLight.events u (minedIn events) = [.take k t₀] ∧
      (∀ t m, rentNft ⟨u, t⟩ m s = .error (.error "Already renting")) ∧
      ∀ t, checkAccess ⟨u, t⟩ s = .ok (if t.toNat ≤ t₀.toNat + 300 then k else 0) ∧
        getUserNfts ⟨u, t⟩ s = checkAccess ⟨u, t⟩ s := by
  intro s
  obtain ⟨haccepted, hchain⟩ := chain_run events
  have hkept : ∀ tx ∈ minedIn events, tx.env.sender = u → tx.call ≠ .endRental := by
    intro tx htx hsender
    by_cases hforeign : .foreign tx ∈ events
    · exact honly tx hforeign hsender
    · exact (call_of_mined htx hforeign).1
  obtain ⟨hevents, hrental⟩ := rental_of_unended hkept (by rwa [haccepted])
  rw [haccepted] at hevents
  have hrental : s.rentals u = ⟨k, t₀, true⟩ := by rw [← hrental, ← hchain]
  have hduration : s.rentalDuration = 300 := by
    rw [show s = run transact deployed (minedIn events) from hchain, rentalDuration_run]
  refine ⟨hevents, fun t m => rentNft_of_active (by rw [hrental]) m, fun t => ?_⟩
  refine ⟨?_, getUserNfts_eq _ _⟩
  have h300 : (300 : UInt256).toNat = 300 := rfl
  have hexpiry : (s.rentals u).startTime.toNat + s.rentalDuration.toNat < 2 ^ 256 := by
    rw [hrental, hduration, h300]
    dsimp only
    omega
  rw [checkAccess_eq hexpiry]
  simp only [State.Valid, hrental, hduration, h300, true_and]

/-- Two pages, one account: the rent button is clicked on both, and both transactions are
sent. -/
def bothPages : List (Event Bool) :=
  [.setAccount true (some 7), .setAccount false (some 7), .clickMint true 2,
    .mine true 1 100, .answer true 0, .arrive true 0 5, .answer false 0, .arrive false 0 5,
    .clickRent true 2, .clickRent false 2, .mine false 0 101, .mine true 1 102]

theorem account_rents_once_bothPages :
    let s := (run step .initial bothPages).chain
    (∀ t m, rentNft ⟨7, t⟩ m s = .error (.error "Already renting")) ∧
      ∀ t, checkAccess ⟨7, t⟩ s = .ok (if t.toNat ≤ 401 then 2 else 0) := by
  intro s
  have honly : ∀ tx, .foreign tx ∈ bothPages → tx.env.sender = 7 → tx.call ≠ .endRental := by
    simp [bothPages]
  have hrent : ⟨⟨7, 101⟩, .rentNft 2⟩ ∈ minedIn bothPages := by decide
  obtain ⟨-, hblocked, hviews⟩ := account_rents_once bothPages honly hrent (by decide)
  exact ⟨hblocked, fun t => (hviews t).1⟩

/-- **Only others do harm.** If nobody ends a rental outside the pages, no copy is ever
lost: every mark in the pool is that of a rental, and the copies listed are those minted
less those rented. -/
theorem no_copy_lost_by_pages (events : List (Event ι))
    (honly : ∀ tx, .foreign tx ∈ events → tx.call ≠ .endRental) :
    let s := (run step .initial events).chain
    NoCopyLost s ∧ ∀ k, (s.holders k).ncard = rentsOf k (minedIn events) ∧
      ∃ nfts, getAvailableNfts s = .ok nfts ∧
        nfts.entries.count k + rentsOf k (minedIn events) = storesOf k (minedIn events) := by
  intro s
  obtain ⟨haccepted, hchain⟩ := chain_run events
  have hnone : ∀ tx ∈ minedIn events, tx.call ≠ .endRental := by
    intro tx htx
    by_cases hforeign : .foreign tx ∈ events
    · exact honly tx hforeign
    · exact (call_of_mined htx hforeign).1
  rw [show s = run transact deployed (minedIn events) from hchain]
  have hlost := noCopyLost_of_unended hnone
  refine ⟨hlost, fun k => ?_⟩
  have hmarks := rentedCopies_of_unended hnone k
  have hcopies := copies_run (minedIn events) k
  rw [haccepted] at hmarks hcopies
  have hheld := (shelfInv_run (minedIn events) k).held
  have hall := ((run transact deployed (minedIn events)).shelf k).free_add_out
  rw [out_shelf] at hheld hall
  rw [free_shelf, length_flags_shelf] at hall
  refine ⟨?_, _, getAvailableNfts_eq _, ?_⟩
  · rw [← hmarks]
    exact Nat.le_antisymm hheld (hlost k)
  · rw [entries_listing, ← hmarks, ← hcopies]
    exact hall

theorem no_copy_lost_by_pages_bothPages :
    NoCopyLost (run step .initial bothPages).chain ∧
      ((run step .initial bothPages).chain.holders 2).ncard = 1 := by
  have honly : ∀ tx, .foreign tx ∈ bothPages → tx.call ≠ .endRental := by simp [bothPages]
  obtain ⟨hlost, hheld⟩ := no_copy_lost_by_pages bothPages honly
  exact ⟨hlost, (hheld 2).1.trans (by decide)⟩

/-- **Nor does a zero answer mislead anybody**, if nobody else stores the NFT `0`. -/
theorem zero_answer_by_pages (events : List (Event ι))
    (honly : ∀ tx, .foreign tx ∈ events → tx.call ≠ .store 0)
    (htimes : ∀ tx ∈ minedIn events, tx.env.timestamp.toNat < 2 ^ 64) :
    ZeroMeansNone (run step .initial events).chain := by
  rw [(chain_run events).2]
  refine zeroMeansNone_of_not_stored htimes fun tx htx hcall => ?_
  by_cases hforeign : .foreign tx ∈ events
  · exact honly tx hforeign hcall
  · have hbutton := (call_of_mined htx hforeign).2 0 hcall
    revert hbutton
    decide

theorem zero_answer_by_pages_bothPages : ZeroMeansNone (run step .initial bothPages).chain :=
  zero_answer_by_pages bothPages (by simp [bothPages]) (by decide)

end FrontEnd

end NftGame

import Mathlib.Data.List.Perm.Basic
import NftGame.FrontEnd
import NftGame.Listing

/-!
# What the pages know

A page learns about the contract from answers that come late, in any order, or never. Over
every run of the system:

* its list of rented NFTs never shows a rental the contract has not made for it, and none
  of them twice; if no request of the page fails, it shows them all as soon as nothing is
  pending (`rentedNfts_accounted`);
* the ids it shows are those the contract listed at some earlier time, nothing else
  (`availableNfts_was_listed`);
* and they are the ids the contract lists now, once the chain has come to rest and the
  page has worked off what it asked for since (`availableNfts_catches_up`).

The contract itself does not notice that there are pages: its state is that of a run of
the transactions mined so far (`chain_run`).
-/

namespace NftGame

open Solidity Transaction NFTRentLight

namespace FrontEnd

universe u

variable {ι : Type u} [DecidableEq ι]

/-! ## What is observed -/

/-- The transaction that may still be mined for this. -/
def Pending.transaction? : Pending → Option (Handler × Address)
  | .sending handler account => some (handler, account)
  | .abandoned handler account => some (handler, account)
  | .mined _ => none
  | .reading => none
  | .answered _ => none

/-- The id a handler rents. -/
def Handler.rents : Handler → List UInt256
  | .mintNft _ => []
  | .rentNft nftId => [nftId]

/-- The transaction an event puts on the chain. -/
def onChain (s : System ι) : Event ι → List Tx
  | .mine p i time =>
    match (s.pages p).pending[i]?.bind Pending.transaction? with
    | some (handler, account) => [⟨⟨account, time⟩, handler.call⟩]
    | none => []
  | .foreign tx => [tx]
  | _ => []

/-- What an event makes the page `p` send: a handler and the account it sends from. -/
def sentBy (p : ι) (s : System ι) : Event ι → List (Handler × Address)
  | .clickMint q nftId =>
    if q = p then (s.pages q).account.toList.map (.mintNft nftId, ·) else []
  | .clickRent q nftId =>
    if q = p then (s.pages q).account.toList.map (.rentNft nftId, ·) else []
  | _ => []

/-- What an event mines of what the page `p` has sent. -/
def minedOf (p : ι) (s : System ι) : Event ι → List (Handler × Address)
  | .mine q i _ =>
    if q = p then ((s.pages q).pending[i]?.bind Pending.transaction?).toList else []
  | _ => []

/-- The ids rented by a list of handlers. -/
def rentedBy (mined : List (Handler × Address)) : List UInt256 :=
  mined.flatMap fun (handler, _) => handler.rents

/-- The ids rented by a list of transactions. -/
def rentedIds (txs : List Tx) : List UInt256 :=
  txs.flatMap fun tx =>
    match tx.call with
    | .rentNft nftId => [nftId]
    | _ => []

/-- The transactions mined in a run of the system. -/
def minedIn (events : List (Event ι)) : List Tx := observed step onChain .initial events

/-! ## What an event does -/

/-- How a page moves when nothing fails, with what it sends and what is mined for it. -/
inductive Page.Moves (chain : State) (page : Page) :
    List (Handler × Address) → List (Handler × Address) → Page → Prop where
  /-- the wallet names an account -/
  | setAccount (account : Option Address) : Moves chain page [] [] (page.setAccount account)
  /-- a handler sends its transaction -/
  | click {handler : Handler} {account : Address} :
      Moves chain page [(handler, account)] [] (page.send (.sending handler account))
  /-- the transaction is mined -/
  | mine {i : ℕ} {handler : Handler} {account : Address}
      (hi : page.pending[i]? = some (.sending handler account)) :
      Moves chain page [] [(handler, account)] (page.advance i (.mined handler))
  /-- the transaction is mined, and nobody waits for it any more -/
  | mineAbandoned {i : ℕ} {handler : Handler} {account : Address}
      (hi : page.pending[i]? = some (.abandoned handler account)) :
      Moves chain page [] [(handler, account)] (page.drop i)
  /-- the node answers with the listing of its state -/
  | answer {i : ℕ} (hi : page.pending[i]? = some .reading) :
      Moves chain page [] [] (page.advance i (.answered chain.available))
  /-- the receipt arrives -/
  | confirm {i : ℕ} {handler : Handler} (now : ℕ)
      (hi : page.pending[i]? = some (.mined handler)) :
      Moves chain page [] [] (page.confirm i now handler)
  /-- the listing arrives -/
  | setAvailable {i : ℕ} {nfts : List UInt256}
      (hi : page.pending[i]? = some (.answered nfts)) :
      Moves chain page [] [] (page.setAvailable i nfts)

/-- How a page moves when something fails. -/
inductive Page.Fails (page : Page) : Page → Prop where
  /-- a handler gives its transaction up -/
  | abandon {i : ℕ} {handler : Handler} {account : Address}
      (hi : page.pending[i]? = some (.sending handler account)) :
      Fails page (page.advance i (.abandoned handler account))
  /-- an answer is lost, or was never given -/
  | lose {i : ℕ} {sent : Pending} (hi : page.pending[i]? = some sent)
      (hsent : sent.transaction? = none) : Fails page (page.drop i)

section Steps

variable {s s' : System ι} {p q : ι} {i : ℕ} {event : Event ι}

@[simp] theorem pages_setPage_self {page : Page} : (s.setPage p page).pages p = page :=
  Function.update_self ..

theorem pages_setPage_of_ne {page : Page} (h : q ≠ p) :
    (s.setPage p page).pages q = s.pages q :=
  Function.update_of_ne h ..

theorem click_eq_ok {handler : Handler} {shown : Bool}
    (h : s.click p handler shown = .ok s') :
    shown = true ∧ ∃ account, (s.pages p).account = some account ∧
      s' = s.setPage p ((s.pages p).send (.sending handler account)) := by
  rw [System.click] at h
  split at h
  · next account haccount =>
    split at h
    · next hshown => exact ⟨hshown, account, haccount, (Except.ok.inj h).symm⟩
    · cases h
  · cases h

theorem mine_eq_ok {time : UInt256} (h : s.mine p i time = .ok s') :
    ∃ handler account chain page,
      (s.pages p).pending[i]?.bind Pending.transaction? = some (handler, account) ∧
      transact ⟨⟨account, time⟩, handler.call⟩ s.chain = .ok chain ∧
      Page.Moves s.chain (s.pages p) [] [(handler, account)] page ∧
      s' = { s.setPage p page with chain } := by
  rw [System.mine] at h
  split at h
  · next handler account hi =>
    split at h
    · next chain hok =>
      exact ⟨handler, account, chain, _, by rw [hi]; rfl, hok, .mine hi, (Except.ok.inj h).symm⟩
    · cases h
  · next handler account hi =>
    split at h
    · next chain hok =>
      exact ⟨handler, account, chain, _, by rw [hi]; rfl, hok, .mineAbandoned hi,
        (Except.ok.inj h).symm⟩
    · cases h
  · cases h

theorem answer_eq_ok (h : s.answer p i = .ok s') :
    (s.pages p).pending[i]? = some .reading ∧
      s' = s.setPage p ((s.pages p).advance i (.answered s.chain.available)) := by
  rw [System.answer] at h
  split at h
  · next hi =>
    rw [getAvailableNfts_eq] at h
    exact ⟨hi, (Except.ok.inj h).symm⟩
  · cases h

theorem arrive_eq_ok {now : ℕ} (h : s.arrive p i now = .ok s') :
    ∃ page, Page.Moves s.chain (s.pages p) [] [] page ∧ s' = s.setPage p page := by
  rw [System.arrive] at h
  split at h
  · next handler hi => exact ⟨_, .confirm now hi, (Except.ok.inj h).symm⟩
  · next nfts hi => exact ⟨_, .setAvailable hi, (Except.ok.inj h).symm⟩
  · cases h

theorem fail_eq_ok (h : s.fail p i = .ok s') :
    ∃ page, Page.Fails (s.pages p) page ∧ s' = s.setPage p page := by
  rw [System.fail] at h
  split at h
  · next handler account hi => exact ⟨_, .abandon hi, (Except.ok.inj h).symm⟩
  · cases h
  · next sent hsending habandoned hi =>
    refine ⟨_, .lose hi ?_, (Except.ok.inj h).symm⟩
    cases sent with
    | sending handler account => exact absurd rfl (hsending handler account)
    | abandoned handler account => exact absurd rfl (habandoned handler account)
    | mined => rfl
    | reading => rfl
    | answered => rfl
  · cases h

/-- **The chain and an event**: it commits the transaction observed, if there is one. -/
theorem chain_step (h : step event s = .ok s') :
    (onChain s event = [] ∧ s'.chain = s.chain) ∨
      ∃ tx, onChain s event = [tx] ∧ transact tx s.chain = .ok s'.chain := by
  cases event with
  | setAccount p account =>
    obtain rfl := Except.ok.inj h
    exact .inl ⟨rfl, rfl⟩
  | clickMint p k =>
    obtain ⟨-, account, -, rfl⟩ := click_eq_ok h
    exact .inl ⟨rfl, rfl⟩
  | clickRent p k =>
    obtain ⟨-, account, -, rfl⟩ := click_eq_ok h
    exact .inl ⟨rfl, rfl⟩
  | mine p i time =>
    obtain ⟨handler, account, chain, page, htx, hok, -, rfl⟩ := mine_eq_ok h
    exact .inr ⟨_, by rw [onChain, htx], hok⟩
  | answer p i =>
    obtain ⟨-, rfl⟩ := answer_eq_ok h
    exact .inl ⟨rfl, rfl⟩
  | arrive p i now =>
    obtain ⟨page, -, rfl⟩ := arrive_eq_ok h
    exact .inl ⟨rfl, rfl⟩
  | fail p i =>
    obtain ⟨page, -, rfl⟩ := fail_eq_ok h
    exact .inl ⟨rfl, rfl⟩
  | foreign tx =>
    rw [step] at h
    split at h
    · next chain hok =>
      obtain rfl := Except.ok.inj h
      exact .inr ⟨tx, rfl, hok⟩
    · cases h

/-- **A page and an event**: the page moves, or something it sent has failed, or the event
is none of its business. -/
theorem page_step (h : step event s = .ok s') (p : ι) :
    (s'.pages p = s.pages p ∧ sentBy p s event = [] ∧ minedOf p s event = []) ∨
      Page.Moves s.chain (s.pages p) (sentBy p s event) (minedOf p s event) (s'.pages p) ∨
      (∃ i, event = .fail p i) ∧ sentBy p s event = [] ∧ minedOf p s event = [] ∧
        Page.Fails (s.pages p) (s'.pages p) := by
  -- what happens to another page leaves this one alone
  have hmove : ∀ {q sent mined page} {s₁ : System ι},
      Page.Moves s.chain (s.pages q) sent mined page → s₁.pages = (s.setPage q page).pages →
      sentBy p s event = (if q = p then sent else []) →
      minedOf p s event = (if q = p then mined else []) →
      (s₁.pages p = s.pages p ∧ sentBy p s event = [] ∧ minedOf p s event = []) ∨
        Page.Moves s.chain (s.pages p) (sentBy p s event) (minedOf p s event) (s₁.pages p) := by
    intro q sent mined page s₁ hmoves hpages hsent hmined
    rw [hpages, hsent, hmined]
    by_cases hq : q = p
    · subst hq
      rw [if_pos rfl, if_pos rfl, pages_setPage_self]
      exact .inr hmoves
    · rw [if_neg hq, if_neg hq]
      exact .inl ⟨pages_setPage_of_ne (Ne.symm hq), rfl, rfl⟩
  cases event with
  | setAccount q account =>
    obtain rfl := Except.ok.inj h
    exact (hmove (.setAccount account) rfl (ite_self _).symm (ite_self _).symm).imp_right .inl
  | clickMint q k =>
    obtain ⟨-, account, haccount, rfl⟩ := click_eq_ok h
    exact (hmove .click rfl (by rw [sentBy, haccount]; rfl) (ite_self _).symm).imp_right .inl
  | clickRent q k =>
    obtain ⟨-, account, haccount, rfl⟩ := click_eq_ok h
    exact (hmove .click rfl (by rw [sentBy, haccount]; rfl) (ite_self _).symm).imp_right .inl
  | mine q i time =>
    obtain ⟨handler, account, chain, page, htx, -, hmoves, rfl⟩ := mine_eq_ok h
    exact (hmove hmoves rfl (ite_self _).symm (by rw [minedOf, htx]; rfl)).imp_right .inl
  | answer q i =>
    obtain ⟨hi, rfl⟩ := answer_eq_ok h
    exact (hmove (.answer hi) rfl (ite_self _).symm (ite_self _).symm).imp_right .inl
  | arrive q i now =>
    obtain ⟨page, hmoves, rfl⟩ := arrive_eq_ok h
    exact (hmove hmoves rfl (ite_self _).symm (ite_self _).symm).imp_right .inl
  | fail q i =>
    obtain ⟨page, hfails, rfl⟩ := fail_eq_ok h
    by_cases hq : p = q
    · subst hq
      rw [pages_setPage_self]
      exact .inr (.inr ⟨⟨i, rfl⟩, rfl, rfl, hfails⟩)
    · exact .inl ⟨pages_setPage_of_ne hq, rfl, rfl⟩
  | foreign tx =>
    rw [step] at h
    split at h
    · obtain rfl := Except.ok.inj h
      exact .inl ⟨rfl, rfl, rfl⟩
    · cases h

end Steps

/-- **The chain does not notice the pages.** In every run of the system, the transactions
mined are accepted by the contract one after the other, and its state is where they
lead. -/
theorem chain_run (events : List (Event ι)) :
    accepted transact deployed (minedIn events) = minedIn events ∧
      (run step .initial events).chain = run transact deployed (minedIn events) := by
  have hstep : ∀ (s : System ι) chain event s', s.chain = chain → step event s = .ok s' →
      accepted transact chain (onChain s event) = onChain s event ∧
        s'.chain = run transact chain (onChain s event) := by
    rintro s _ event s' rfl h
    rcases chain_step h with ⟨hnone, hsame⟩ | ⟨tx, hsome, hok⟩
    · rw [hnone]
      exact ⟨rfl, hsame⟩
    · rw [hsome, accepted_cons_ok hok, run_cons, exec_ok hok]
      exact ⟨rfl, rfl⟩
  have hdeployed : (System.initial : System ι).chain = deployed := rfl
  exact observed_simulates hstep hdeployed events

/-! ## What is pending -/

section PendingList

variable {page : Page} {i : ℕ} {sent x : Pending}

/-- Counting what is pending after one entry has changed. -/
theorem count_advance (sent' x : Pending) (hi : page.pending[i]? = some sent) :
    (page.advance i sent').pending.count x + (if sent = x then 1 else 0) =
      page.pending.count x + if sent' = x then 1 else 0 := by
  obtain ⟨hlt, rfl⟩ := List.getElem?_eq_some_iff.mp hi
  have hset := (List.set_perm_cons_eraseIdx hlt sent').count_eq x
  have hget := (List.getElem_cons_eraseIdx_perm hlt).count_eq x
  simp only [List.count_cons, beq_iff_eq] at hset hget
  change (page.pending.set i sent').count x + _ = _
  omega

/-- Counting what is pending after one entry has gone. -/
theorem count_drop (x : Pending) (hi : page.pending[i]? = some sent) :
    (page.drop i).pending.count x + (if sent = x then 1 else 0) = page.pending.count x := by
  obtain ⟨hlt, rfl⟩ := List.getElem?_eq_some_iff.mp hi
  have hget := (List.getElem_cons_eraseIdx_perm hlt).count_eq x
  simp only [List.count_cons, beq_iff_eq] at hget
  exact hget

theorem mem_send (h : x ∈ (page.send sent).pending) : x ∈ page.pending ∨ x = sent := by
  simpa [Page.send] using h

theorem mem_advance (h : x ∈ (page.advance i sent).pending) : x ∈ page.pending ∨ x = sent :=
  List.mem_or_eq_of_mem_set h

theorem mem_drop (h : x ∈ (page.drop i).pending) : x ∈ page.pending :=
  List.mem_of_mem_eraseIdx h

/-- What is pending besides the entry that changes is still pending. -/
theorem mem_advance_of_ne (sent' : Pending) (hi : page.pending[i]? = some sent)
    (hx : x ∈ page.pending) (hne : sent ≠ x) : x ∈ (page.advance i sent').pending := by
  have hcount := count_advance sent' x hi
  rw [if_neg hne] at hcount
  rw [← List.count_pos_iff] at hx ⊢
  omega

theorem mem_drop_of_ne (hi : page.pending[i]? = some sent) (hx : x ∈ page.pending)
    (hne : sent ≠ x) : x ∈ (page.drop i).pending := by
  have hcount := count_drop x hi
  rw [if_neg hne] at hcount
  rw [← List.count_pos_iff] at hx ⊢
  omega

theorem self_mem_advance (sent' : Pending) (hi : page.pending[i]? = some sent) :
    sent' ∈ (page.advance i sent').pending :=
  List.mem_set ((List.getElem?_eq_some_iff.mp hi).1) sent'

theorem mem_send_of_mem (sent : Pending) (hx : x ∈ page.pending) : x ∈ (page.send sent).pending :=
  List.mem_append_left _ hx

/-- Naming an account sends at most a request for the listing. -/
theorem mem_setAccount {account : Option Address} (h : x ∈ (page.setAccount account).pending) :
    x ∈ page.pending ∨ x = .reading := by
  rw [Page.setAccount] at h
  split at h
  · exact .inl h
  · split at h
    · exact mem_send h
    · exact .inl h

theorem mem_setAccount_of_mem (account : Option Address) (hx : x ∈ page.pending) :
    x ∈ (page.setAccount account).pending := by
  rw [Page.setAccount]
  split
  · exact hx
  · split
    · exact mem_send_of_mem _ hx
    · exact hx

/-- After a receipt the listing is asked for, and nothing else. -/
theorem mem_confirm {handler : Handler} {now : ℕ} (h : x ∈ (page.confirm i now handler).pending) :
    x ∈ page.pending ∨ x = .reading := by
  cases handler with
  | mintNft k => exact mem_advance h
  | rentNft k => exact (mem_send h).elim mem_advance .inr

theorem mem_confirm_of_ne {handler : Handler} (now : ℕ)
    (hi : page.pending[i]? = some (.mined handler)) (hx : x ∈ page.pending)
    (hne : .mined handler ≠ x) : x ∈ (page.confirm i now handler).pending := by
  have hadvance := mem_advance_of_ne .reading hi hx hne
  cases handler with
  | mintNft k => exact hadvance
  | rentNft k => exact mem_send_of_mem _ hadvance

@[simp] theorem availableNfts_setAccount (account : Option Address) :
    (page.setAccount account).availableNfts = page.availableNfts := by
  rw [Page.setAccount]
  split
  · rfl
  · split <;> rfl

@[simp] theorem availableNfts_confirm (handler : Handler) (now : ℕ) :
    (page.confirm i now handler).availableNfts = page.availableNfts := by
  cases handler <;> rfl

end PendingList

/-! ## The list of rented NFTs -/

/-- How often `k` is on the page's list of rented NFTs, or on the way there. -/
def Page.noted (page : Page) (k : UInt256) : ℕ :=
  (page.rentedNfts.map RentedNft.id).count k + page.pending.count (.mined (.rentNft k))

/-- Some transaction of the page has been given up. -/
def Page.Abandoned (page : Page) : Prop :=
  ∃ handler account, .abandoned handler account ∈ page.pending

section Noted

variable {chain : State} {page page' : Page} {k : UInt256} {i : ℕ} {x : Pending}
  {sent mined : List (Handler × Address)}

theorem noted_send (h : x ≠ .mined (.rentNft k)) :
    (page.send x).noted k = page.noted k := by
  simp [Page.noted, Page.send, List.count_append, h]

theorem noted_advance (x' : Pending) (k : UInt256) (hi : page.pending[i]? = some x) :
    (page.advance i x').noted k + (if x = .mined (.rentNft k) then 1 else 0) =
      page.noted k + if x' = .mined (.rentNft k) then 1 else 0 := by
  rw [Page.noted, Nat.add_assoc, count_advance _ _ hi, ← Nat.add_assoc]
  rfl

theorem noted_drop (k : UInt256) (hi : page.pending[i]? = some x) :
    (page.drop i).noted k + (if x = .mined (.rentNft k) then 1 else 0) = page.noted k := by
  rw [Page.noted, Nat.add_assoc, count_drop _ hi]
  rfl

theorem noted_setAccount (account : Option Address) :
    (page.setAccount account).noted k = page.noted k := by
  rw [Page.setAccount]
  split
  · rfl
  · split
    · exact noted_send (by simp)
    · rfl

theorem noted_addRented (rented : RentedNft) :
    (page.addRented rented).noted k = page.noted k + if rented.id = k then 1 else 0 := by
  rw [Page.addRented, noted_send (by simp), Page.noted, Page.noted]
  simp only [List.map_append, List.map_cons, List.map_nil, List.count_append,
    List.count_singleton, beq_iff_eq]
  omega

theorem count_rentedBy (handler : Handler) (account : Address) (k : UInt256) :
    (rentedBy [(handler, account)]).count k =
      if Pending.mined handler = .mined (.rentNft k) then 1 else 0 := by
  cases handler with
  | mintNft m => simp [rentedBy, Handler.rents]
  | rentNft m => simp [rentedBy, Handler.rents, List.count_singleton]

/-- A receipt turns a rental on its way into one on the list. -/
theorem noted_confirm {handler : Handler} (now : ℕ)
    (hi : page.pending[i]? = some (.mined handler)) :
    (page.confirm i now handler).noted k = page.noted k := by
  have hread := noted_advance .reading k hi
  cases handler with
  | mintNft m => simpa [Page.confirm] using hread
  | rentNft m =>
    rw [Page.confirm, noted_addRented]
    simpa using hread

/-- **A page notes what is rented for it**, unless it has given a transaction up: then it
may miss some of it. -/
theorem Page.Moves.noted (h : Page.Moves chain page sent mined page') (k : UInt256) :
    page'.noted k ≤ page.noted k + (rentedBy mined).count k ∧
      (¬ page.Abandoned → page'.noted k = page.noted k + (rentedBy mined).count k) := by
  cases h with
  | setAccount account => simp [noted_setAccount, rentedBy]
  | click => simp [noted_send, rentedBy]
  | @mine i handler account hi =>
    have hmined := noted_advance (.mined handler) k hi
    rw [if_neg (by simp), Nat.add_zero, ← count_rentedBy handler account k] at hmined
    exact ⟨hmined.le, fun _ => hmined⟩
  | mineAbandoned hi =>
    have hgone := noted_drop k hi
    refine ⟨by omega, fun hnone => absurd ?_ hnone⟩
    exact ⟨_, _, List.mem_of_getElem? hi⟩
  | answer hi =>
    have hanswered := noted_advance (.answered chain.available) k hi
    simp at hanswered
    simp [hanswered, rentedBy]
  | confirm now hi => simp [noted_confirm now hi, rentedBy]
  | @setAvailable i nfts hi =>
    have hgone : (page.setAvailable i nfts).noted k + _ = page.noted k := noted_drop k hi
    simp at hgone
    simp [hgone, rentedBy]

/-- Only a failure makes a page give something up. -/
theorem Page.Moves.not_abandoned (h : Page.Moves chain page sent mined page')
    (hnone : ¬ page.Abandoned) : ¬ page'.Abandoned := by
  rintro ⟨handler, account, hmem⟩
  have hold : .abandoned handler account ∉ page.pending := fun hmem => hnone ⟨_, _, hmem⟩
  cases h with
  | setAccount => exact (mem_setAccount hmem).elim hold (fun h => by cases h)
  | click => exact (mem_send hmem).elim hold (fun h => by cases h)
  | mine => exact (mem_advance hmem).elim hold (fun h => by cases h)
  | mineAbandoned => exact hold (mem_drop hmem)
  | answer => exact (mem_advance hmem).elim hold (fun h => by cases h)
  | confirm => exact (mem_confirm hmem).elim hold (fun h => by cases h)
  | setAvailable => exact hold (mem_drop hmem)

/-- A failure makes nothing appear. -/
theorem Page.Fails.noted_le (h : Page.Fails page page') (k : UInt256) :
    page'.noted k ≤ page.noted k := by
  cases h with
  | @abandon i handler account hi =>
    have habandoned := noted_advance (.abandoned handler account) k hi
    simp at habandoned
    exact habandoned.le
  | lose hi _ =>
    have hgone := noted_drop k hi
    omega

end Noted

/-- What is mined for a page is on the chain. -/
theorem rentedBy_sublist (p : ι) (events : List (Event ι)) :
    (rentedBy (observed step (minedOf p) .initial events)).Sublist
      (rentedIds (minedIn events)) := by
  refine observed_rel (R := fun mined txs => (rentedBy mined).Sublist (rentedIds txs))
    (.refl []) ?_ ?_ _ events
  · intro l m l' m' h h'
    rw [rentedBy, rentedIds, List.flatMap_append, List.flatMap_append]
    exact h.append h'
  · intro s event
    cases event with
    | mine q i time =>
      rw [minedOf, onChain]
      split
      · rcases (s.pages q).pending[i]?.bind Pending.transaction? with - | ⟨handler, account⟩
        · exact .refl []
        · cases handler <;> exact .refl _
      · exact List.nil_sublist _
    | _ => exact List.nil_sublist _

/-- **The list of rented NFTs is accounted for.** In every run of the system, with any
number of pages and other users, lost answers and transactions mined in any order: a page
shows no rental that the contract has not made for a transaction of that page, and no
rental twice. If none of the page's requests has failed and nothing is pending, it shows
all of them. -/
theorem rentedNfts_accounted (events : List (Event ι)) (p : ι) :
    let page := (run step .initial events).pages p
    let rents := rentedBy (observed step (minedOf p) .initial events)
    rents.Sublist (rentedIds (minedIn events)) ∧
      (page.rentedNfts.map RentedNft.id).Subperm rents ∧
      ((∀ i, .fail p i ∉ events) → page.pending = [] →
        (page.rentedNfts.map RentedNft.id).Perm rents) := by
  intro page rents
  let I : List (Handler × Address) → System ι → Prop := fun mined s =>
    (∀ k, (s.pages p).noted k ≤ (rentedBy mined).count k) ∧
      ((∀ i, .fail p i ∉ events) →
        ¬ (s.pages p).Abandoned ∧ ∀ k, (s.pages p).noted k = (rentedBy mined).count k)
  have hinitial : I [] .initial := by
    refine ⟨fun k => Nat.zero_le _, fun _ => ⟨?_, fun k => rfl⟩⟩
    rintro ⟨handler, account, hmem⟩
    cases hmem
  have hcount : ∀ (l m : List (Handler × Address)) (k : UInt256),
      (rentedBy (l ++ m)).count k = (rentedBy l).count k + (rentedBy m).count k := by
    intro l m k
    rw [rentedBy, List.flatMap_append, List.count_append]
    rfl
  have hI : I (observed step (minedOf p) .initial events) (run step .initial events) := by
    refine observed_induction hinitial events ?_
    rintro event hevent mined s s' ⟨hle, hall⟩ h
    rcases page_step h p with ⟨hsame, -, hnone⟩ | hmoves | ⟨⟨i, rfl⟩, -, hnone, hfails⟩
    · rw [hnone, List.append_nil]
      simpa only [I, hsame] using And.intro hle hall
    · refine ⟨fun k => ?_, fun hnofail => ⟨?_, fun k => ?_⟩⟩
      · have := (hmoves.noted k).1
        have := hle k
        rw [hcount]
        omega
      · exact hmoves.not_abandoned (hall hnofail).1
      · obtain ⟨hnotgiven, heq⟩ := hall hnofail
        rw [(hmoves.noted k).2 hnotgiven, heq, hcount]
    · rw [hnone, List.append_nil]
      refine ⟨fun k => (hfails.noted_le k).trans (hle k), fun hnofail => ?_⟩
      exact absurd hevent (hnofail i)
  obtain ⟨hle, hall⟩ := hI
  refine ⟨rentedBy_sublist p events, List.subperm_ext_iff.mpr fun k _ => ?_,
    fun hnofail hpending => ?_⟩
  · exact (Nat.le_add_right ..).trans (hle k)
  · refine List.perm_iff_count.mpr fun k => ?_
    have heq := (hall hnofail).2 k
    change (page.rentedNfts.map RentedNft.id).count k + page.pending.count _ = _ at heq
    rwa [hpending, List.count_nil, Nat.add_zero] at heq

/-! ## The ids shown -/

/-- The page shows this listing, or is about to. -/
def Page.Knows (page : Page) (nfts : List UInt256) : Prop :=
  nfts = page.availableNfts ∨ .answered nfts ∈ page.pending

section Knows

variable {chain : State} {page page' : Page} {nfts : List UInt256}
  {sent mined : List (Handler × Address)}

/-- Answers come from the node. -/
theorem Page.Moves.answered (h : Page.Moves chain page sent mined page')
    (hanswered : .answered nfts ∈ page'.pending) :
    .answered nfts ∈ page.pending ∨ nfts = chain.available := by
  cases h with
  | setAccount => exact .inl ((mem_setAccount hanswered).resolve_right (by simp))
  | click => exact .inl ((mem_send hanswered).resolve_right (by simp))
  | mine => exact .inl ((mem_advance hanswered).resolve_right (by simp))
  | mineAbandoned => exact .inl (mem_drop hanswered)
  | answer => exact (mem_advance hanswered).imp_right Pending.answered.inj
  | confirm => exact .inl ((mem_confirm hanswered).resolve_right (by simp))
  | setAvailable => exact .inl (mem_drop hanswered)

/-- What is shown changes by an answer only. -/
theorem Page.Moves.shown (h : Page.Moves chain page sent mined page') :
    page'.availableNfts = page.availableNfts ∨ .answered page'.availableNfts ∈ page.pending := by
  cases h with
  | setAccount account => exact .inl (availableNfts_setAccount account)
  | confirm => exact .inl (availableNfts_confirm ..)
  | setAvailable hi => exact .inr (List.mem_of_getElem? hi)
  | _ => exact .inl rfl

/-- **A page learns of a listing from the node only**, when that answers. -/
theorem Page.Moves.knows (h : Page.Moves chain page sent mined page') (hknows : page'.Knows nfts) :
    page.Knows nfts ∨ nfts = chain.available := by
  rcases hknows with rfl | hanswered
  · exact .inl h.shown
  · exact (h.answered hanswered).imp_left .inr

theorem Page.Fails.knows (h : Page.Fails page page') (hknows : page'.Knows nfts) :
    page.Knows nfts := by
  cases h with
  | abandon hi => exact hknows.imp_right fun hmem => (mem_advance hmem).resolve_right (by simp)
  | lose hi _ => exact hknows.imp_right mem_drop

/-- A request for the listing stays until it is answered with the listing of the chain. -/
theorem Page.Moves.keeps_reading (h : Page.Moves chain page sent mined page')
    (hreading : .reading ∈ page.pending) :
    .reading ∈ page'.pending ∨ .answered chain.available ∈ page'.pending := by
  cases h with
  | setAccount account => exact .inl (mem_setAccount_of_mem account hreading)
  | click => exact .inl (mem_send_of_mem _ hreading)
  | mine hi => exact .inl (mem_advance_of_ne _ hi hreading (by simp))
  | mineAbandoned hi => exact .inl (mem_drop_of_ne hi hreading (by simp))
  | answer hi => exact .inr (self_mem_advance _ hi)
  | confirm now hi => exact .inl (mem_confirm_of_ne now hi hreading (by simp))
  | setAvailable hi => exact .inl (mem_drop_of_ne hi hreading (by simp))

/-- An answer stays until it is shown, or another one is. -/
theorem Page.Moves.keeps_answered (h : Page.Moves chain page sent mined page')
    (hanswered : .answered nfts ∈ page.pending) :
    .answered nfts ∈ page'.pending ∨ page'.availableNfts = nfts := by
  cases h with
  | setAccount account => exact .inl (mem_setAccount_of_mem account hanswered)
  | click => exact .inl (mem_send_of_mem _ hanswered)
  | mine hi => exact .inl (mem_advance_of_ne _ hi hanswered (by simp))
  | mineAbandoned hi => exact .inl (mem_drop_of_ne hi hanswered (by simp))
  | answer hi => exact .inl (mem_advance_of_ne _ hi hanswered (by simp))
  | confirm now hi => exact .inl (mem_confirm_of_ne now hi hanswered (by simp))
  | @setAvailable i nfts' hi =>
    by_cases hsame : nfts' = nfts
    · exact .inr hsame
    · exact .inl (mem_drop_of_ne hi hanswered (by simpa using hsame))

end Knows

/-- **What a page shows was listed once.** In every run of the system, the ids a page shows
are what `getAvailableNfts` returned after some of the transactions mined so far, in the
order they were mined: an old listing perhaps, but never a wrong one. -/
theorem availableNfts_was_listed (events : List (Event ι)) (p : ι) :
    ∃ earlier nfts, earlier <+: minedIn events ∧
      getAvailableNfts (run transact deployed earlier) = .ok nfts ∧
      ((run step .initial events).pages p).availableNfts = nfts.entries := by
  let I : List Tx → System ι → Prop := fun mined s =>
    s.chain = run transact deployed mined ∧
      ∀ nfts, (s.pages p).Knows nfts →
        ∃ earlier, earlier <+: mined ∧ nfts = (run transact deployed earlier).available
  have hinitial : I [] .initial := by
    refine ⟨rfl, ?_⟩
    rintro nfts (rfl | hmem)
    · exact ⟨[], List.prefix_refl [], rfl⟩
    · cases hmem
  have hI : I (minedIn events) (run step .initial events) := by
    refine observed_induction hinitial events ?_
    rintro event - mined s s' ⟨hchain, hseen⟩ h
    refine ⟨?_, fun nfts hknows => ?_⟩
    · rcases chain_step h with ⟨hnone, hsame⟩ | ⟨tx, hsome, hok⟩
      · rw [hnone, List.append_nil, hsame, hchain]
      · rw [hsome, run_append, ← hchain, run_cons, exec_ok hok]
        rfl
    · have hknown : (s.pages p).Knows nfts ∨ nfts = s.chain.available := by
        rcases page_step h p with ⟨hsame, -⟩ | hmoves | ⟨-, -, -, hfails⟩
        · rw [hsame] at hknows
          exact .inl hknows
        · exact hmoves.knows hknows
        · exact .inl (hfails.knows hknows)
      rcases hknown with hold | rfl
      · obtain ⟨earlier, hprefix, hnfts⟩ := hseen nfts hold
        exact ⟨earlier, hprefix.trans (List.prefix_append ..), hnfts⟩
      · exact ⟨mined, List.prefix_append .., by rw [hchain]⟩
  obtain ⟨earlier, hprefix, hnfts⟩ := hI.2 _ (.inl rfl)
  exact ⟨earlier, _, hprefix, getAvailableNfts_eq _, hnfts⟩

/-- **A page catches up.** Whatever has happened before: if from some point on nothing is
mined and none of the page's requests fails, if the page has asked for the listing, and no
answer was given to it before the last transaction was mined, then as soon as nothing is
pending it shows exactly what the contract lists, whatever it was that happened in
between. -/
theorem availableNfts_catches_up (s : System ι) (events : List (Event ι)) (p : ι)
    (hquiet : observed step onChain s events = []) (hnofail : ∀ i, .fail p i ∉ events)
    (hasked : .reading ∈ (s.pages p).pending)
    (hfresh : ∀ nfts, .answered nfts ∈ (s.pages p).pending → nfts = s.chain.available)
    (hdone : ((run step s events).pages p).pending = []) :
    getAvailableNfts (run step s events).chain = getAvailableNfts s.chain ∧
      ∃ nfts, getAvailableNfts s.chain = .ok nfts ∧
        ((run step s events).pages p).availableNfts = nfts.entries := by
  let Fresh : System ι → Prop := fun s' => s'.chain = s.chain ∧
    (∀ nfts, .answered nfts ∈ (s'.pages p).pending → nfts = s.chain.available) ∧
    ((s'.pages p).availableNfts = s.chain.available ∨ .reading ∈ (s'.pages p).pending ∨
      .answered s.chain.available ∈ (s'.pages p).pending)
  let I : List Tx → System ι → Prop := fun mined s' => mined = [] → Fresh s'
  have hstart : I [] s := fun _ => ⟨rfl, hfresh, .inr (.inl hasked)⟩
  have hI : I (observed step onChain s events) (run step s events) := by
    refine observed_induction hstart events ?_
    intro event hevent mined s₁ s₂ hfresh h hmined
    obtain ⟨rfl, hnone⟩ := List.append_eq_nil_iff.mp hmined
    obtain ⟨hchain, hanswers, hcoming⟩ := hfresh rfl
    have hchain' : s₂.chain = s.chain := by
      rcases chain_step h with ⟨-, hsame⟩ | ⟨tx, hsome, -⟩
      · exact hsame.trans hchain
      · rw [hsome] at hnone
        cases hnone
    rcases page_step h p with ⟨hsame, -⟩ | hmoves | ⟨⟨i, rfl⟩, -, -⟩
    · refine ⟨hchain', ?_⟩
      rw [hsame]
      exact ⟨hanswers, hcoming⟩
    · refine ⟨hchain', fun nfts hmem => ?_, ?_⟩
      · rcases hmoves.answered hmem with hold | hnew
        · exact hanswers nfts hold
        · exact hnew.trans (by rw [hchain])
      · rcases hcoming with hshown | hreading | hanswered
        · rcases hmoves.shown with hsame | hnew
          · exact .inl (hsame.trans hshown)
          · exact .inl (hanswers _ hnew)
        · rw [← hchain]
          exact .inr (hmoves.keeps_reading hreading)
        · rcases hmoves.keeps_answered hanswered with hold | hnew
          · exact .inr (.inr hold)
          · exact .inl hnew
    · exact absurd hevent (hnofail i)
  obtain ⟨hchain, -, hcoming⟩ := hI hquiet
  refine ⟨by rw [hchain], _, getAvailableNfts_eq _, ?_⟩
  rw [hdone] at hcoming
  simpa using hcoming

/-- A page that is opened and mints an NFT: the receipt arrives before the node has answered
the first request, and the two answers arrive in the wrong order. -/
theorem availableNfts_catches_up_after_mint :
    let s : System Unit := run step .initial
      [.setAccount () (some 7), .clickMint () 2, .mine () 1 100]
    let events : List (Event Unit) :=
      [.arrive () 1 30, .answer () 0, .answer () 1, .arrive () 1 31, .arrive () 0 32]
    ∃ nfts, getAvailableNfts s.chain = .ok nfts ∧
      ((run step s events).pages ()).availableNfts = nfts.entries := by
  refine (availableNfts_catches_up _ _ () rfl ?_ ?_ ?_ rfl).2
  · simp
  · decide
  · intro nfts hmem
    change .answered nfts ∈ [Pending.reading, .mined (.mintNft 2)] at hmem
    simp at hmem

end FrontEnd

end NftGame

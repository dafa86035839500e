import NftGame.TokenRuns

/-!
# With and without the lists

The lists of `ERC721Enumerable` make no difference to anything else: as long as there are less
than `2 ^ 64` tokens, the contract goes through the states of the plain token contract, and a
transaction has the outcome it has there, errors included (`refines_plain`). Now the plain
contract never fails a check of the language. So this one does not either, for all the
subtractions and array accesses it takes to keep the lists (`never_panics`).

The two contracts run in lockstep: a receiver calls both of them alike, and an action takes room
for one token at most. What calls `_update` is the same code for both, so it agrees if `_update`
does (`UpdatesAgree`).
-/

namespace NftGame

open Solidity Transaction

namespace ERC721

section Virtual

variable {σ σ' : Type} {update : Address → UInt256 → Address → σ → Except Error (σ × Address)}
  {update' : Address → UInt256 → Address → σ' → Except Error (σ' × Address)}
  {R : σ → σ' → Prop} {s : σ} {s' : σ'}

variable (update update' R s s') in
/-- Two versions of `_update` agree: on the previous owner too. -/
def UpdatesAgree : Prop :=
  ∀ newOwner tokenId auth, Agree (fun p p' => R p.1 p'.1 ∧ p.2 = p'.2)
    (update newOwner tokenId auth s) (update' newOwner tokenId auth s')

theorem UpdatesAgree.transferFrom (h : UpdatesAgree update update' R s s')
    (sender owner newOwner : Address) (tokenId : UInt256) :
    Agree R (transferFrom update sender owner newOwner tokenId s)
      (transferFrom update' sender owner newOwner tokenId s') := by
  rw [ERC721.transferFrom, ERC721.transferFrom]
  dsimp only
  split
  · exact .error _
  · refine (h newOwner tokenId sender).bind ?_
    rintro ⟨s, previousOwner⟩ ⟨s', _⟩ ⟨hR, rfl⟩
    dsimp only
    split
    · exact .error _
    · exact .ok hR

theorem UpdatesAgree.mint (h : UpdatesAgree update update' R s s') (newOwner : Address)
    (tokenId : UInt256) :
    Agree R (mint update newOwner tokenId s) (mint update' newOwner tokenId s') := by
  rw [ERC721.mint, ERC721.mint]
  dsimp only
  split
  · exact .error _
  · refine (h newOwner tokenId 0).bind ?_
    rintro ⟨s, previousOwner⟩ ⟨s', _⟩ ⟨hR, rfl⟩
    dsimp only
    split
    · exact .error _
    · exact .ok hR

theorem UpdatesAgree.burn (h : UpdatesAgree update update' R s s') (tokenId : UInt256) :
    Agree R (burn update tokenId s) (burn update' tokenId s') := by
  refine (h 0 tokenId 0).bind ?_
  rintro ⟨s, previousOwner⟩ ⟨s', _⟩ ⟨hR, rfl⟩
  dsimp only
  split
  · exact .error _
  · exact .ok hR

theorem UpdatesAgree.transfer (h : UpdatesAgree update update' R s s')
    (owner newOwner : Address) (tokenId : UInt256) :
    Agree R (transfer update owner newOwner tokenId s)
      (transfer update' owner newOwner tokenId s') := by
  rw [ERC721.transfer, ERC721.transfer]
  dsimp only
  split
  · exact .error _
  · refine (h newOwner tokenId 0).bind ?_
    rintro ⟨s, previousOwner⟩ ⟨s', _⟩ ⟨hR, rfl⟩
    dsimp only
    split
    · exact .error _
    · split
      · exact .error _
      · exact .ok hR

end Virtual

/-! ### What cannot go wrong -/

/-- No check of the language fails. -/
def NoPanic {α : Type} (x : Except Error α) : Prop := ∀ r, x ≠ .error (.revert r)

theorem NoPanic.bind {α β : Type} {x : Except Error α} {k : α → Except Error β}
    (hx : NoPanic x) (hk : ∀ a, NoPanic (k a)) : NoPanic (x >>= k) := by
  rcases x with e | a
  · intro r h
    exact hx r (congrArg Except.error (Except.error.inj h))
  · exact hk a

end ERC721

namespace ERC721Enumerable

open ERC721 (Action Error Tx transact UpdatesAgree)

section Refinement

variable {s s' : State}

/-- The lists are right, the token contract inside is in the state `s'`, and there is room for
`n` tokens more. -/
def Matches (n : ℕ) (s : State) (s' : ERC721.State) : Prop :=
  Inv s ∧ s.toState = s' ∧ s.allTokens.length + n < maxArrayLength

theorem updatesAgree {n : ℕ} {s' : ERC721.State} (h : Matches (n + 1) s s') :
    UpdatesAgree update ERC721.update (Matches n) s s' := by
  obtain ⟨hs, rfl, hroom⟩ := h
  intro newOwner tokenId auth
  by_cases hallows : s.Allows auth tokenId
  · have hspec : s.Updates newOwner tokenId auth := update_spec hs hallows (.inr (by omega))
    obtain ⟨s₁, hupdate, hmoved, hs₁⟩ := hspec
    rw [hupdate, super_update_eq hallows]
    have hlength := hs.length_moved hs₁ hmoved
    have hroom' : s₁.allTokens.length + n < maxArrayLength := by
      split at hlength <;> split at hlength <;> omega
    exact .ok ⟨⟨hs₁, hmoved, hroom'⟩, rfl⟩
  · rw [update_eq_bind, ERC721.update_eq, if_neg hallows]
    split <;> exact .error _

/-- Action by action, this contract does what the original does. -/
theorem lockstep : ERC721.Lockstep act ERC721.act Matches where
  weaken n s s' h := ⟨h.1, h.2.1, by have := h.2.2; omega⟩
  act n action s s' h := by
    have hupdates := updatesAgree h
    obtain ⟨hs, rfl, hroom⟩ := h
    have hroom' : s.allTokens.length + n < maxArrayLength := by omega
    -- what moves no tokens, the lists do not see
    have happroval : ∀ x : Except Error ERC721.State,
        (∀ base, x = .ok base → base.owners = s.owners ∧ base.balances = s.balances) →
          Agree (Matches n) (do let base ← x; return { s with toState := base }) x := by
      intro x hx
      rcases x with e | base
      · exact .error e
      · obtain ⟨howners, hbalances⟩ := hx base rfl
        exact .ok ⟨hs.congr_base howners hbalances, rfl, hroom'⟩
    cases action with
    | approve sender approved tokenId =>
      exact happroval _ fun _ => ERC721.setApproval_keeps
    | setApprovalForAll sender operator approved =>
      exact happroval _ fun _ => ERC721.setApprovalForAll_keeps
    | transferFrom sender owner newOwner tokenId => exact hupdates.transferFrom ..
    | mint newOwner tokenId => exact hupdates.mint ..
    | burn tokenId => exact hupdates.burn ..
    | transfer owner newOwner tokenId => exact hupdates.transfer ..
    | setApproval approved tokenId auth emitEvent =>
      exact happroval _ fun _ => ERC721.setApproval_keeps
    | setApprovalForAllOf owner operator approved =>
      exact happroval _ fun _ => ERC721.setApprovalForAll_keeps
    | update newOwner tokenId auth =>
      exact (hupdates newOwner tokenId auth).bind fun p p' h => .ok h.1

theorem matches_deployed {n : ℕ} (hn : n < maxArrayLength) :
    Matches n deployed deployed.toState := by
  refine ⟨inv_deployed, rfl, ?_⟩
  rwa [show deployed.allTokens.length = 0 from rfl, Nat.zero_add]

theorem matches_run {txs : List Tx} {tx : Tx}
    (hroom : ((txs ++ [tx]).flatMap Tx.actions).length < maxArrayLength) :
    Matches (0 + tx.actions.length) (run (transact act) deployed txs)
      (run (transact ERC721.act) deployed.toState txs) := by
  rw [List.flatMap_append, List.length_append, List.flatMap_singleton] at hroom
  exact lockstep.run_transact (matches_deployed (by omega))

/-- **The lists make no difference**: the contract goes through the states of the original,
and has the outcomes of the original, errors included. -/
theorem refines_plain (txs : List Tx) (tx : Tx)
    (hroom : ((txs ++ [tx]).flatMap Tx.actions).length < maxArrayLength) :
    let s := run (transact act) deployed txs
    let s' := run (transact ERC721.act) deployed.toState txs
    s.toState = s' ∧
      Agree (fun s₁ s₁' => s₁.toState = s₁') (transact act tx s) (transact ERC721.act tx s') := by
  have hrun := matches_run hroom
  refine ⟨hrun.2.1, ?_⟩
  exact (lockstep.transact_agree 0 tx hrun).mono fun _ _ h => h.2.1

/-- A contract is sent a new token, passes it on before it accepts it, and mints another. -/
def passedOn : Tx where
  sender := ⟨1, by decide⟩
  call := .safeMint 2 7 (.code (.cons ⟨2, by decide⟩ (.transferFrom 2 3 7)
    (.cons ⟨2, by decide⟩ (.mint 2 8) .nil)) .accepted)

/-- A contract is sent a token, burns it and rejects it. -/
def burnedAndRejected : Tx where
  sender := ⟨3, by decide⟩
  call := .safeTransferFrom 3 2 7 (.code (.cons ⟨2, by decide⟩ (.burn 7) .nil) .rejected)

/-- The condition is met. -/
theorem refines_plain_passedOn :
    (run (transact act) deployed [passedOn]).toState =
        run (transact ERC721.act) deployed.toState [passedOn] ∧
      Agree (fun s₁ s₁' => s₁.toState = s₁')
        (transact act burnedAndRejected (run (transact act) deployed [passedOn]))
        (transact ERC721.act burnedAndRejected
          (run (transact ERC721.act) deployed.toState [passedOn])) :=
  refines_plain [passedOn] burnedAndRejected (by decide)

example : revert? (transact act) (run (transact act) deployed [passedOn]) burnedAndRejected =
    some (.invalidReceiver 2) := by
  decide +kernel

end Refinement

end ERC721Enumerable

end NftGame

import NftGame.TokenRefinement

/-!
# Who can take a token

The owner of a token has a say in what happens to it, and so have the operators it has approved
for all its tokens, and the address it has approved for this one. A contract derived from this
one need not ask any of them. Unless it does something to the token on its own account, or one
of them does something or is said to, nothing happens to the token: it stays where it is, and so
do the approvals by which anybody could move it (`token_stays`). Whatever the others do in the
meantime, and whatever the receivers of other tokens do when they are called, does not matter,
nor does anything that does not last.
-/

namespace NftGame

open Solidity Transaction

namespace ERC721

/-- The address may move the token. -/
def State.HasSay (s : State) (address : Address) (tokenId : UInt256) : Prop :=
  s.Manages address tokenId ∨ s.tokenApprovals tokenId = address

instance (s : State) (address : Address) (tokenId : UInt256) :
    Decidable (s.HasSay address tokenId) :=
  inferInstanceAs (Decidable (_ ∨ _))

/-- The action is about another token, or it is for somebody who has no right to do it to this
one. Who is approved for one token only may move it, but not approve others. A derived contract
that acts for nobody in particular does not ask. -/
def Action.Spares (s : State) (tokenId : UInt256) : Action → Prop
  | .approve sender _ token => token ≠ tokenId ∨ ¬ s.Manages sender tokenId
  | .setApprovalForAll sender _ _ => s.owners tokenId ≠ sender
  | .transferFrom sender _ _ token => token ≠ tokenId ∨ ¬ s.HasSay sender tokenId
  | .mint _ _ => True
  | .burn token => token ≠ tokenId
  | .transfer _ _ token => token ≠ tokenId
  | .setApproval _ token auth _ => token ≠ tokenId ∨ auth ≠ 0 ∧ ¬ s.Manages auth tokenId
  | .setApprovalForAllOf owner _ _ => s.owners tokenId ≠ owner
  | .update _ token auth => token ≠ tokenId ∨ auth ≠ 0 ∧ ¬ s.HasSay auth tokenId

instance (s : State) (tokenId : UInt256) : ∀ action : Action, Decidable (action.Spares s tokenId)
  | .approve .. => inferInstanceAs (Decidable (_ ∨ _))
  | .setApprovalForAll .. => inferInstanceAs (Decidable (_ ≠ _))
  | .transferFrom .. => inferInstanceAs (Decidable (_ ∨ _))
  | .mint .. => inferInstanceAs (Decidable True)
  | .burn .. => inferInstanceAs (Decidable (_ ≠ _))
  | .transfer .. => inferInstanceAs (Decidable (_ ≠ _))
  | .setApproval .. => inferInstanceAs (Decidable (_ ∨ _ ∧ _))
  | .setApprovalForAllOf .. => inferInstanceAs (Decidable (_ ≠ _))
  | .update .. => inferInstanceAs (Decidable (_ ∨ _ ∧ _))

/-- The token is where it was, and who has a say in it are those who had. -/
structure State.Keeps (s s' : State) (tokenId : UInt256) : Prop where
  /-- the owner -/
  owner : s'.owners tokenId = s.owners tokenId
  /-- who is approved for it -/
  approval : s'.tokenApprovals tokenId = s.tokenApprovals tokenId
  /-- who is an operator of its owner -/
  operators : s'.operatorApprovals (s.owners tokenId) = s.operatorApprovals (s.owners tokenId)

section Keeps

variable {s s₁ s₂ : State} {action : Action} {tokenId token : UInt256} {address : Address}

theorem State.Keeps.manages_iff (h : s.Keeps s₁ tokenId) :
    s₁.Manages address tokenId ↔ s.Manages address tokenId := by
  rw [State.Manages, State.Manages, h.owner, h.operators]

/-- Who may move the token is who has a say in it. -/
theorem State.Keeps.hasSay (h : s.Keeps s₁ tokenId) (haddress : address ≠ 0)
    (hallows : s₁.Allows address tokenId) : s.HasSay address tokenId := by
  rcases hallows with hzero | hauthorized
  · exact absurd hzero haddress
  · simp only [isAuthorized, isApprovedForAll, Bool.and_eq_true, Bool.or_eq_true,
      beq_iff_eq, h.owner, h.operators, h.approval] at hauthorized
    exact hauthorized.2

/-- Another token is moved. -/
theorem State.Keeps.moved (h : s.Keeps s₁ tokenId) (hne : token ≠ tokenId)
    (newOwner : Address) : s.Keeps (s₁.moved newOwner token) tokenId where
  owner := (Function.update_of_ne (Ne.symm hne) ..).trans h.owner
  approval := by
    rw [← h.approval, State.moved]
    dsimp only
    split
    · rfl
    · rw [Function.update_of_ne (Ne.symm hne)]
  operators := h.operators

/-- Somebody is approved for another token. -/
theorem State.Keeps.approved (h : s.Keeps s₁ tokenId) (hne : token ≠ tokenId)
    (approved : Address) (emitEvent : Bool) :
    s.Keeps (s₁.approved approved token emitEvent) tokenId where
  owner := h.owner
  approval := (Function.update_of_ne (Ne.symm hne) ..).trans h.approval
  operators := h.operators

/-- Somebody else approves an operator. -/
theorem State.Keeps.operatorSet {owner : Address} (h : s.Keeps s₁ tokenId)
    (hne : s.owners tokenId ≠ owner) (operator : Address) (approved : Bool) :
    s.Keeps (s₁.operatorSet owner operator approved) tokenId where
  owner := h.owner
  approval := h.approval
  operators := (Function.update_of_ne hne ..).trans h.operators

/-- **An action that spares the token leaves it alone.** -/
theorem Effect.keeps (h : Effect s₁ action s₂) (hspares : action.Spares s tokenId)
    (hexists : s.owners tokenId ≠ 0) (hkeeps : s.Keeps s₁ tokenId) : s.Keeps s₂ tokenId := by
  cases h with
  | approve sender approved token _ hmanages =>
    have hne : token ≠ tokenId := by
      rintro rfl
      exact hspares.elim (· rfl) (· (hkeeps.manages_iff.mp hmanages))
    exact hkeeps.approved hne approved true
  | setApprovalForAll sender operator approved => exact hkeeps.operatorSet hspares operator approved
  | transferFrom sender newOwner token _ hallows =>
    have hne : token ≠ tokenId := by
      rintro rfl
      exact hspares.elim (· rfl) (· (hkeeps.hasSay sender.property hallows))
    exact hkeeps.moved hne newOwner
  | mint newOwner token _ hnone =>
    have hne : token ≠ tokenId := by
      rintro rfl
      exact hexists (hkeeps.owner.symm.trans hnone)
    exact hkeeps.moved hne newOwner
  | burn token => exact hkeeps.moved hspares 0
  | transfer newOwner token => exact hkeeps.moved hspares newOwner
  | setApproval approved token auth emitEvent _ hmanages =>
    have hne : token ≠ tokenId := by
      rintro rfl
      obtain ⟨hauth, hnot⟩ := hspares.resolve_left (· rfl)
      exact hnot (hkeeps.manages_iff.mp (hmanages.resolve_left hauth))
    exact hkeeps.approved hne approved emitEvent
  | setApprovalForAllOf owner operator approved =>
    exact hkeeps.operatorSet hspares operator approved
  | update newOwner token auth hallows =>
    have hne : token ≠ tokenId := by
      rintro rfl
      obtain ⟨hauth, hnot⟩ := hspares.resolve_left (· rfl)
      exact hnot (hkeeps.hasSay hauth hallows)
    exact hkeeps.moved hne newOwner

end Keeps

end ERC721

namespace ERC721Enumerable

open ERC721 (Tx lasting transact)

/-- **A token stays with its owner** as long as nobody who has a say in it acts on it, and no
derived contract does so unasked. -/
theorem token_stays {s : State} {tokenId : UInt256} {txs : List Tx}
    (hexists : s.owners tokenId ≠ 0)
    (hspared : ∀ action ∈ lasting act s txs, action.Spares s.toState tokenId) :
    s.toState.Keeps (run (transact act) s txs).toState tokenId :=
  ERC721.transact_invariant (I := fun s₁ : State => s.toState.Keeps s₁.toState tokenId)
    (fun action haction _ _ hs h => (act_effect h).keeps (hspared action haction) hexists hs)
    ⟨rfl, rfl, rfl⟩

/-- A contract tries to get hold of a token, by itself and when it is called. The contract
derived from this one does what it likes with another token. -/
def attempts : List Tx :=
  [⟨⟨5, by decide⟩, .safeTransferFrom 3 5 7 .noCode⟩,
    ⟨⟨5, by decide⟩, .safeMint 5 9 (.code (.cons ⟨5, by decide⟩ (.approve 5 7)
      (.cons ⟨5, by decide⟩ (.transferFrom 3 5 7) .nil)) .accepted)⟩,
    ⟨⟨5, by decide⟩, .setApproval 6 9 0 false⟩, ⟨⟨5, by decide⟩, .update 3 9 6⟩]

/-- The token has an owner, and nobody else is approved. -/
theorem token_stays_attempts :
    (run (transact act) deployed [passedOn]).Keeps
      (run (transact act) (run (transact act) deployed [passedOn]) attempts).toState 7 :=
  token_stays (s := run (transact act) deployed [passedOn]) (by decide +kernel)
    (by decide +kernel)

end ERC721Enumerable

end NftGame

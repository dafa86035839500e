import Mathlib.Data.Set.Insert
import Mathlib.Order.BooleanAlgebra.Set
import NftGame.ERC721

/-!
# What an action does to the token contract

`_update` in closed form (`update_eq`), and then every action: which ones commit, and to what
state (`Effect`, `act_eq_ok_iff`). An action changes one token, or what one owner has said
about all of its tokens, and the checks that let it pass are part of its effect. Whatever
holds of all states a contract can reach is proved from that, case by case, and so is what
holds of contracts derived from it, as their actions have the same effects.
-/

namespace NftGame

open Solidity

namespace ERC721

/-! ## Moving a token -/

/-- The token has been moved to `newOwner`. -/
def State.moved (s : State) (newOwner : Address) (tokenId : UInt256) : State where
  owners := Function.update s.owners tokenId newOwner
  balances :=
    let owner := s.owners tokenId
    let balances :=
      if owner = 0 then s.balances else Function.update s.balances owner (s.balances owner - 1)
    if newOwner = 0 then balances
    else Function.update balances newOwner (balances newOwner + 1)
  tokenApprovals :=
    if s.owners tokenId = 0 then s.tokenApprovals
    else Function.update s.tokenApprovals tokenId 0
  operatorApprovals := s.operatorApprovals
  logs := s.logs ++ [.transfer (s.owners tokenId) newOwner tokenId]

/-- The tokens of an address; for the zero address, all that do not exist. -/
def State.tokensOf (s : State) (owner : Address) : Set UInt256 := {t | s.owners t = owner}

section Moved

variable {s : State} {newOwner owner : Address} {tokenId : UInt256}

theorem tokensOf_moved_self :
    (s.moved newOwner tokenId).tokensOf newOwner = insert tokenId (s.tokensOf newOwner) := by
  ext t
  by_cases ht : t = tokenId
  · simp [State.tokensOf, State.moved, ht]
  · simp [State.tokensOf, State.moved, ht]

theorem tokensOf_moved_of_ne (h : owner ≠ newOwner) :
    (s.moved newOwner tokenId).tokensOf owner = s.tokensOf owner \ {tokenId} := by
  ext t
  by_cases ht : t = tokenId
  · simp [State.tokensOf, State.moved, ht, h.symm]
  · simp [State.tokensOf, State.moved, ht]

/-- The tokens that exist after a token is burned. -/
theorem compl_tokensOf_burned :
    ((s.moved 0 tokenId).tokensOf 0)ᶜ = (s.tokensOf 0)ᶜ \ {tokenId} := by
  rw [tokensOf_moved_self]
  ext t
  simp [and_comm]

/-- The tokens that exist after a token is moved or minted. -/
theorem compl_tokensOf_moved (h : newOwner ≠ 0) :
    ((s.moved newOwner tokenId).tokensOf 0)ᶜ = insert tokenId (s.tokensOf 0)ᶜ := by
  rw [tokensOf_moved_of_ne (Ne.symm h), Set.compl_sdiff]
  rfl

theorem balances_moved_of_ne (h : owner ≠ newOwner) (howner : owner ≠ s.owners tokenId) :
    (s.moved newOwner tokenId).balances owner = s.balances owner := by
  rw [State.moved]
  dsimp only
  split <;> split <;> simp [h, howner]

/-- The new owner has one token more, unless it is the old one. -/
theorem balances_moved_new (h : newOwner ≠ 0) (hne : newOwner ≠ s.owners tokenId) :
    (s.moved newOwner tokenId).balances newOwner = s.balances newOwner + 1 := by
  rw [State.moved]
  dsimp only
  rw [if_neg h, Function.update_self]
  split
  · rfl
  · rw [Function.update_of_ne hne]

/-- The old owner has one token less, unless it is the new one. -/
theorem balances_moved_old (h : s.owners tokenId ≠ 0) (hne : s.owners tokenId ≠ newOwner) :
    (s.moved newOwner tokenId).balances (s.owners tokenId) =
      s.balances (s.owners tokenId) - 1 := by
  rw [State.moved]
  dsimp only
  rw [if_neg h]
  split
  · rw [Function.update_self]
  · rw [Function.update_of_ne hne, Function.update_self]

/-- Moving a token to its owner changes no balance. -/
theorem balances_moved_self (h : s.owners tokenId ≠ 0) :
    (s.moved (s.owners tokenId) tokenId).balances = s.balances := by
  rw [State.moved]
  dsimp only
  rw [if_neg h, if_neg h, Function.update_self, BitVec.sub_add_cancel, Function.update_idem,
    Function.update_eq_self]

end Moved

/-- `auth` may move the token, or need not be asked. -/
def State.Allows (s : State) (auth : Address) (tokenId : UInt256) : Prop :=
  auth = 0 ∨ isAuthorized (s.owners tokenId) auth tokenId s = true

instance (s : State) (auth : Address) (tokenId : UInt256) : Decidable (s.Allows auth tokenId) :=
  inferInstanceAs (Decidable (_ ∨ _))

theorem checkAuthorized_eq (owner spender : Address) (tokenId : UInt256) (s : State) :
    checkAuthorized owner spender tokenId s =
      if isAuthorized owner spender tokenId s then .ok ()
      else if owner = 0 then .error (.nonexistentToken tokenId)
      else .error (.insufficientApproval spender tokenId) := by
  rw [checkAuthorized]
  rcases isAuthorized owner spender tokenId s with - | -
  · by_cases howner : owner = 0
    · simp only [howner]
      rfl
    · simp only [howner, beq_iff_eq, if_false]
      rfl
  · rfl

theorem balanceOf_eq {owner : Address} (h : owner ≠ 0) (s : State) :
    balanceOf owner s = .ok (s.balances owner) := by
  rw [balanceOf, beq_eq_false_iff_ne.mpr h]
  rfl

theorem requireOwned_of_ne {tokenId : UInt256} {s : State} (h : s.owners tokenId ≠ 0) :
    requireOwned tokenId s = .ok (s.owners tokenId) := by
  rw [requireOwned, beq_eq_false_iff_ne.mpr h]
  rfl

theorem ownerOf_eq_ok_iff {tokenId : UInt256} {owner : Address} {s : State} :
    ownerOf tokenId s = .ok owner ↔ owner ≠ 0 ∧ s.owners tokenId = owner := by
  rw [ownerOf]
  by_cases hnone : s.owners tokenId = 0
  · have herror : requireOwned tokenId s = .error (.nonexistentToken tokenId) := by
      simp only [requireOwned, hnone]
      rfl
    rw [herror, hnone]
    exact iff_of_false nofun fun h => h.1 h.2.symm
  · rw [requireOwned_of_ne hnone, Except.ok.injEq]
    constructor
    · rintro rfl
      exact ⟨hnone, rfl⟩
    · exact fun h => h.2

/-- `_update` without the check. -/
theorem update_unchecked (newOwner : Address) (tokenId : UInt256) (s : State) :
    update newOwner tokenId 0 s = .ok (s.moved newOwner tokenId, s.owners tokenId) := by
  by_cases howner : s.owners tokenId = 0
  · by_cases hnew : newOwner = 0
    · simp only [update, State.moved, howner, hnew]
      rfl
    · simp only [update, State.moved, howner, hnew, bne_iff_ne, ne_eq, not_false_iff, if_true]
      rfl
  · by_cases hnew : newOwner = 0
    · simp only [update, State.moved, howner, hnew, bne_iff_ne, ne_eq, not_false_iff, if_true]
      rfl
    · simp only [update, State.moved, howner, hnew, bne_iff_ne, ne_eq, not_false_iff, if_true]
      rfl

/-- `_update` in closed form. -/
theorem update_eq (newOwner : Address) (tokenId : UInt256) (auth : Address) (s : State) :
    update newOwner tokenId auth s =
      if s.Allows auth tokenId then .ok (s.moved newOwner tokenId, s.owners tokenId)
      else if s.owners tokenId = 0 then .error (.nonexistentToken tokenId)
      else .error (.insufficientApproval auth tokenId) := by
  by_cases hauth : auth = 0
  · rw [hauth, update_unchecked, if_pos (.inl rfl)]
  · -- the check, and then the same as without it
    have hcheck : update newOwner tokenId auth s =
        (checkAuthorized (s.owners tokenId) auth tokenId s >>= fun _ =>
          update newOwner tokenId 0 s) := by
      simp only [update, bne_iff_ne.mpr hauth, if_true]
      rfl
    rw [hcheck, update_unchecked, checkAuthorized_eq]
    rcases hauthorized : isAuthorized (s.owners tokenId) auth tokenId s with - | -
    · have hdenied : ¬ s.Allows auth tokenId := by
        rintro (hzero | hallowed)
        · exact hauth hzero
        · rw [hauthorized] at hallowed
          cases hallowed
      rw [if_neg hdenied]
      by_cases howner : s.owners tokenId = 0 <;> simp only [howner] <;> rfl
    · rw [if_pos (c := s.Allows auth tokenId) (.inr hauthorized)]
      rfl

/-! ## Approvals -/

/-- An address has been approved for the token, with an event that tells of it or without. -/
def State.approved (s : State) (approved : Address) (tokenId : UInt256) (emitEvent : Bool) :
    State :=
  { s with
    tokenApprovals := Function.update s.tokenApprovals tokenId approved
    logs :=
      if emitEvent then s.logs ++ [.approval (s.owners tokenId) approved tokenId] else s.logs }

/-- An operator has been approved by the owner, or not any more. -/
def State.operatorSet (s : State) (owner operator : Address) (approved : Bool) : State :=
  { s with
    operatorApprovals := Function.update s.operatorApprovals owner
      (Function.update (s.operatorApprovals owner) operator approved)
    logs := s.logs ++ [.approvalForAll owner operator approved] }

/-- The owner of the token, or one of its operators. -/
def State.Manages (s : State) (auth : Address) (tokenId : UInt256) : Prop :=
  s.owners tokenId = auth ∨ s.operatorApprovals (s.owners tokenId) auth = true

instance (s : State) (auth : Address) (tokenId : UInt256) : Decidable (s.Manages auth tokenId) :=
  inferInstanceAs (Decidable (_ ∨ _))

/-- The owner is looked up if it is needed, for the event or for the check. -/
theorem setApproval_checked {auth : Address} {emitEvent : Bool}
    (hchecked : emitEvent = true ∨ auth ≠ 0) (approved : Address) (tokenId : UInt256) (s : State) :
    setApproval approved tokenId auth emitEvent s =
      if s.owners tokenId = 0 then .error (.nonexistentToken tokenId)
      else if auth = 0 ∨ s.Manages auth tokenId then .ok (s.approved approved tokenId emitEvent)
      else .error (.invalidApprover auth) := by
  have hlooked : (emitEvent || auth != 0) = true := by simpa using hchecked
  by_cases howner : s.owners tokenId = 0
  · rw [if_pos howner]
    simp only [setApproval, hlooked, if_true, requireOwned, howner]
    rfl
  · have hfound := requireOwned_of_ne howner
    have hdenied : (auth != 0 && s.owners tokenId != auth &&
        !isApprovedForAll (s.owners tokenId) auth s) =
          !decide (auth = 0 ∨ s.Manages auth tokenId) := by
      rw [Bool.eq_iff_iff, Bool.not_eq_true', decide_eq_false_iff_not]
      simp [State.Manages, isApprovedForAll, and_assoc]
    rw [if_neg howner, setApproval]
    simp only [hlooked, hfound, if_true, ok_bind, hdenied]
    by_cases hmanages : auth = 0 ∨ s.Manages auth tokenId
    · simp only [hmanages, if_true]
      cases emitEvent <;> rfl
    · simp only [hmanages, if_false]
      rfl

/-- Without an event and without a check, it is not. -/
theorem setApproval_unchecked {auth : Address} {emitEvent : Bool}
    (hunchecked : ¬ (emitEvent = true ∨ auth ≠ 0)) (approved : Address) (tokenId : UInt256)
    (s : State) :
    setApproval approved tokenId auth emitEvent s = .ok (s.approved approved tokenId false) := by
  obtain ⟨hsilent, hzero⟩ := not_or.mp hunchecked
  obtain rfl := eq_false_of_ne_true hsilent
  obtain rfl := not_not.mp hzero
  rfl

theorem setApprovalForAll_eq (sender operator : Address) (approved : Bool) (s : State) :
    setApprovalForAll sender operator approved s =
      if operator = 0 then .error (.invalidOperator operator)
      else .ok (s.operatorSet sender operator approved) := by
  by_cases hoperator : operator = 0
  · rw [if_pos hoperator, setApprovalForAll, hoperator]
    rfl
  · rw [if_neg hoperator, setApprovalForAll, beq_eq_false_iff_ne.mpr hoperator]
    rfl

theorem setApproval_eq_ok_iff {approved auth : Address} {tokenId : UInt256} {emitEvent : Bool}
    {s s' : State} : setApproval approved tokenId auth emitEvent s = .ok s' ↔
      (emitEvent = true ∨ auth ≠ 0 → s.owners tokenId ≠ 0) ∧
        (auth = 0 ∨ s.Manages auth tokenId) ∧ s.approved approved tokenId emitEvent = s' := by
  by_cases hchecked : emitEvent = true ∨ auth ≠ 0
  · rw [setApproval_checked hchecked]
    by_cases hnone : s.owners tokenId = 0
    · rw [if_pos hnone]
      exact iff_of_false nofun fun h => h.1 hchecked hnone
    · by_cases hmanages : auth = 0 ∨ s.Manages auth tokenId
      · rw [if_neg hnone, if_pos hmanages, Except.ok.injEq]
        simp only [ne_eq, hnone, not_false_iff, implies_true, hmanages, true_and]
      · rw [if_neg hnone, if_neg hmanages]
        exact iff_of_false nofun fun h => hmanages h.2.1
  · obtain ⟨hsilent, hzero⟩ := not_or.mp hchecked
    rw [setApproval_unchecked hchecked, Except.ok.injEq, eq_false_of_ne_true hsilent,
      not_not.mp hzero]
    simp only [Bool.false_eq_true, ne_eq, not_true, or_self, false_imp_iff, true_or, true_and]

theorem approve_eq_ok_iff {sender : Sender} {approved : Address} {tokenId : UInt256}
    {s s' : State} : approve sender approved tokenId s = .ok s' ↔
      s.owners tokenId ≠ 0 ∧ s.Manages sender tokenId ∧
        s.approved approved tokenId true = s' := by
  rw [approve, setApproval_eq_ok_iff]
  simp only [sender.property, true_or, forall_const, false_or]

theorem setApprovalForAll_eq_ok_iff {sender operator : Address} {approved : Bool}
    {s s' : State} : setApprovalForAll sender operator approved s = .ok s' ↔
      operator ≠ 0 ∧ s.operatorSet sender operator approved = s' := by
  rw [setApprovalForAll_eq]
  by_cases hzero : operator = 0
  · rw [if_pos hzero]
    exact iff_of_false nofun fun h => h.1 hzero
  · rw [if_neg hzero, Except.ok.injEq]
    simp only [ne_eq, hzero, not_false_iff, true_and]

/-- Approvals move no tokens. -/
theorem setApproval_keeps {approved auth : Address} {tokenId : UInt256} {emitEvent : Bool}
    {s s' : State} (h : setApproval approved tokenId auth emitEvent s = .ok s') :
    s'.owners = s.owners ∧ s'.balances = s.balances := by
  obtain ⟨-, -, rfl⟩ := setApproval_eq_ok_iff.mp h
  exact ⟨rfl, rfl⟩

theorem setApprovalForAll_keeps {sender operator : Address} {approved : Bool} {s s' : State}
    (h : setApprovalForAll sender operator approved s = .ok s') :
    s'.owners = s.owners ∧ s'.balances = s.balances := by
  obtain ⟨-, rfl⟩ := setApprovalForAll_eq_ok_iff.mp h
  exact ⟨rfl, rfl⟩

/-! ## What moves tokens -/

section Virtual

variable {σ : Type} {update : Address → UInt256 → Address → σ → Except Error (σ × Address)}
  {s s' : σ} {sender owner newOwner : Address} {tokenId : UInt256}

/-- A move that is followed by a check of the previous owner. -/
theorem bind_check_eq_ok_iff {x : Except Error (σ × Address)}
    {check : σ × Address → Except Error σ} {P : Address → Prop}
    (hgood : ∀ s owner, P owner → check (s, owner) = .ok s)
    (hbad : ∀ s owner, ¬ P owner → ∃ e, check (s, owner) = .error e) :
    (x >>= check) = .ok s' ↔ ∃ owner, P owner ∧ x = .ok (s', owner) := by
  constructor
  · intro h
    obtain ⟨⟨s₁, owner⟩, hx, hcheck⟩ := bind_eq_ok h
    by_cases howner : P owner
    · rw [hgood s₁ owner howner] at hcheck
      cases hcheck
      exact ⟨owner, howner, hx⟩
    · obtain ⟨e, he⟩ := hbad s₁ owner howner
      rw [he] at hcheck
      cases hcheck
  · rintro ⟨owner, howner, hx⟩
    rw [hx, ok_bind, hgood s' owner howner]

/-- A move whose previous owner does not matter. -/
theorem discard_eq_ok_iff {x : Except Error (σ × Address)} :
    (do let (s, _) ← x; return s) = .ok s' ↔ ∃ owner, x = .ok (s', owner) := by
  rcases x with e | ⟨s₁, owner⟩
  · exact iff_of_false nofun nofun
  · simp [ok_bind, pure, Except.pure]

theorem transferFrom_eq_ok_iff : transferFrom update sender owner newOwner tokenId s = .ok s' ↔
    newOwner ≠ 0 ∧ update newOwner tokenId sender s = .ok (s', owner) := by
  rw [transferFrom]
  by_cases hnew : newOwner = 0
  · simp only [hnew]
    exact iff_of_false nofun fun h => h.1 rfl
  · rw [beq_eq_false_iff_ne.mpr hnew]
    refine (bind_check_eq_ok_iff (P := (· = owner)) ?_ ?_).trans ?_
    · rintro s _ rfl
      simp only [bne_self_eq_false]
      rfl
    · intro s previousOwner hne
      simp only [bne_iff_ne.mpr hne]
      exact ⟨_, rfl⟩
    · simp only [exists_eq_left, ne_eq, hnew, not_false_iff, true_and]

theorem mint_eq_ok_iff : mint update newOwner tokenId s = .ok s' ↔
    newOwner ≠ 0 ∧ update newOwner tokenId 0 s = .ok (s', 0) := by
  rw [mint]
  by_cases hnew : newOwner = 0
  · simp only [hnew]
    exact iff_of_false nofun fun h => h.1 rfl
  · rw [beq_eq_false_iff_ne.mpr hnew]
    refine (bind_check_eq_ok_iff (P := (· = 0)) ?_ ?_).trans ?_
    · rintro s _ rfl
      rfl
    · intro s previousOwner hne
      simp only [bne_iff_ne.mpr hne]
      exact ⟨_, rfl⟩
    · simp only [exists_eq_left, ne_eq, hnew, not_false_iff, true_and]

theorem burn_eq_ok_iff : burn update tokenId s = .ok s' ↔
    ∃ owner, owner ≠ 0 ∧ update 0 tokenId 0 s = .ok (s', owner) := by
  rw [burn]
  refine bind_check_eq_ok_iff ?_ ?_
  · intro s owner hne
    simp only [beq_eq_false_iff_ne.mpr hne]
    rfl
  · intro s owner hzero
    rw [not_not.mp hzero]
    exact ⟨_, rfl⟩

theorem transfer_eq_ok_iff : transfer update owner newOwner tokenId s = .ok s' ↔
    newOwner ≠ 0 ∧ owner ≠ 0 ∧ update newOwner tokenId 0 s = .ok (s', owner) := by
  rw [transfer]
  by_cases hnew : newOwner = 0
  · simp only [hnew]
    exact iff_of_false nofun fun h => h.1 rfl
  · rw [beq_eq_false_iff_ne.mpr hnew]
    refine (bind_check_eq_ok_iff (P := fun p => p = owner ∧ p ≠ 0) ?_ ?_).trans ?_
    · rintro s _ ⟨rfl, hne⟩
      simp only [beq_eq_false_iff_ne.mpr hne, bne_self_eq_false]
      rfl
    · intro s previousOwner hbad
      by_cases hzero : previousOwner = 0
      · rw [hzero]
        exact ⟨_, rfl⟩
      · simp only [beq_eq_false_iff_ne.mpr hzero, bne_iff_ne.mpr fun h => hbad ⟨h, hzero⟩]
        exact ⟨_, rfl⟩
    · simp only [and_assoc, exists_eq_left, ne_eq, hnew, not_false_iff, true_and]

end Virtual

/-! ## Actions -/

/-- How an action that commits changes the state, and why it may. -/
inductive Effect (s : State) : Action → State → Prop where
  /-- the owner, or an operator, approves an address -/
  | approve (sender : Sender) (approved : Address) (tokenId : UInt256)
      (hexists : s.owners tokenId ≠ 0) (hmanages : s.Manages sender tokenId) :
      Effect s (.approve sender approved tokenId) (s.approved approved tokenId true)
  /-- the sender approves an operator, or not any more -/
  | setApprovalForAll (sender : Sender) (operator : Address) (approved : Bool)
      (hoperator : operator ≠ 0) :
      Effect s (.setApprovalForAll sender operator approved)
        (s.operatorSet sender operator approved)
  /-- somebody moves a token who may -/
  | transferFrom (sender : Sender) (newOwner : Address) (tokenId : UInt256)
      (hnew : newOwner ≠ 0) (hallows : s.Allows sender tokenId) {owner : Address}
      (howner : s.owners tokenId = owner) :
      Effect s (.transferFrom sender owner newOwner tokenId) (s.moved newOwner tokenId)
  /-- a token is made that did not exist -/
  | mint (newOwner : Address) (tokenId : UInt256) (hnew : newOwner ≠ 0)
      (hnone : s.owners tokenId = 0) :
      Effect s (.mint newOwner tokenId) (s.moved newOwner tokenId)
  /-- a token is destroyed that did exist -/
  | burn (tokenId : UInt256) (hexists : s.owners tokenId ≠ 0) :
      Effect s (.burn tokenId) (s.moved 0 tokenId)
  /-- a derived contract moves a token of `owner` -/
  | transfer (newOwner : Address) (tokenId : UInt256) (hnew : newOwner ≠ 0)
      (hexists : s.owners tokenId ≠ 0) {owner : Address} (howner : s.owners tokenId = owner) :
      Effect s (.transfer owner newOwner tokenId) (s.moved newOwner tokenId)
  /-- a derived contract approves an address, for somebody who may or for nobody in particular -/
  | setApproval (approved : Address) (tokenId : UInt256) (auth : Address) (emitEvent : Bool)
      (hexists : emitEvent = true ∨ auth ≠ 0 → s.owners tokenId ≠ 0)
      (hmanages : auth = 0 ∨ s.Manages auth tokenId) :
      Effect s (.setApproval approved tokenId auth emitEvent)
        (s.approved approved tokenId emitEvent)
  /-- a derived contract approves an operator of anybody, or not any more -/
  | setApprovalForAllOf (owner operator : Address) (approved : Bool) (hoperator : operator ≠ 0) :
      Effect s (.setApprovalForAllOf owner operator approved)
        (s.operatorSet owner operator approved)
  /-- a derived contract moves, makes or destroys a token; or destroys one that does not exist -/
  | update (newOwner : Address) (tokenId : UInt256) (auth : Address)
      (hallows : s.Allows auth tokenId) :
      Effect s (.update newOwner tokenId auth) (s.moved newOwner tokenId)

theorem update_eq_ok_iff {newOwner auth owner : Address} {tokenId : UInt256} {s s' : State} :
    update newOwner tokenId auth s = .ok (s', owner) ↔
      s.Allows auth tokenId ∧ s.owners tokenId = owner ∧ s.moved newOwner tokenId = s' := by
  rw [update_eq]
  by_cases hallows : s.Allows auth tokenId
  · simp [hallows, and_comm]
  · rw [if_neg hallows]
    refine iff_of_false ?_ fun h => hallows h.1
    split <;> nofun

/-- **The actions that commit**, and what they do. -/
theorem act_eq_ok_iff {action : Action} {s s' : State} :
    act action s = .ok s' ↔ Effect s action s' := by
  constructor
  · intro h
    cases action with
    | approve sender approved tokenId =>
      obtain ⟨hexists, hmanages, rfl⟩ := approve_eq_ok_iff.mp h
      exact .approve sender approved tokenId hexists hmanages
    | setApprovalForAll sender operator approved =>
      obtain ⟨hoperator, rfl⟩ := setApprovalForAll_eq_ok_iff.mp h
      exact .setApprovalForAll sender operator approved hoperator
    | transferFrom sender owner newOwner tokenId =>
      obtain ⟨hnew, hupdate⟩ := transferFrom_eq_ok_iff.mp h
      obtain ⟨hallows, howner, rfl⟩ := update_eq_ok_iff.mp hupdate
      exact .transferFrom sender newOwner tokenId hnew hallows howner
    | mint newOwner tokenId =>
      obtain ⟨hnew, hupdate⟩ := mint_eq_ok_iff.mp h
      obtain ⟨-, hnone, rfl⟩ := update_eq_ok_iff.mp hupdate
      exact .mint newOwner tokenId hnew hnone
    | burn tokenId =>
      obtain ⟨_, hne, hupdate⟩ := burn_eq_ok_iff.mp h
      obtain ⟨-, rfl, rfl⟩ := update_eq_ok_iff.mp hupdate
      exact .burn tokenId hne
    | transfer owner newOwner tokenId =>
      obtain ⟨hnew, hne, hupdate⟩ := transfer_eq_ok_iff.mp h
      obtain ⟨-, rfl, rfl⟩ := update_eq_ok_iff.mp hupdate
      exact .transfer newOwner tokenId hnew hne rfl
    | setApproval approved tokenId auth emitEvent =>
      obtain ⟨hexists, hmanages, rfl⟩ := setApproval_eq_ok_iff.mp h
      exact .setApproval approved tokenId auth emitEvent hexists hmanages
    | setApprovalForAllOf owner operator approved =>
      obtain ⟨hoperator, rfl⟩ := setApprovalForAll_eq_ok_iff.mp h
      exact .setApprovalForAllOf owner operator approved hoperator
    | update newOwner tokenId auth =>
      obtain ⟨_, hupdate⟩ := discard_eq_ok_iff.mp h
      obtain ⟨hallows, -, rfl⟩ := update_eq_ok_iff.mp hupdate
      exact .update newOwner tokenId auth hallows
  · intro h
    cases h with
    | approve sender approved tokenId hexists hmanages =>
      exact approve_eq_ok_iff.mpr ⟨hexists, hmanages, rfl⟩
    | setApprovalForAll sender operator approved hoperator =>
      exact setApprovalForAll_eq_ok_iff.mpr ⟨hoperator, rfl⟩
    | transferFrom sender newOwner tokenId hnew hallows howner =>
      exact transferFrom_eq_ok_iff.mpr ⟨hnew, update_eq_ok_iff.mpr ⟨hallows, howner, rfl⟩⟩
    | mint newOwner tokenId hnew hnone =>
      exact mint_eq_ok_iff.mpr ⟨hnew, update_eq_ok_iff.mpr ⟨.inl rfl, hnone, rfl⟩⟩
    | burn tokenId hexists =>
      exact burn_eq_ok_iff.mpr ⟨_, hexists, update_eq_ok_iff.mpr ⟨.inl rfl, rfl, rfl⟩⟩
    | transfer newOwner tokenId hnew hexists howner =>
      exact transfer_eq_ok_iff.mpr ⟨hnew, howner ▸ hexists,
        update_eq_ok_iff.mpr ⟨.inl rfl, howner, rfl⟩⟩
    | setApproval approved tokenId auth emitEvent hexists hmanages =>
      exact setApproval_eq_ok_iff.mpr ⟨hexists, hmanages, rfl⟩
    | setApprovalForAllOf owner operator approved hoperator =>
      exact setApprovalForAll_eq_ok_iff.mpr ⟨hoperator, rfl⟩
    | update newOwner tokenId auth hallows =>
      exact discard_eq_ok_iff.mpr ⟨_, update_eq_ok_iff.mpr ⟨hallows, rfl, rfl⟩⟩

end ERC721

end NftGame

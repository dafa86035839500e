import NftGame.ERC721
import NftGame.Transaction

/-!
# Calls within calls

A safe transfer calls the receiver of the token if there is code at its address, and fails
unless that accepts (`ERC721Utils.sol`). The code is arbitrary, and it may call the contract
again, any number of times and any number of levels deep: a call comes with what its receiver
will do (`Receiver`).

The contract has then done all it has to do, so nothing the receiver does happens in the
middle of something: what has happened in the end is a list of actions, one after the other,
each of them complete. Which ones these are can be said without running calls in calls
(`Call.lasting`): the action of a call, if it commits and the receiver accepts the token, and
then, one by one, those of the calls that the receiver makes. What a receiver does and then
rejects is not among them, and a run in which the rejected calls are not made at all is no
different (`run_prune`). What every action preserves, every transaction does, however deeply
calls are nested in it (`transact_invariant`).

All this is the same whatever `_update` is, and so it is stated for any `act`. Two contracts
that agree on every action agree on every transaction (`Lockstep`).
-/

namespace NftGame

open Solidity Transaction

namespace ERC721

/-! ## Calls -/

/-- How a receiver answers `onERC721Received`. -/
inductive Answer : Type where
  /-- it returns the selector of the function -/
  | accepted : Answer
  /-- it returns something else -/
  | rejected : Answer
  /-- it reverts, with these bytes -/
  | reverted : List (BitVec 8) → Answer
  deriving DecidableEq, Repr

mutual

/-- A call of the contract, with what the receiver of a token will do. A function of a derived
contract that calls several internal ones is, if it commits, as many calls. -/
inductive Call : Type where
  /-- `approve(approved, tokenId)` -/
  | approve : Address → UInt256 → Call
  /-- `setApprovalForAll(operator, approved)` -/
  | setApprovalForAll : Address → Bool → Call
  /-- `transferFrom(from, to, tokenId)` -/
  | transferFrom : Address → Address → UInt256 → Call
  /-- `safeTransferFrom(from, to, tokenId)` -/
  | safeTransferFrom : Address → Address → UInt256 → Receiver → Call
  /-- a derived contract's `_mint(to, tokenId)` -/
  | mint : Address → UInt256 → Call
  /-- a derived contract's `_safeMint(to, tokenId)` -/
  | safeMint : Address → UInt256 → Receiver → Call
  /-- a derived contract's `_burn(tokenId)` -/
  | burn : UInt256 → Call
  /-- a derived contract's `_transfer(from, to, tokenId)` -/
  | transfer : Address → Address → UInt256 → Call
  /-- a derived contract's `_safeTransfer(from, to, tokenId)` -/
  | safeTransfer : Address → Address → UInt256 → Receiver → Call
  /-- a derived contract's `_approve(approved, tokenId, auth, emitEvent)` -/
  | setApproval : Address → UInt256 → Address → Bool → Call
  /-- a derived contract's `_setApprovalForAll(owner, operator, approved)` -/
  | setApprovalForAllOf : Address → Address → Bool → Call
  /-- a derived contract's `_update(to, tokenId, auth)` -/
  | update : Address → UInt256 → Address → Call

/-- What stands at the address of a receiver. -/
inductive Receiver : Type where
  /-- no code -/
  | noCode : Receiver
  /-- code, that makes these calls, directly or through others, and then answers -/
  | code : Calls → Answer → Receiver

/-- Calls, one after the other. -/
inductive Calls : Type where
  | nil : Calls
  | cons : Sender → Call → Calls → Calls

end

/-- A call with its sender. -/
structure Tx : Type where
  /-- `msg.sender` -/
  sender : Sender
  /-- the function called, with its arguments -/
  call : Call

section Run

variable {σ : Type} (act : Action → σ → Except Error σ)

mutual

/-- Run a call. -/
def run (sender : Sender) : Call → σ → Except Error σ
  | .approve approved tokenId, s => act (.approve sender approved tokenId) s
  | .setApprovalForAll operator approved, s =>
    act (.setApprovalForAll sender operator approved) s
  | .transferFrom owner newOwner tokenId, s => act (.transferFrom sender owner newOwner tokenId) s
  | .safeTransferFrom owner newOwner tokenId receiver, s => do
    let s ← act (.transferFrom sender owner newOwner tokenId) s
    checkOnERC721Received newOwner receiver s
  | .mint newOwner tokenId, s => act (.mint newOwner tokenId) s
  | .safeMint newOwner tokenId receiver, s => do
    let s ← act (.mint newOwner tokenId) s
    checkOnERC721Received newOwner receiver s
  | .burn tokenId, s => act (.burn tokenId) s
  | .transfer owner newOwner tokenId, s => act (.transfer owner newOwner tokenId) s
  | .safeTransfer owner newOwner tokenId receiver, s => do
    let s ← act (.transfer owner newOwner tokenId) s
    checkOnERC721Received newOwner receiver s
  | .setApproval approved tokenId auth emitEvent, s =>
    act (.setApproval approved tokenId auth emitEvent) s
  | .setApprovalForAllOf owner operator approved, s =>
    act (.setApprovalForAllOf owner operator approved) s
  | .update newOwner tokenId auth, s => act (.update newOwner tokenId auth) s

/-- The receiver accepts the token, or the call that has sent it reverts. -/
def checkOnERC721Received (newOwner : Address) : Receiver → σ → Except Error σ
  | .noCode, s => return s
  | .code calls answer, s =>
    match answer with
    | .accepted => return runCalls calls s
    | .rejected => throw (.invalidReceiver newOwner)
    | .reverted reason =>
      if reason.length == 0 then throw (.invalidReceiver newOwner) else throw (.reason reason)

/-- Run calls, one after the other; one that reverts changes nothing. -/
def runCalls : Calls → σ → σ
  | .nil, s => s
  | .cons sender call rest, s =>
    match run sender call s with
    | .ok s' => runCalls rest s'
    | .error _ => runCalls rest s

end

/-- Run a transaction on the contract. -/
def transact (tx : Tx) (s : σ) : Except Error σ := run act tx.sender tx.call s

theorem runCalls_cons (sender : Sender) (call : Call) (rest : Calls) (s : σ) :
    runCalls act (.cons sender call rest) s =
      runCalls act rest (exec (transact act) s ⟨sender, call⟩) := by
  rw [runCalls]
  rcases step_cases (transact act) s ⟨sender, call⟩ with hok | ⟨e, herr, hexec⟩
  · rw [show run act sender call s = _ from hok]
  · rw [show run act sender call s = _ from herr, hexec]

end Run

/-! ## Actions in calls -/

mutual

/-- All actions in a call, in the order they are taken. -/
def Call.actions (sender : Sender) : Call → List Action
  | .approve approved tokenId => [.approve sender approved tokenId]
  | .setApprovalForAll operator approved => [.setApprovalForAll sender operator approved]
  | .transferFrom owner newOwner tokenId => [.transferFrom sender owner newOwner tokenId]
  | .safeTransferFrom owner newOwner tokenId receiver =>
    [.transferFrom sender owner newOwner tokenId] ++ receiver.actions
  | .mint newOwner tokenId => [.mint newOwner tokenId]
  | .safeMint newOwner tokenId receiver => [.mint newOwner tokenId] ++ receiver.actions
  | .burn tokenId => [.burn tokenId]
  | .transfer owner newOwner tokenId => [.transfer owner newOwner tokenId]
  | .safeTransfer owner newOwner tokenId receiver =>
    [.transfer owner newOwner tokenId] ++ receiver.actions
  | .setApproval approved tokenId auth emitEvent => [.setApproval approved tokenId auth emitEvent]
  | .setApprovalForAllOf owner operator approved => [.setApprovalForAllOf owner operator approved]
  | .update newOwner tokenId auth => [.update newOwner tokenId auth]

/-- All actions of a receiver. -/
def Receiver.actions : Receiver → List Action
  | .noCode => []
  | .code calls _ => calls.actions

/-- All actions in a list of calls. -/
def Calls.actions : Calls → List Action
  | .nil => []
  | .cons sender call rest => call.actions sender ++ rest.actions

end

/-- All actions in a transaction. -/
def Tx.actions (tx : Tx) : List Action := tx.call.actions tx.sender

/-- What a call does itself. -/
def Call.action (sender : Sender) : Call → Action
  | .approve approved tokenId => .approve sender approved tokenId
  | .setApprovalForAll operator approved => .setApprovalForAll sender operator approved
  | .transferFrom owner newOwner tokenId => .transferFrom sender owner newOwner tokenId
  | .safeTransferFrom owner newOwner tokenId _ => .transferFrom sender owner newOwner tokenId
  | .mint newOwner tokenId => .mint newOwner tokenId
  | .safeMint newOwner tokenId _ => .mint newOwner tokenId
  | .burn tokenId => .burn tokenId
  | .transfer owner newOwner tokenId => .transfer owner newOwner tokenId
  | .safeTransfer owner newOwner tokenId _ => .transfer owner newOwner tokenId
  | .setApproval approved tokenId auth emitEvent => .setApproval approved tokenId auth emitEvent
  | .setApprovalForAllOf owner operator approved => .setApprovalForAllOf owner operator approved
  | .update newOwner tokenId auth => .update newOwner tokenId auth

/-- Whom a call asks to accept a token, and what stands there. One that asks nobody might as
well ask the zero address, where there is no code. -/
def Call.asks : Call → Address × Receiver
  | .safeTransferFrom _ newOwner _ receiver => (newOwner, receiver)
  | .safeMint newOwner _ receiver => (newOwner, receiver)
  | .safeTransfer _ newOwner _ receiver => (newOwner, receiver)
  | _ => (0, .noCode)

/-- The receiver takes the token. -/
def Receiver.accepts : Receiver → Bool
  | .noCode => true
  | .code _ answer => answer = .accepted

/-- The cases of an induction over calls, and over receivers and lists of calls with them. -/
structure CallInduction (P : Call → Prop) (Q : Receiver → Prop) (R : Calls → Prop) : Prop where
  /-- a call, when it holds of the receiver that is asked -/
  call : ∀ call, Q call.asks.2 → P call
  /-- no code -/
  noCode : Q .noCode
  /-- code, when it holds of the calls it makes -/
  code : ∀ calls answer, R calls → Q (.code calls answer)
  /-- no calls -/
  nil : R .nil
  /-- one call more -/
  cons : ∀ sender call rest, P call → R rest → R (.cons sender call rest)

section CallInduction

variable {P : Call → Prop} {Q : Receiver → Prop} {R : Calls → Prop}

mutual

/-- **Induction over calls**: all calls that do not ask anybody are alike, and so are those
that do. -/
theorem CallInduction.on_call (h : CallInduction P Q R) : ∀ call, P call
  | .approve .. => h.call _ h.noCode
  | .setApprovalForAll .. => h.call _ h.noCode
  | .transferFrom .. => h.call _ h.noCode
  | .safeTransferFrom _ _ _ receiver => h.call _ (h.on_receiver receiver)
  | .mint .. => h.call _ h.noCode
  | .safeMint _ _ receiver => h.call _ (h.on_receiver receiver)
  | .burn .. => h.call _ h.noCode
  | .transfer .. => h.call _ h.noCode
  | .safeTransfer _ _ _ receiver => h.call _ (h.on_receiver receiver)
  | .setApproval .. => h.call _ h.noCode
  | .setApprovalForAllOf .. => h.call _ h.noCode
  | .update .. => h.call _ h.noCode

theorem CallInduction.on_receiver (h : CallInduction P Q R) : ∀ receiver, Q receiver
  | .noCode => h.noCode
  | .code calls answer => h.code calls answer (h.on_calls calls)

theorem CallInduction.on_calls (h : CallInduction P Q R) : ∀ calls, R calls
  | .nil => h.nil
  | .cons sender call rest => h.cons sender call rest (h.on_call call) (h.on_calls rest)

end

end CallInduction

theorem Call.actions_eq (sender : Sender) (call : Call) :
    call.actions sender = call.action sender :: call.asks.2.actions := by
  cases call <;> rfl

section Steps

variable {σ : Type} {act : Action → σ → Except Error σ}

/-- A call is its action, and then the receiver is asked. -/
theorem run_eq (sender : Sender) (call : Call) (s : σ) : run act sender call s =
    (act (call.action sender) s >>= checkOnERC721Received act call.asks.1 call.asks.2) := by
  have hnobody : ∀ x : Except Error σ, x = x >>= checkOnERC721Received act 0 .noCode := by
    intro x
    rcases x with e | s'
    · rfl
    · rfl
  cases call with
  | safeTransferFrom owner newOwner tokenId receiver => rfl
  | safeMint newOwner tokenId receiver => rfl
  | safeTransfer owner newOwner tokenId receiver => rfl
  | _ => exact hnobody _

/-- A receiver that does not take the token makes the call fail that has sent it. -/
theorem check_of_not_accepts {receiver : Receiver} (h : receiver.accepts = false)
    (act : Action → σ → Except Error σ) (newOwner : Address) (s : σ) :
    ∃ e, checkOnERC721Received act newOwner receiver s = .error e := by
  rcases receiver with - | ⟨calls, - | - | reason⟩
  · cases h
  · cases h
  · exact ⟨_, rfl⟩
  · rw [checkOnERC721Received]
    split
    · exact ⟨_, rfl⟩
    · exact ⟨_, rfl⟩

end Steps

/-! ## What lasts -/

section Lasting

variable {σ : Type} (act : Action → σ → Except Error σ)

/-- An action, and what lasts of what follows it, if it commits and is accepted. -/
def lastingIf (action : Action) (accepts : Bool) (following : σ → List Action) (s : σ) :
    List Action :=
  match act action s with
  | .ok s' => if accepts then action :: following s' else []
  | .error _ => []

mutual

/-- The actions of a call that last, if it is made in the state `s`. -/
def Call.lasting (sender : Sender) : Call → σ → List Action
  | .safeTransferFrom owner newOwner tokenId receiver, s =>
    lastingIf act (.transferFrom sender owner newOwner tokenId) receiver.accepts
      receiver.lasting s
  | .safeMint newOwner tokenId receiver, s =>
    lastingIf act (.mint newOwner tokenId) receiver.accepts receiver.lasting s
  | .safeTransfer owner newOwner tokenId receiver, s =>
    lastingIf act (.transfer owner newOwner tokenId) receiver.accepts receiver.lasting s
  | call, s => lastingIf act (call.action sender) true (fun _ => []) s

/-- Those of a receiver. -/
def Receiver.lasting : Receiver → σ → List Action
  | .noCode, _ => []
  | .code calls _, s => calls.lasting s

/-- Those of calls, one after the other. -/
def Calls.lasting : Calls → σ → List Action
  | .nil, _ => []
  | .cons sender call rest, s =>
    let actions := call.lasting sender s
    actions ++ rest.lasting (Transaction.run act s actions)

end

/-- The actions of transactions that last. -/
def lasting (s : σ) (txs : List Tx) : List Action :=
  flatten act (fun s tx => tx.call.lasting act tx.sender s) s txs

variable {act}

theorem Call.lasting_eq (sender : Sender) (call : Call) (s : σ) : call.lasting act sender s =
    lastingIf act (call.action sender) call.asks.2.accepts (call.asks.2.lasting act) s := by
  cases call <;> rfl

theorem lastingIf_ok {action : Action} {accepts : Bool} {following : σ → List Action}
    {s s' : σ} (h : act action s = .ok s') : lastingIf act action accepts following s =
      if accepts then action :: following s' else [] := by
  rw [lastingIf, h]

theorem lastingIf_error {action : Action} {accepts : Bool} {following : σ → List Action} {s : σ}
    {e : Error} (h : act action s = .error e) : lastingIf act action accepts following s = [] := by
  rw [lastingIf, h]

theorem lastingIf_rejected (action : Action) (following : σ → List Action) (s : σ) :
    lastingIf act action false following s = [] := by
  rcases h : act action s with e | s'
  · rw [lastingIf_error h]
  · rw [lastingIf_ok h, if_neg Bool.false_ne_true]

/-- **A call is the actions in it that last.** -/
theorem leadsTo_lasting : CallInduction
    (fun call => ∀ sender (s : σ),
      LeadsTo act s (call.lasting act sender s) (exec (transact act) s ⟨sender, call⟩))
    (fun receiver => receiver.accepts → ∀ newOwner (s : σ), ∃ s',
      checkOnERC721Received act newOwner receiver s = .ok s' ∧
        LeadsTo act s (receiver.lasting act s) s')
    (fun calls => ∀ s : σ, LeadsTo act s (calls.lasting act s) (runCalls act calls s)) where
  call call hreceiver sender s := by
    have hrun : transact act ⟨sender, call⟩ s =
        act (call.action sender) s >>= checkOnERC721Received act call.asks.1 call.asks.2 :=
      run_eq sender call s
    rw [call.lasting_eq sender s]
    rcases hact : act (call.action sender) s with e | s₁
    · rw [lastingIf_error hact, exec_error (hrun.trans (by rw [hact]; rfl))]
      exact .nil s
    · rw [hact, ok_bind] at hrun
      rcases haccepts : call.asks.2.accepts with - | -
      · -- the action has been undone
        obtain ⟨e, he⟩ := check_of_not_accepts haccepts act call.asks.1 s₁
        rw [lastingIf_rejected, exec_error (hrun.trans he)]
        exact .nil s
      · obtain ⟨s', hcheck, hleads⟩ := hreceiver haccepts call.asks.1 s₁
        rw [lastingIf_ok hact, if_pos rfl, exec_ok (hrun.trans hcheck)]
        exact .cons hact hleads
  noCode _ _ s := ⟨s, rfl, .nil s⟩
  code calls answer hcalls haccepts newOwner s := by
    obtain rfl := of_decide_eq_true haccepts
    exact ⟨_, rfl, hcalls s⟩
  nil s := .nil s
  cons sender call rest hcall hrest s := by
    rw [runCalls_cons, Calls.lasting, (hcall sender s).2]
    exact (hcall sender s).append (hrest _)

variable (act) in
/-- **A run is the actions in it that last**, one after the other. -/
theorem run_lasting (s : σ) (txs : List Tx) :
    LeadsTo act s (lasting act s txs) (Transaction.run (transact act) s txs) :=
  leadsTo_flatten (fun s tx => leadsTo_lasting.on_call tx.call tx.sender s) s txs

theorem lasting_sublist_actions : CallInduction
    (fun call => ∀ sender (s : σ), (call.lasting act sender s).Sublist (call.actions sender))
    (fun receiver => ∀ s : σ, (receiver.lasting act s).Sublist receiver.actions)
    (fun calls => ∀ s : σ, (calls.lasting act s).Sublist calls.actions) where
  call call hreceiver sender s := by
    rw [call.lasting_eq, call.actions_eq, lastingIf]
    split
    · split
      · exact (hreceiver _).cons_cons _
      · exact List.nil_sublist _
    · exact List.nil_sublist _
  noCode _ := .slnil
  code calls _ hcalls s := hcalls s
  nil _ := .slnil
  cons sender call rest hcall hrest s := (hcall sender s).append (hrest _)

/-- They are in the order in which they are taken. -/
theorem lasting_sublist (s : σ) (txs : List Tx) :
    (lasting act s txs).Sublist (txs.flatMap Tx.actions) :=
  flatten_sublist (fun s tx => lasting_sublist_actions.on_call tx.call tx.sender s) s txs

/-- **Invariant rule for nested calls, with history**: what holds of the actions that have
lasted and of the state is kept by each action. -/
theorem lasting_induction {I : List Action → σ → Prop} {s : σ} (hs : I [] s) (txs : List Tx)
    (hact : ∀ action hist s s', I hist s → act action s = .ok s' → I (hist ++ [action]) s') :
    I (lasting act s txs) (Transaction.run (transact act) s txs) :=
  (run_lasting act s txs).induction hs fun action _ => hact action

/-- **Invariant rule for nested calls**: what every action that lasts preserves, every run of
transactions preserves. -/
theorem transact_invariant {I : σ → Prop} {s : σ} {txs : List Tx}
    (hact : ∀ action ∈ lasting act s txs, ∀ s s', I s → act action s = .ok s' → I s')
    (hs : I s) : I (Transaction.run (transact act) s txs) :=
  (run_lasting act s txs).induction (I := fun _ s => I s) hs fun action haction _ =>
    hact action haction

end Lasting

/-! ## Without the rejected calls -/

mutual

/-- A call without the calls in it that are rejected. -/
def Call.prune : Call → Call
  | .safeTransferFrom owner newOwner tokenId receiver =>
    .safeTransferFrom owner newOwner tokenId receiver.prune
  | .safeMint newOwner tokenId receiver => .safeMint newOwner tokenId receiver.prune
  | .safeTransfer owner newOwner tokenId receiver =>
    .safeTransfer owner newOwner tokenId receiver.prune
  | call => call

/-- A receiver that does not make them. -/
def Receiver.prune : Receiver → Receiver
  | .noCode => .noCode
  | .code calls answer => .code calls.prune answer

/-- Calls without those that are rejected. -/
def Calls.prune : Calls → Calls
  | .nil => .nil
  | .cons sender call rest =>
    if call.asks.2.accepts then .cons sender call.prune rest.prune else rest.prune

end

/-- Transactions without those that are rejected, and without the rejected calls in them. -/
def prune (txs : List Tx) : List Tx :=
  (txs.filter (·.call.asks.2.accepts)).map fun tx => { tx with call := tx.call.prune }

section Prune

variable {σ : Type} {act : Action → σ → Except Error σ}

theorem Call.prune_action (sender : Sender) (call : Call) :
    call.prune.action sender = call.action sender := by
  cases call <;> rfl

theorem Call.prune_asks (call : Call) : call.prune.asks.2 = call.asks.2.prune := by
  cases call <;> rfl

theorem Receiver.prune_accepts (receiver : Receiver) :
    receiver.prune.accepts = receiver.accepts := by
  cases receiver <;> rfl

/-- Of a call that is rejected nothing lasts. -/
theorem Call.lasting_rejected {call : Call} (h : ¬ call.asks.2.accepts) (sender : Sender)
    (s : σ) : call.lasting act sender s = [] := by
  rw [call.lasting_eq, eq_false_of_ne_true h, lastingIf_rejected]

/-- What lasts does so without the rejected calls. -/
theorem lasting_prune : CallInduction
    (fun call => ∀ sender (s : σ), call.prune.lasting act sender s = call.lasting act sender s)
    (fun receiver => receiver.prune.lasting act = receiver.lasting act)
    (fun calls => ∀ s : σ, calls.prune.lasting act s = calls.lasting act s) where
  call call hreceiver sender s := by
    rw [Call.lasting_eq, call.lasting_eq, call.prune_action, call.prune_asks,
      Receiver.prune_accepts, hreceiver]
  noCode := rfl
  code calls _ hcalls := funext hcalls
  nil _ := rfl
  cons sender call rest hcall hrest s := by
    rw [Calls.prune]
    split
    · rw [Calls.lasting, Calls.lasting, hcall, hrest]
    · next hrejected =>
      rw [Calls.lasting, Call.lasting_rejected hrejected, hrest]
      rfl

theorem lasting_prune_txs (s : σ) (txs : List Tx) :
    lasting act s (prune txs) = lasting act s txs := by
  induction txs generalizing s with
  | nil => rfl
  | cons tx txs ih =>
    by_cases haccepts : tx.call.asks.2.accepts
    · have hprune : prune (tx :: txs) = { tx with call := tx.call.prune } :: prune txs := by
        simp [prune, haccepts]
      rw [hprune, lasting, flatten, lasting, flatten, lasting_prune.on_call]
      exact congrArg _ (ih _)
    · have hprune : prune (tx :: txs) = prune txs := by
        simp [prune, haccepts]
      rw [hprune, ih, lasting, lasting, flatten, Call.lasting_rejected haccepts]
      rfl

/-- **Rejected calls leave no trace**: without them a run ends in the same state. -/
theorem run_prune (s : σ) (txs : List Tx) :
    Transaction.run (transact act) s (prune txs) = Transaction.run (transact act) s txs := by
  have hpruned := (run_lasting act s (prune txs)).2
  have hrun := (run_lasting act s txs).2
  rw [← hpruned, ← hrun, lasting_prune_txs]

end Prune

/-! ## Two contracts in lockstep -/

section Lockstep

variable {σ σ' : Type} {act : Action → σ → Except Error σ} {act' : Action → σ' → Except Error σ'}
  {R : ℕ → σ → σ' → Prop}

/-- Two contracts have the same outcomes on states that are related, for as many actions as the
relation says. -/
structure Lockstep (act : Action → σ → Except Error σ) (act' : Action → σ' → Except Error σ')
    (R : ℕ → σ → σ' → Prop) : Prop where
  /-- fewer actions are fine too -/
  weaken : ∀ n s s', R (n + 1) s s' → R n s s'
  /-- an action has the same outcome -/
  act : ∀ n action s s', R (n + 1) s s' → Agree (R n) (act action s) (act' action s')

theorem Lockstep.weaken_add (h : Lockstep act act' R) {n : ℕ} {s : σ} {s' : σ'} :
    ∀ k, R (n + k) s s' → R n s s'
  | 0, hR => hR
  | k + 1, hR => h.weaken_add k (h.weaken (n + k) s s' hR)

theorem Lockstep.calls_agree (h : Lockstep act act' R) : CallInduction
    (fun call => ∀ sender n (s : σ) (s' : σ'), R (n + (call.actions sender).length) s s' →
      Agree (R n) (run act sender call s) (run act' sender call s'))
    (fun receiver => ∀ newOwner n (s : σ) (s' : σ'), R (n + receiver.actions.length) s s' →
      Agree (R n) (checkOnERC721Received act newOwner receiver s)
        (checkOnERC721Received act' newOwner receiver s'))
    (fun calls => ∀ n (s : σ) (s' : σ'), R (n + calls.actions.length) s s' →
      R n (runCalls act calls s) (runCalls act' calls s')) where
  call call hreceiver sender n s s' hR := by
    rw [call.actions_eq, List.length_cons, ← Nat.add_assoc] at hR
    rw [run_eq, run_eq]
    exact (h.act _ _ s s' hR).bind (hreceiver call.asks.1 n)
  noCode _ _ _ _ hR := .ok hR
  code calls answer hcalls newOwner n s s' hR := by
    cases answer with
    | accepted => exact .ok (hcalls n s s' hR)
    | rejected => exact .error _
    | reverted reason =>
      rw [checkOnERC721Received, checkOnERC721Received]
      split
      · exact .error _
      · exact .error _
  nil _ _ _ hR := hR
  cons sender call rest hcall hrest n s s' hR := by
    have hcount : n + (Calls.cons sender call rest).actions.length =
        n + rest.actions.length + (call.actions sender).length := by
      rw [Calls.actions, List.length_append]
      omega
    rw [hcount] at hR
    rw [runCalls_cons, runCalls_cons]
    have hagree : Agree (R (n + rest.actions.length)) (transact act ⟨sender, call⟩ s)
        (transact act' ⟨sender, call⟩ s') := hcall sender _ s s' hR
    exact hrest n _ _ (hagree.exec (h.weaken_add _ hR))

/-- **Lockstep through nested calls**: what holds of two contracts action by action holds of
every run of transactions, and of the outcome of the next one. -/
theorem Lockstep.transact_agree (h : Lockstep act act' R) {s : σ} {s' : σ'} (n : ℕ) (tx : Tx)
    (hR : R (n + tx.actions.length) s s') : Agree (R n) (transact act tx s) (transact act' tx s') :=
  h.calls_agree.on_call tx.call tx.sender n s s' hR

theorem Lockstep.run_transact (h : Lockstep act act' R) {s : σ} {s' : σ'} {n : ℕ}
    {txs : List Tx} (hR : R (n + (txs.flatMap Tx.actions).length) s s') :
    R n (Transaction.run (transact act) s txs) (Transaction.run (transact act') s' txs) := by
  induction txs generalizing s s' with
  | nil => exact hR
  | cons tx txs ih =>
    have hcount : n + ((tx :: txs).flatMap Tx.actions).length =
        n + (txs.flatMap Tx.actions).length + tx.actions.length := by
      rw [List.flatMap_cons, List.length_append]
      omega
    rw [hcount] at hR
    rw [run_cons, run_cons]
    exact ih ((h.transact_agree _ tx hR).exec (h.weaken_add _ hR))

end Lockstep

end ERC721

end NftGame

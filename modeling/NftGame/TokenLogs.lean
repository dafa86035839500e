import NftGame.TokenRuns

/-!
# What the events tell

A page that wants to show the tokens of a player cannot look into the storage of the contract,
but it can read the events. They are enough: whoever reads all of them knows the owner of every
token and every operator (`Book`), and the balances and the number of tokens come from counting
(`received`, `sent`). That a transfer withdraws the approval of the token there is no event for,
but the reader can know it.

What the reader cannot know is an approval that a derived contract gives without an event
(`Action.silent`). The reader may then be wrong about the approval of that token, but about
nothing else (`Book.AgreeOff`). Every other action emits one event, and what it says of the past,
such as the previous owner, is what a reader of the events before it knows (`Honest`). That
follows from the effects of the actions alone (`Effect.tells`); only the balances need the lists,
which leave no room for so many tokens that a balance could overflow.
-/

namespace NftGame

open Solidity Transaction

namespace ERC721

/-! ## A reader of the events -/

/-- What a reader of the events knows. -/
@[ext] structure Book : Type where
  /-- the owner of each token -/
  owners : UInt256 → Address
  /-- who is approved for it -/
  approvals : UInt256 → Address
  /-- the operators of each owner -/
  operators : Address → Address → Bool

namespace Book

/-- At first there are no tokens. -/
def blank : Book := ⟨fun _ => 0, fun _ => 0, fun _ _ => false⟩

/-- Read an event. -/
def read (b : Book) : Log → Book
  | .transfer owner newOwner tokenId =>
    { b with
      owners := Function.update b.owners tokenId newOwner
      approvals := if owner = 0 then b.approvals else Function.update b.approvals tokenId 0 }
  | .approval _ approved tokenId =>
    { b with approvals := Function.update b.approvals tokenId approved }
  | .approvalForAll owner operator approved =>
    { b with
      operators := Function.update b.operators owner
        (Function.update (b.operators owner) operator approved) }

/-- The event is one that can happen now: it names the owner, and who is approved for a token
is so by somebody. -/
def Expects (b : Book) : Log → Prop
  | .transfer owner _ tokenId => b.owners tokenId = owner
  | .approval owner _ tokenId => b.owners tokenId = owner ∧ owner ≠ 0
  | .approvalForAll _ operator _ => operator ≠ 0

/-- Each of the events is one that a reader of those before it expects. -/
def Honest : Book → List Log → Prop
  | _, [] => True
  | b, log :: logs => b.Expects log ∧ Honest (b.read log) logs

theorem honest_concat {b : Book} {logs : List Log} {log : Log} (h : b.Honest logs)
    (hlog : (logs.foldl read b).Expects log) : b.Honest (logs ++ [log]) := by
  induction logs generalizing b with
  | nil => exact ⟨hlog, trivial⟩
  | cons log' logs ih => exact ⟨h.1, ih h.2 hlog⟩

/-- Two readers know the same, but for the approvals of some tokens. -/
structure AgreeOff (b b' : Book) (tokens : Set UInt256) : Prop where
  /-- all owners -/
  owners : b.owners = b'.owners
  /-- the approvals of the other tokens -/
  approvals : ∀ tokenId ∉ tokens, b.approvals tokenId = b'.approvals tokenId
  /-- all operators -/
  operators : b.operators = b'.operators

section AgreeOff

variable {b b' : Book} {tokens tokens' : Set UInt256}

theorem AgreeOff.mono (h : b.AgreeOff b' tokens) (htokens : tokens ⊆ tokens') :
    b.AgreeOff b' tokens' where
  owners := h.owners
  approvals tokenId htoken := h.approvals tokenId fun hmem => htoken (htokens hmem)
  operators := h.operators

/-- They expect the same. -/
theorem AgreeOff.expects {log : Log} (h : b.AgreeOff b' tokens) (hlog : b'.Expects log) :
    b.Expects log := by
  cases log with
  | transfer owner newOwner tokenId => exact (congrFun h.owners tokenId).trans hlog
  | approval owner approved tokenId => exact ⟨(congrFun h.owners tokenId).trans hlog.1, hlog.2⟩
  | approvalForAll owner operator approved => exact hlog

theorem update_agrees {f g : UInt256 → Address} (h : ∀ t ∉ tokens, f t = g t)
    (tokenId : UInt256) (address : Address) :
    ∀ t ∉ tokens, Function.update f tokenId address t = Function.update g tokenId address t := by
  intro t ht
  rw [Function.update_apply, Function.update_apply, h t ht]

/-- They learn the same from an event. -/
theorem AgreeOff.read (h : b.AgreeOff b' tokens) (log : Log) :
    (b.read log).AgreeOff (b'.read log) tokens := by
  cases log with
  | transfer owner newOwner tokenId =>
    refine ⟨?_, ?_, h.operators⟩
    · dsimp only [Book.read]
      rw [h.owners]
    · dsimp only [Book.read]
      split
      · exact h.approvals
      · exact update_agrees h.approvals tokenId 0
  | approval owner approved tokenId =>
    exact ⟨h.owners, update_agrees h.approvals tokenId approved, h.operators⟩
  | approvalForAll owner operator approved =>
    refine ⟨h.owners, h.approvals, ?_⟩
    dsimp only [Book.read]
    rw [h.operators]

/-- What nobody tells of one of the tokens makes no difference. -/
theorem AgreeOff.update (h : b.AgreeOff b' tokens) {tokenId : UInt256} (htoken : tokenId ∈ tokens)
    (approved : Address) :
    b.AgreeOff { b' with approvals := Function.update b'.approvals tokenId approved } tokens where
  owners := h.owners
  approvals t ht := by
    have hne : t ≠ tokenId := by
      rintro rfl
      exact ht htoken
    exact (h.approvals t ht).trans (Function.update_of_ne hne ..).symm
  operators := h.operators

end AgreeOff

end Book

/-- What there is to know. -/
def State.book (s : State) : Book := ⟨s.owners, s.tokenApprovals, s.operatorApprovals⟩

/-- How many tokens an address has received; the zero address, those that were burned. -/
def received (owner : Address) (logs : List Log) : ℕ :=
  logs.countP fun
    | .transfer _ newOwner _ => newOwner == owner
    | _ => false

/-- How many it has sent away; the zero address, those that were minted. -/
def sent (owner : Address) (logs : List Log) : ℕ :=
  logs.countP fun
    | .transfer previousOwner _ _ => previousOwner == owner
    | _ => false

section Counting

variable (a owner newOwner : Address) (tokenId : UInt256) (logs : List Log)

theorem received_transfer : received a (logs ++ [.transfer owner newOwner tokenId]) =
    received a logs + if newOwner = a then 1 else 0 := by
  simp [received, List.countP_append, List.countP_singleton]

theorem sent_transfer : sent a (logs ++ [.transfer owner newOwner tokenId]) =
    sent a logs + if owner = a then 1 else 0 := by
  simp [sent, List.countP_append, List.countP_singleton]

theorem received_approved (s : State) (approved : Address) (emitEvent : Bool) :
    received a (s.approved approved tokenId emitEvent).logs = received a s.logs := by
  cases emitEvent <;> simp [State.approved, received, List.countP_append]

theorem sent_approved (s : State) (approved : Address) (emitEvent : Bool) :
    sent a (s.approved approved tokenId emitEvent).logs = sent a s.logs := by
  cases emitEvent <;> simp [State.approved, sent, List.countP_append]

theorem received_approvalForAll (operator : Address) (approved : Bool) :
    received a (logs ++ [.approvalForAll owner operator approved]) = received a logs := by
  simp [received, List.countP_append]

theorem sent_approvalForAll (operator : Address) (approved : Bool) :
    sent a (logs ++ [.approvalForAll owner operator approved]) = sent a logs := by
  simp [sent, List.countP_append]

end Counting

/-! ## One action, one event -/

/-- The token for which an action approves an address without an event, if it does so. -/
def Action.silent : Action → Option UInt256
  | .setApproval _ tokenId _ false => some tokenId
  | _ => none

/-- The tokens for which that has happened. -/
def silenced (actions : List Action) : Set UInt256 :=
  {tokenId | ∃ action ∈ actions, action.silent = some tokenId}

theorem silenced_concat (actions : List Action) (action : Action) :
    silenced actions ⊆ silenced (actions ++ [action]) := by
  rintro tokenId ⟨action', hmem, hsilent⟩
  exact ⟨action', List.mem_append_left _ hmem, hsilent⟩

section Effects

variable {s s' : State} {action : Action}

/-- What an action that emits an event does to the state, the event tells. -/
structure State.Tells (s s' : State) (log : Log) : Prop where
  /-- it is emitted -/
  logs : s'.logs = s.logs ++ [log]
  /-- when it can be -/
  expected : s.book.Expects log
  /-- and changes what there is to know -/
  book : s'.book = s.book.read log

theorem tells_moved (s : State) (newOwner : Address) (tokenId : UInt256) :
    s.Tells (s.moved newOwner tokenId) (.transfer (s.owners tokenId) newOwner tokenId) :=
  ⟨rfl, rfl, rfl⟩

theorem tells_approved {tokenId : UInt256} (hexists : s.owners tokenId ≠ 0) (approved : Address) :
    s.Tells (s.approved approved tokenId true) (.approval (s.owners tokenId) approved tokenId) :=
  ⟨rfl, ⟨rfl, hexists⟩, rfl⟩

theorem tells_operatorSet {operator : Address} (hoperator : operator ≠ 0) (owner : Address)
    (approved : Bool) :
    s.Tells (s.operatorSet owner operator approved) (.approvalForAll owner operator approved) :=
  ⟨rfl, hoperator, rfl⟩

/-- **Every action emits one event**, which says all about what it does, or it is silent and
does nothing but approve somebody for one token. -/
theorem Effect.tells (h : Effect s action s') :
    (action.silent = none ∧ ∃ log, s.Tells s' log) ∨
      ∃ tokenId approved, action.silent = some tokenId ∧
        s' = s.approved approved tokenId false := by
  cases h with
  | approve sender approved tokenId hexists => exact .inl ⟨rfl, _, tells_approved hexists approved⟩
  | setApprovalForAll sender operator approved hoperator =>
    exact .inl ⟨rfl, _, tells_operatorSet hoperator sender approved⟩
  | transferFrom sender newOwner tokenId => exact .inl ⟨rfl, _, tells_moved s newOwner tokenId⟩
  | mint newOwner tokenId => exact .inl ⟨rfl, _, tells_moved s newOwner tokenId⟩
  | burn tokenId => exact .inl ⟨rfl, _, tells_moved s 0 tokenId⟩
  | transfer newOwner tokenId => exact .inl ⟨rfl, _, tells_moved s newOwner tokenId⟩
  | setApproval approved tokenId auth emitEvent hexists =>
    cases emitEvent with
    | true => exact .inl ⟨rfl, _, tells_approved (hexists (.inl rfl)) approved⟩
    | false => exact .inr ⟨tokenId, approved, rfl, rfl⟩
  | setApprovalForAllOf owner operator approved hoperator =>
    exact .inl ⟨rfl, _, tells_operatorSet hoperator owner approved⟩
  | update newOwner tokenId auth => exact .inl ⟨rfl, _, tells_moved s newOwner tokenId⟩

/-- A `Transfer` from nobody to nobody comes from a contract that burns what is not there. -/
theorem Effect.transfer_zero {tokenId : UInt256} (h : Effect s action s')
    (hmem : .transfer 0 0 tokenId ∈ s'.logs) :
    .transfer 0 0 tokenId ∈ s.logs ∨ ∃ auth, action = .update 0 tokenId auth := by
  have hmoved : ∀ newOwner token, .transfer 0 0 tokenId ∈ (s.moved newOwner token).logs →
      .transfer 0 0 tokenId ∈ s.logs ∨ s.owners token = 0 ∧ newOwner = 0 ∧ token = tokenId := by
    intro newOwner token hmem
    refine (List.mem_append.mp hmem).imp_right fun hlast => ?_
    obtain ⟨howner, hnew, htoken⟩ := Log.transfer.inj (List.mem_singleton.mp hlast)
    exact ⟨howner.symm, hnew.symm, htoken.symm⟩
  have happroved : ∀ approved token emitEvent,
      .transfer 0 0 tokenId ∈ (s.approved approved token emitEvent).logs →
        .transfer 0 0 tokenId ∈ s.logs := by
    intro approved token emitEvent hmem
    cases emitEvent with
    | true => exact (List.mem_append.mp hmem).resolve_right (by simp)
    | false => exact hmem
  have hset : ∀ owner operator approved,
      .transfer 0 0 tokenId ∈ (s.operatorSet owner operator approved).logs →
        .transfer 0 0 tokenId ∈ s.logs := by
    intro owner operator approved hmem
    exact (List.mem_append.mp hmem).resolve_right (by simp)
  cases h with
  | approve sender approved token => exact .inl (happroved approved token true hmem)
  | setApprovalForAll sender operator approved =>
    exact .inl (hset sender operator approved hmem)
  | transferFrom sender newOwner token hnew =>
    exact .inl ((hmoved newOwner token hmem).resolve_right fun h => hnew h.2.1)
  | mint newOwner token hnew =>
    exact .inl ((hmoved newOwner token hmem).resolve_right fun h => hnew h.2.1)
  | burn token hexists =>
    exact .inl ((hmoved 0 token hmem).resolve_right fun h => hexists h.1)
  | transfer newOwner token hnew =>
    exact .inl ((hmoved newOwner token hmem).resolve_right fun h => hnew h.2.1)
  | setApproval approved token auth emitEvent =>
    exact .inl (happroved approved token emitEvent hmem)
  | setApprovalForAllOf owner operator approved =>
    exact .inl (hset owner operator approved hmem)
  | update newOwner token auth =>
    refine (hmoved newOwner token hmem).imp_right ?_
    rintro ⟨-, rfl, rfl⟩
    exact ⟨auth, rfl⟩

/-- A reader of the events knows all but the approvals that were given in silence, and has not
been told anything wrong. -/
structure State.Told (s : State) (actions : List Action) : Prop where
  /-- the reader knows it -/
  book : (s.logs.foldl Book.read .blank).AgreeOff s.book (silenced actions)
  /-- and could check it -/
  honest : Book.blank.Honest s.logs
  /-- only a contract that burns what is not there moves it from nobody to nobody -/
  zero : ∀ tokenId, .transfer 0 0 tokenId ∈ s.logs → ∃ auth, .update 0 tokenId auth ∈ actions

theorem Effect.told {actions : List Action} (h : Effect s action s') (hs : s.Told actions) :
    s'.Told (actions ++ [action]) := by
  have hzero : ∀ tokenId, .transfer 0 0 tokenId ∈ s'.logs →
      ∃ auth, .update 0 tokenId auth ∈ actions ++ [action] := by
    intro tokenId hmem
    rcases h.transfer_zero hmem with hold | ⟨auth, rfl⟩
    · obtain ⟨auth, hauth⟩ := hs.zero tokenId hold
      exact ⟨auth, List.mem_append_left _ hauth⟩
    · exact ⟨auth, List.mem_concat_self⟩
  have hbook := hs.book.mono (silenced_concat actions action)
  rcases h.tells with ⟨-, log, htells⟩ | ⟨tokenId, approved, hsilent, rfl⟩
  · refine ⟨?_, ?_, hzero⟩
    · rw [htells.logs, List.foldl_concat, htells.book]
      exact hbook.read log
    · rw [htells.logs]
      exact Book.honest_concat hs.honest (hs.book.expects htells.expected)
  · have htoken : tokenId ∈ silenced (actions ++ [action]) := ⟨action, by simp, hsilent⟩
    exact ⟨hbook.update htoken approved, hs.honest, hzero⟩

end Effects

end ERC721

namespace ERC721Enumerable

open ERC721 (Action Book Log Tx lasting prune received sent transact)

theorem told_deployed : deployed.Told [] where
  book := ⟨rfl, fun _ _ => rfl, rfl⟩
  honest := trivial
  zero := nofun

/-- **The events tell it all**, but for approvals given in silence: after any run, a reader of the
events knows the owners and the operators, and the approval of every token for which none has been
given so. Each event was one to expect, and nothing is moved from nobody to nobody but by a
contract that burns what is not there. -/
theorem events_tell_all (txs : List Tx) :
    let s := run (transact act) deployed txs
    let actions := lasting act deployed txs
    let book := s.logs.foldl Book.read .blank
    book.owners = s.owners ∧ book.operators = s.operatorApprovals ∧
      (∀ tokenId, (∀ action ∈ actions, action.silent ≠ some tokenId) →
        book.approvals tokenId = s.tokenApprovals tokenId) ∧
      Book.blank.Honest s.logs ∧
      ∀ tokenId, .transfer 0 0 tokenId ∈ s.logs → ∃ auth, .update 0 tokenId auth ∈ actions := by
  intro s actions book
  have htold : s.Told actions :=
    ERC721.lasting_induction (I := fun actions (s : State) => s.Told actions) told_deployed txs
      fun _ _ _ _ hs h => (act_effect h).told hs
  refine ⟨htold.book.owners, htold.book.operators, fun tokenId hloud => ?_, htold.honest,
    htold.zero⟩
  refine htold.book.approvals tokenId ?_
  rintro ⟨action, hmem, hsilent⟩
  exact hloud action hmem hsilent

/-! ## Counting events -/

section Counted

variable {s s' : State} {newOwner owner : Address} {tokenId : UInt256}

/-- A move adds one to the balance of the new owner, and takes one from that of the old one. -/
theorem Inv.balance_moved (hs : Inv s) (howner : owner ≠ 0) (newOwner : Address)
    (tokenId : UInt256) :
    ((s.toState.moved newOwner tokenId).balances owner).toNat +
        (if s.owners tokenId = owner then 1 else 0) =
      (s.balances owner).toNat + (if newOwner = owner then 1 else 0) := by
  by_cases hold : s.owners tokenId = owner
  · subst hold
    rw [if_pos rfl]
    by_cases hnew : newOwner = s.owners tokenId
    · subst hnew
      rw [if_pos rfl, ERC721.balances_moved_self howner]
    · obtain ⟨n, hn, hn'⟩ := hs.balance_pos howner
      rw [if_neg hnew, ERC721.balances_moved_old howner (Ne.symm hnew), hn, hn']
  · rw [if_neg hold]
    by_cases hnew : newOwner = owner
    · subst hnew
      rw [if_pos rfl, Nat.add_zero, ERC721.balances_moved_new howner (Ne.symm hold)]
      exact BitVec.toNat_add_of_lt (hs.balance_lt howner)
    · rw [if_neg hnew, ERC721.balances_moved_of_ne (Ne.symm hnew) (Ne.symm hold)]

/-- What is there is what has come and not gone. -/
structure State.Counted (s : State) : Prop where
  /-- the tokens of each owner -/
  balances : ∀ owner, owner ≠ 0 →
    (s.balances owner).toNat + sent owner s.logs = received owner s.logs
  /-- the tokens: they come from the zero address, and go there -/
  all : s.allTokens.length + received 0 s.logs = sent 0 s.logs

theorem State.Counted.moved (hc : s.Counted) (hs : Inv s) (hs' : Inv s')
    (h : s'.toState = s.toState.moved newOwner tokenId) : s'.Counted := by
  have hlogs : s'.logs = s.logs ++ [.transfer (s.owners tokenId) newOwner tokenId] :=
    congrArg ERC721.State.logs h
  constructor
  · intro owner howner
    have hbalance := hs.balance_moved howner newOwner tokenId
    have := hc.balances owner howner
    rw [hlogs, h, ERC721.received_transfer, ERC721.sent_transfer]
    omega
  · have hlength := hs.length_moved hs' h
    have := hc.all
    rw [hlogs, ERC721.received_transfer, ERC721.sent_transfer]
    omega

/-- What moves no token is not counted. -/
theorem State.Counted.congr {base : ERC721.State} (hc : s.Counted) (hs : Inv s) (hs' : Inv s')
    (hbase : s'.toState = base) (howners : base.owners = s.owners)
    (hbalances : base.balances = s.balances)
    (hreceived : ∀ a, received a base.logs = received a s.logs)
    (hsent : ∀ a, sent a base.logs = sent a s.logs) : s'.Counted := by
  have hlength : s'.allTokens.length = s.allTokens.length := by
    rw [← hs.all.ncard_eq, ← hs'.all.ncard_eq, ERC721.State.tokensOf, hbase, howners]
    rfl
  constructor
  · intro owner howner
    rw [hbase, hbalances, hreceived, hsent]
    exact hc.balances owner howner
  · rw [hlength, hbase, hreceived, hsent]
    exact hc.all

theorem State.Counted.approved (hc : s.Counted) (hs : Inv s) (hs' : Inv s') {approved : Address}
    {emitEvent : Bool} (h : s'.toState = s.toState.approved approved tokenId emitEvent) :
    s'.Counted :=
  hc.congr hs hs' h rfl rfl (fun _ => ERC721.received_approved ..)
    (fun _ => ERC721.sent_approved ..)

theorem State.Counted.operatorSet (hc : s.Counted) (hs : Inv s) (hs' : Inv s')
    {operator : Address} {approved : Bool}
    (h : s'.toState = s.toState.operatorSet owner operator approved) : s'.Counted :=
  hc.congr hs hs' h rfl rfl (fun _ => ERC721.received_approvalForAll ..)
    (fun _ => ERC721.sent_approvalForAll ..)

theorem State.Counted.act {action : Action} (hc : s.Counted) (hs : Inv s)
    (h : act action s = .ok s') : s'.Counted := by
  have hs' := hs.act h
  have heffect := act_effect h
  generalize hbase : s'.toState = base at heffect
  cases heffect with
  | approve sender approved tokenId => exact hc.approved hs hs' hbase
  | setApprovalForAll sender operator approved => exact hc.operatorSet hs hs' hbase
  | transferFrom sender newOwner tokenId => exact hc.moved hs hs' hbase
  | mint newOwner tokenId => exact hc.moved hs hs' hbase
  | burn tokenId => exact hc.moved hs hs' hbase
  | transfer newOwner tokenId => exact hc.moved hs hs' hbase
  | setApproval approved tokenId auth emitEvent => exact hc.approved hs hs' hbase
  | setApprovalForAllOf owner operator approved => exact hc.operatorSet hs hs' hbase
  | update newOwner tokenId auth => exact hc.moved hs hs' hbase

end Counted

theorem counted_deployed : deployed.Counted := ⟨fun _ _ => rfl, rfl⟩

/-- **Counting the events gives the balances**, and the number of tokens. -/
theorem balances_from_events (txs : List Tx) :
    let s := run (transact act) deployed txs
    (totalSupply s).toNat + received 0 s.logs = sent 0 s.logs ∧
      ∀ owner, owner ≠ 0 → ∃ balance, ERC721.balanceOf owner s.toState = .ok balance ∧
        balance.toNat + sent owner s.logs = received owner s.logs := by
  intro s
  have hrun : Inv s ∧ s.Counted :=
    ERC721.transact_invariant (I := fun s => Inv s ∧ s.Counted)
      (fun _ _ _ _ hs h => ⟨hs.1.act h, hs.2.act hs.1 h⟩) ⟨inv_deployed, counted_deployed⟩
  have hlength : (totalSupply s).toNat = s.allTokens.length := s.allTokens.toNat_length
  refine ⟨hlength ▸ hrun.2.all, fun owner howner => ?_⟩
  exact ⟨_, ERC721.balanceOf_eq howner _, hrun.2.balances owner howner⟩

/-! ## Nested calls -/

/-- **Nested calls are calls one after the other**: a run of transactions, with whatever the
receivers of tokens do in between, is a run of the actions in it that last, none of which fails,
in the order in which they are taken. It ends where it would have ended without the rejected
calls, and there is an event for each of the actions that is not silent, and for nothing else. -/
theorem nested_calls_sequential (s : State) (txs : List Tx) :
    let s' := run (transact act) s txs
    let actions := lasting act s txs
    actions.Sublist (txs.flatMap Tx.actions) ∧
      accepted act s actions = actions ∧ run act s actions = s' ∧
      run (transact act) s (prune txs) = s' ∧
      s'.logs.length = s.logs.length + actions.countP (·.silent = none) := by
  intro s' actions
  obtain ⟨hacc, hrun⟩ := ERC721.run_lasting act s txs
  refine ⟨ERC721.lasting_sublist s txs, hacc, hrun, ERC721.run_prune s txs, ?_⟩
  refine ERC721.lasting_induction (I := fun actions (s' : State) =>
    s'.logs.length = s.logs.length + actions.countP (·.silent = none)) rfl txs ?_
  intro action hist s₁ s₂ hlength hok
  rw [List.countP_append, List.countP_singleton]
  rcases (act_effect hok).tells with ⟨hloud, log, htells⟩ | ⟨tokenId, approved, hsilent, happroved⟩
  · rw [htells.logs, List.length_append, hlength, hloud]
    rfl
  · rw [happroved, hsilent]
    exact hlength

end ERC721Enumerable

end NftGame

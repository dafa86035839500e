import Mathlib.Algebra.Group.Nat.Defs
import NftGame.Transaction

/-!
# The template pallet

The pallet of the chain in `polkadot-sdk` (`pallets/template/src/lib.rs`), function by function.
It stores a block number, which every signer can set and every signer can increment, and deposits
an event when it is set.

Origins, storage, events and block numbers are those of the framework, which is not part of the
repository. So they are parameters here (`Config`), and what the pallet relies on is assumed of
them, each thing under a name (`Config.Lawful`). Who is a signer does not matter.

The pallet checks before it writes, so an extrinsic that fails has written nothing
(`dispatch_spec`). A block number that is incremented fails rather than wrap around. So what is
stored is what an unbounded counter would show after the same extrinsics (`count`), and the
outcome of the next extrinsic can be read off that counter (`value_run`).
-/

namespace NftGame

open Transaction

namespace TemplatePallet

/-! ## What the pallet declares -/

/-- What is stored. -/
structure CompositeStruct (BlockNumber : Type) : Type where
  /-- a block number -/
  blockNumber : BlockNumber
  deriving DecidableEq, Repr

/-- The events of the pallet. -/
inductive Event (BlockNumber AccountId : Type) : Type where
  /-- `SomethingStored { block_number, who }` -/
  | somethingStored : BlockNumber → AccountId → Event BlockNumber AccountId
  deriving DecidableEq, Repr

/-- The errors of the pallet. -/
inductive Error : Type where
  | noneValue : Error
  | storageOverflow : Error
  deriving DecidableEq, Repr

/-! ## What it takes from the framework -/

/-- What the pallet uses of the chain it is part of. -/
structure Config (Origin AccountId BlockNumber Storage DispatchError : Type) : Type where
  /-- `ensure_signed(origin)` -/
  ensureSigned : Origin → Except DispatchError AccountId
  /-- `bn.into()` -/
  into : BitVec 32 → BlockNumber
  /-- `One::one()` -/
  one : BlockNumber
  /-- `a.checked_add(&b)` -/
  checkedAdd : BlockNumber → BlockNumber → Option BlockNumber
  /-- `Something::get()` -/
  get : Storage → Option (CompositeStruct BlockNumber)
  /-- `Something::put(value)` -/
  put : CompositeStruct BlockNumber → Storage → Storage
  /-- `deposit_event(event)` -/
  depositEvent : Event BlockNumber AccountId → Storage → Storage
  /-- an error of the pallet, as a call returns it -/
  error : Error → DispatchError

variable {Origin AccountId BlockNumber Storage DispatchError : Type}

/-- What it relies on: storage keeps what is put there, events are recorded, and block numbers
are numbers up to some maximum. -/
structure Config.Lawful (T : Config Origin AccountId BlockNumber Storage DispatchError)
    (toNat : BlockNumber → ℕ) (maxValue : ℕ)
    (events : Storage → List (Event BlockNumber AccountId)) : Prop where
  /-- what has been put is what one gets -/
  get_put : ∀ value s, T.get (T.put value s) = some value
  /-- the record of events is not part of it -/
  get_depositEvent : ∀ event s, T.get (T.depositEvent event s) = T.get s
  /-- nor is it part of the record -/
  events_put : ∀ value s, events (T.put value s) = events s
  /-- a deposited event is the last of the block, which is not the genesis block -/
  events_depositEvent : ∀ event s, events (T.depositEvent event s) = events s ++ [event]
  /-- a number of 32 bits is kept -/
  toNat_into : ∀ bn, toNat (T.into bn) = bn.toNat
  /-- one is one -/
  toNat_one : toNat T.one = 1
  /-- a sum is exact -/
  toNat_checkedAdd : ∀ a b c, T.checkedAdd a b = some c → toNat c = toNat a + toNat b
  /-- there is none if it would be too large, and only then -/
  checkedAdd_none : ∀ a b, T.checkedAdd a b = none ↔ maxValue < toNat a + toNat b

/-! ## The pallet -/

/-- The dispatchable functions. -/
inductive Call : Type where
  /-- `do_something(bn)` -/
  | doSomething : BitVec 32 → Call
  /-- `cause_error()` -/
  | causeError : Call
  deriving DecidableEq, Repr

/-- A call with its origin. -/
structure Extrinsic (Origin : Type) : Type where
  /-- where it comes from -/
  origin : Origin
  /-- the function called, with its argument -/
  call : Call
  deriving DecidableEq, Repr

section Pallet

variable (T : Config Origin AccountId BlockNumber Storage DispatchError)

/-- `do_something(bn)`: store a block number. -/
def doSomething (origin : Origin) (bn : BitVec 32) :
    ExceptT DispatchError (StateM Storage) Unit := do
  let who ← MonadExcept.ofExcept (T.ensureSigned origin)
  let blockNumber := T.into bn
  modify (T.put { blockNumber })
  modify (T.depositEvent (.somethingStored blockNumber who))

/-- `cause_error()`: increment the block number that is stored. -/
def causeError (origin : Origin) : ExceptT DispatchError (StateM Storage) Unit := do
  let _who ← MonadExcept.ofExcept (T.ensureSigned origin)
  match T.get (← get) with
  | none => throw (T.error .noneValue)
  | some old =>
    match T.checkedAdd old.blockNumber T.one with
    | none => throw (T.error .storageOverflow)
    | some blockNumber => modify (T.put { old with blockNumber })

/-- Dispatch an extrinsic: its result, and the storage after it, also if it fails. -/
def dispatch (xt : Extrinsic Origin) (s : Storage) : Except DispatchError Unit × Storage :=
  match xt.call with
  | .doSomething bn => (doSomething T xt.origin bn).run.run s
  | .causeError => (causeError T xt.origin).run.run s

/-- The storage after some extrinsics. -/
def execute (s : Storage) (xts : List (Extrinsic Origin)) : Storage :=
  xts.foldl (fun s xt => (dispatch T xt s).2) s

/-- An extrinsic as a transaction, which has not happened if it fails. -/
def step (xt : Extrinsic Origin) (s : Storage) : Except DispatchError Storage :=
  match dispatch T xt s with
  | (.ok (), s') => .ok s'
  | (.error e, _) => .error e

end Pallet

/-! ## A counter without bounds -/

/-- Set the counter, or increment it if it has been set. -/
def count (v : Option ℕ) (xt : Extrinsic Origin) : Option ℕ :=
  match xt.call with
  | .doSomething bn => some bn.toNat
  | .causeError => v.map (· + 1)

section Counter

variable (T : Config Origin AccountId BlockNumber Storage DispatchError)

/-- What is stored, as a number. -/
def value (toNat : BlockNumber → ℕ) (s : Storage) : Option ℕ :=
  (T.get s).map fun something => toNat something.blockNumber

/-- The event an extrinsic deposits. -/
def event? (xt : Extrinsic Origin) : Option (Event BlockNumber AccountId) :=
  match T.ensureSigned xt.origin, xt.call with
  | .ok who, .doSomething bn => some (.somethingStored (T.into bn) who)
  | _, _ => none

/-- The error of an extrinsic when the counter shows `v`, if it fails. -/
def error? (maxValue : ℕ) (v : Option ℕ) (xt : Extrinsic Origin) : Option DispatchError :=
  match T.ensureSigned xt.origin, xt.call with
  | .error e, _ => some e
  | .ok _, .doSomething _ => none
  | .ok _, .causeError =>
    match v with
    | none => some (T.error .noneValue)
    | some v => if v < maxValue then none else some (T.error .storageOverflow)

end Counter

section Outcomes

variable {T : Config Origin AccountId BlockNumber Storage DispatchError}
  {toNat : BlockNumber → ℕ} {maxValue : ℕ} {events : Storage → List (Event BlockNumber AccountId)}

theorem causeError_signed {origin : Origin} {who : AccountId}
    (horigin : T.ensureSigned origin = .ok who) (s : Storage) :
    dispatch T ⟨origin, .causeError⟩ s =
      match T.get s with
      | none => (.error (T.error .noneValue), s)
      | some old =>
        match T.checkedAdd old.blockNumber T.one with
        | none => (.error (T.error .storageOverflow), s)
        | some blockNumber => (.ok (), T.put ⟨blockNumber⟩ s) := by
  have hrun : dispatch T ⟨origin, .causeError⟩ s =
      ((match T.get s with
        | none => throw (T.error .noneValue)
        | some old =>
          match T.checkedAdd old.blockNumber T.one with
          | none => throw (T.error .storageOverflow)
          | some blockNumber => modify (T.put { old with blockNumber }) :
        ExceptT DispatchError (StateM Storage) Unit).run.run s) := by
    simp only [dispatch, causeError, horigin]
    rfl
  rw [hrun]
  rcases T.get s with - | old
  · rfl
  · rcases hadd : T.checkedAdd old.blockNumber T.one with - | blockNumber
    · simp only [hadd]
      rfl
    · simp only [hadd]
      rfl

/-- **What an extrinsic does**: it fails as the counter says and has written nothing, or it does
to what is stored what it does to the counter. -/
theorem dispatch_spec (hT : T.Lawful toNat maxValue events) (xt : Extrinsic Origin)
    (s : Storage) :
    (∃ e, error? T maxValue (value T toNat s) xt = some e ∧ dispatch T xt s = (.error e, s)) ∨
      ∃ s', error? T maxValue (value T toNat s) xt = none ∧ dispatch T xt s = (.ok (), s') ∧
        value T toNat s' = count (value T toNat s) xt ∧
        events s' = events s ++ (event? T xt).toList := by
  obtain ⟨origin, call⟩ := xt
  rcases horigin : T.ensureSigned origin with e | who
  · -- both functions ask for the signer first
    refine .inl ⟨e, by simp only [error?, horigin], ?_⟩
    cases call with
    | doSomething bn =>
      simp only [dispatch, doSomething, horigin]
      rfl
    | causeError =>
      simp only [dispatch, causeError, horigin]
      rfl
  · cases call with
    | doSomething bn =>
      let stored := T.put ⟨T.into bn⟩ s
      refine .inr ⟨T.depositEvent (.somethingStored (T.into bn) who) stored, ?_, ?_, ?_, ?_⟩
      · simp only [error?, horigin]
      · simp only [dispatch, doSomething, horigin]
        rfl
      · rw [value, hT.get_depositEvent, hT.get_put]
        exact congrArg some (hT.toNat_into bn)
      · simp only [hT.events_depositEvent, stored, hT.events_put, event?, horigin]
        rfl
    | causeError =>
      rw [causeError_signed horigin]
      rcases hget : T.get s with - | old
      · refine .inl ⟨T.error .noneValue, ?_, rfl⟩
        simp only [error?, horigin, value, hget, Option.map_none]
      · have hnone := hT.checkedAdd_none old.blockNumber T.one
        rw [hT.toNat_one] at hnone
        rcases hadd : T.checkedAdd old.blockNumber T.one with - | blockNumber
        · have hmax : ¬ toNat old.blockNumber < maxValue := by
            have := hnone.mp hadd
            omega
          refine .inl ⟨T.error .storageOverflow, ?_, by simp only [hadd]⟩
          simp only [error?, horigin, value, hget, Option.map_some, hmax, if_false]
        · have hlt : toNat old.blockNumber < maxValue := by
            have : ¬ maxValue < toNat old.blockNumber + 1 := by
              rw [← hnone, hadd]
              exact nofun
            omega
          have hsum := hT.toNat_checkedAdd _ _ _ hadd
          rw [hT.toNat_one] at hsum
          refine .inr ⟨T.put ⟨blockNumber⟩ s, ?_, by simp only [hadd], ?_, ?_⟩
          · simp only [error?, horigin, value, hget, Option.map_some, hlt, if_true]
          · simp only [value, hT.get_put, count, hget, Option.map_some, hsum]
          · simp only [hT.events_put, event?, horigin, Option.toList_none, List.append_nil]

/-- The counter decides whether an extrinsic will go through. -/
theorem revert?_step (hT : T.Lawful toNat maxValue events) (s : Storage)
    (xt : Extrinsic Origin) :
    revert? (step T) s xt = error? T maxValue (value T toNat s) xt := by
  rcases dispatch_spec hT xt s with ⟨e, herror, hdispatch⟩ | ⟨s', herror, hdispatch, -⟩
  · have hfail : step T xt s = .error e := by rw [step, hdispatch]
    rw [herror, revert?_error hfail]
  · have hok : step T xt s = .ok s' := by rw [step, hdispatch]
    rw [herror, revert?_ok hok]

/-- An extrinsic that fails leaves the storage as it was, without being undone. -/
theorem dispatch_snd (hT : T.Lawful toNat maxValue events) (s : Storage) (xt : Extrinsic Origin) :
    (dispatch T xt s).2 = exec (step T) s xt := by
  rcases dispatch_spec hT xt s with ⟨e, -, hdispatch⟩ | ⟨s', -, hdispatch, -⟩
  · have hfail : step T xt s = .error e := by rw [step, hdispatch]
    rw [exec_error hfail, hdispatch]
  · have hok : step T xt s = .ok s' := by rw [step, hdispatch]
    rw [exec_ok hok, hdispatch]

theorem execute_eq_run (hT : T.Lawful toNat maxValue events) (s : Storage)
    (xts : List (Extrinsic Origin)) : execute T s xts = run (step T) s xts := by
  have hsame : (fun s xt => (dispatch T xt s).2) = exec (step T) := by
    funext s xt
    exact dispatch_snd hT s xt
  rw [execute, hsame, run]

theorem step_ok (hT : T.Lawful toNat maxValue events) {s s' : Storage} {xt : Extrinsic Origin}
    (h : step T xt s = .ok s') :
    value T toNat s' = count (value T toNat s) xt ∧
      events s' = events s ++ (event? T xt).toList := by
  rcases dispatch_spec hT xt s with ⟨e, -, hdispatch⟩ | ⟨s₁, -, hdispatch, hvalue, hevents⟩
  · rw [step, hdispatch] at h
    cases h
  · rw [step, hdispatch] at h
    cases h
    exact ⟨hvalue, hevents⟩

end Outcomes

/-- **The pallet counts**: after any extrinsics of a block, what is stored is what the counter
shows after those that have committed, the events are theirs, and the counter decides whether the
next extrinsic will go through. -/
theorem value_run {T : Config Origin AccountId BlockNumber Storage DispatchError}
    {toNat : BlockNumber → ℕ} {maxValue : ℕ} {events : Storage → List (Event BlockNumber AccountId)}
    (hT : T.Lawful toNat maxValue events) (s : Storage) (xts : List (Extrinsic Origin)) :
    let s' := execute T s xts
    let hist := accepted (step T) s xts
    let counter := hist.foldl count (value T toNat s)
    value T toNat s' = counter ∧ events s' = events s ++ hist.filterMap (event? T) ∧
      ∀ xt, revert? (step T) s' xt = error? T maxValue counter xt := by
  intro s' hist counter
  have hrun : value T toNat (run (step T) s xts) = counter ∧
      events (run (step T) s xts) = events s ++ hist.filterMap (event? T) := by
    refine accepted_induction (I := fun hist s' =>
      value T toNat s' = hist.foldl count (value T toNat s) ∧
        events s' = events s ++ hist.filterMap (event? T)) ⟨rfl, (List.append_nil _).symm⟩ xts ?_
    rintro xt - hist s₁ s₂ ⟨hvalue, hevents⟩ hok
    obtain ⟨hvalue', hevents'⟩ := step_ok hT hok
    refine ⟨?_, ?_⟩
    · rw [hvalue', hvalue, List.foldl_concat]
    · rw [hevents', hevents, List.filterMap_append, List.append_assoc]
      rcases hevent : event? T xt with - | event
      · rw [List.filterMap_cons_none hevent]
        rfl
      · rw [List.filterMap_cons_some hevent]
        rfl
  rw [← execute_eq_run hT] at hrun
  refine ⟨hrun.1, hrun.2, fun xt => ?_⟩
  rw [revert?_step hT, hrun.1]

/-- A chain to try the pallet on: origins are signers or nobody, and block numbers have 32 bits,
as those of the runtime. -/
def trial : Config (Option ℕ) ℕ (BitVec 32)
    (Option (CompositeStruct (BitVec 32)) × List (Event (BitVec 32) ℕ)) (Option Error) where
  ensureSigned
    | some who => .ok who
    | none => .error none
  into bn := bn
  one := 1
  checkedAdd a b := if a.toNat + b.toNat ≤ 2 ^ 32 - 1 then some (a + b) else none
  get s := s.1
  put something s := (some something, s.2)
  depositEvent event s := (s.1, s.2 ++ [event])
  error := some

theorem trial_lawful : trial.Lawful BitVec.toNat (2 ^ 32 - 1) (·.2) where
  get_put _ _ := rfl
  get_depositEvent _ _ := rfl
  events_put _ _ := rfl
  events_depositEvent _ _ := rfl
  toNat_into _ := rfl
  toNat_one := rfl
  toNat_checkedAdd a b c h := by
    simp only [trial, Option.ite_none_right_eq_some, Option.some.injEq] at h
    obtain ⟨hle, rfl⟩ := h
    exact BitVec.toNat_add_of_lt (by omega)
  checkedAdd_none a b := by
    simp only [trial]
    split
    · exact iff_of_false nofun (by omega)
    · exact iff_of_true rfl (by omega)

/-- Somebody stores the greatest number but one, and it is incremented twice, by a signer and by
nobody: the second time fails, and so would a third time. -/
theorem value_run_trial :
    let xts : List (Extrinsic (Option ℕ)) :=
      [⟨some 7, .doSomething 0xfffffffe⟩, ⟨some 8, .causeError⟩, ⟨none, .causeError⟩]
    let s' := execute trial (none, []) xts
    value trial BitVec.toNat s' = some 0xffffffff ∧ s'.2 = [.somethingStored 0xfffffffe 7] ∧
      revert? (step trial) s' ⟨some 9, .causeError⟩ = some (some .storageOverflow) := by
  intro xts s'
  obtain ⟨hvalue, hevents, herror⟩ := value_run trial_lawful (none, []) xts
  exact ⟨hvalue.trans (by decide), hevents.trans (by decide), (herror _).trans (by decide)⟩

end TemplatePallet

end NftGame

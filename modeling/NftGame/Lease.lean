import Mathlib.Data.List.Basic
import NftGame.Transaction

/-!
# A lease and its log

One party's lease of one item at a time: take an item while holding none, drop it while
holding one. The record of the lease (`Lease`) is not erased by a drop, only marked as
over, and the next take overwrites it.

The log of the takes and drops that went through determines everything that can be read
off the record: it alternates (`Log.alternates`), the lease is running exactly when its
last event is a take (`Log.active_iff`), it is then a lease of that take's item
(`Log.eq_of_take`), and the start time is that of the last take, running or not
(`Log.since_eq`).

A ledger of transactions may keep such a record for each of its parties (`OnLedger`).
Then every party's record follows the log of its own committed transactions
(`OnLedger.log`), and nobody ever holds an item exactly as long as no commit takes it
(`OnLedger.prefix_unheld_iff`).

Items, times and parties are elements of arbitrary types.
-/

universe u v w x y z

/-- The record of a party's current or last lease. -/
structure Lease (κ : Type u) (τ : Type v) : Type (max u v) where
  /-- the item leased -/
  item : κ
  /-- when it was taken -/
  since : τ
  /-- the lease is running -/
  active : Bool

namespace Lease

variable {κ : Type u} {τ : Type v}

/-- What a party can do. -/
inductive Event (κ : Type u) (τ : Type v) : Type (max u v) where
  /-- take an item at a time -/
  | take : κ → τ → Event κ τ
  /-- drop the item held -/
  | drop : Event κ τ
  deriving DecidableEq

/-- The event is a take. -/
def Event.isTake : Event κ τ → Bool
  | .take _ _ => true
  | .drop => false

/-- The time of a take. -/
def Event.since? : Event κ τ → Option τ
  | .take _ t => some t
  | .drop => none

/-- An event that goes through. -/
inductive Step (r : Lease κ τ) : Event κ τ → Lease κ τ → Prop where
  /-- nothing is held: the record is overwritten -/
  | take {k : κ} {t : τ} (h : r.active = false) : Step r (.take k t) ⟨k, t, true⟩
  /-- something is held: the record is marked as over -/
  | drop (h : r.active = true) : Step r .drop { r with active := false }

/-- The events of the list went through, oldest first, and led from `r₀` to `r`. -/
inductive Log (r₀ : Lease κ τ) : List (Event κ τ) → Lease κ τ → Prop where
  | nil : Log r₀ [] r₀
  | snoc {es : List (Event κ τ)} {e : Event κ τ} {r r' : Lease κ τ}
      (hlog : Log r₀ es r) (hstep : Step r e r') : Log r₀ (es ++ [e]) r'

/-- Takes and drops alternate strictly, beginning with a take. -/
def Alternates (es : List (Event κ τ)) : Prop :=
  ∀ i e, es[i]? = some e → (e.isTake = true ↔ i % 2 = 0)

section Log

variable {r₀ r r' : Lease κ τ} {es : List (Event κ τ)} {e : Event κ τ} {k : κ} {t : τ}

/-- A take goes through when nothing is held, a drop when something is. -/
theorem Step.isTake_iff (h : Step r e r') : e.isTake = true ↔ ¬ r.active = true := by
  cases h with
  | take h => exact iff_of_true rfl (Bool.eq_false_iff.mp h)
  | drop h => exact iff_of_false Bool.false_ne_true (not_not_intro h)

/-- What is held afterwards depends on the event alone. -/
theorem Step.active_eq (h : Step r e r') : r'.active = e.isTake := by
  cases h with
  | take h => rfl
  | drop h => rfl

/-- The lease is running after an odd number of events. -/
theorem Log.parity (h : Log r₀ es r) (h₀ : r₀.active = false) :
    r.active = true ↔ es.length % 2 = 1 := by
  induction h with
  | nil => simp [h₀]
  | snoc hlog hstep ih =>
    rw [hstep.active_eq, hstep.isTake_iff, ih, List.length_append, List.length_singleton]
    omega

/-- **A log alternates.** -/
theorem Log.alternates (h : Log r₀ es r) (h₀ : r₀.active = false) : Alternates es := by
  induction h with
  | nil =>
    intro i e he
    cases he
  | @snoc es e r r' hlog hstep ih =>
    intro i e' he'
    rcases Nat.lt_trichotomy i es.length with hi | hi | hi
    · rw [List.getElem?_append_left hi] at he'
      exact ih i e' he'
    · -- the new event: its kind is decided by how many there were before it
      subst hi
      rw [List.getElem?_concat_length] at he'
      obtain rfl := Option.some.inj he'
      rw [hstep.isTake_iff, hlog.parity h₀]
      omega
    · have hlen : (es ++ [e]).length ≤ i := by
        rw [List.length_append, List.length_singleton]
        omega
      rw [List.getElem?_eq_none hlen] at he'
      cases he'

/-- After a take the record is that take's. -/
theorem Log.eq_of_take (h : Log r₀ es r) (hlast : es.getLast? = some (.take k t)) :
    r = ⟨k, t, true⟩ := by
  cases h with
  | nil => cases hlast
  | snoc hlog hstep =>
    rw [List.getLast?_concat] at hlast
    obtain rfl := Option.some.inj hlast
    cases hstep with
    | take h => rfl

/-- **The lease is running exactly when the last event is a take.** -/
theorem Log.active_iff (h : Log r₀ es r) (h₀ : r₀.active = false) :
    r.active = true ↔ ∃ k t, es.getLast? = some (.take k t) := by
  refine ⟨fun hactive => ?_, ?_⟩
  · cases h with
    | nil =>
      rw [h₀] at hactive
      cases hactive
    | snoc hlog hstep =>
      cases hstep with
      | take h => exact ⟨_, _, List.getLast?_concat ..⟩
      | drop h => cases hactive
  · rintro ⟨k, t, hlast⟩
    rw [h.eq_of_take hlast]

/-- Without a drop there is no second take. -/
theorem Log.length_le_one (h : Log r₀ es r) (h₀ : r₀.active = false)
    (htakes : ∀ e ∈ es, e.isTake = true) : es.length ≤ 1 := by
  by_contra hlt
  rw [Nat.not_le] at hlt
  have htake := htakes es[1] (List.getElem_mem hlt)
  have heven := (h.alternates h₀ 1 es[1] (List.getElem?_eq_getElem hlt)).mp htake
  omega

/-- **The start time on record is that of the last take.** -/
theorem Log.since_eq (h : Log r₀ es r) :
    r.since = (es.filterMap Event.since?).getLastD r₀.since := by
  induction h with
  | nil => rfl
  | snoc hlog hstep ih =>
    rw [List.filterMap_append]
    cases hstep with
    | take h => exact (List.getLastD_concat ..).symm
    | drop h =>
      rw [List.filterMap_cons_none rfl, List.filterMap_nil, List.append_nil]
      exact ih

end Log

/-! ## Leases on a ledger -/

/-- The lease is running, and it is one of `k`. -/
def Holds (r : Lease κ τ) (k : κ) : Prop := r.active = true ∧ r.item = k

theorem not_holds_of_inactive {r : Lease κ τ} {k : κ} (h : r.active = false) : ¬ r.Holds k := by
  rintro ⟨hactive, -⟩
  rw [h] at hactive
  cases hactive

/-- What is held after an event depends on the event alone. -/
theorem Step.holds_iff {r r' : Lease κ τ} {e : Event κ τ} {k : κ} (h : Step r e r') :
    r'.Holds k ↔ ∃ t, e = .take k t := by
  cases h with
  | @take k' t h =>
    refine ⟨?_, ?_⟩
    · rintro ⟨-, rfl⟩
      exact ⟨t, rfl⟩
    · rintro ⟨_, htake⟩
      obtain ⟨rfl, -⟩ := Event.take.inj htake
      exact ⟨rfl, rfl⟩
  | drop h =>
    refine iff_of_false (not_holds_of_inactive rfl) ?_
    rintro ⟨_, htake⟩
    cases htake

section Ledger

open Transaction

variable {σ : Type w} {T : Type x} {ε : Type y} {α : Type z}

/-- The ledger keeps a lease for each party: to every party a commit is an event of its
lease that goes through, or nothing. -/
def OnLedger (step : T → σ → Except ε σ) (lease : σ → α → Lease κ τ)
    (event? : α → T → Option (Event κ τ)) : Prop :=
  ∀ t s s', step t s = .ok s' → ∀ a, (event? a t = none ∧ lease s' a = lease s a) ∨
    ∃ e, event? a t = some e ∧ Step (lease s a) e (lease s' a)

variable {step : T → σ → Except ε σ} {lease : σ → α → Lease κ τ}
  {event? : α → T → Option (Event κ τ)} {k : κ}

/-- **The lease of a party is where the log of its own commits leads.** -/
theorem OnLedger.log (h : OnLedger step lease event?) (s : σ) (ts : List T) (a : α) :
    Log (lease s a) ((accepted step s ts).filterMap (event? a))
      (lease (run step s ts) a) := by
  refine accepted_induction
    (I := fun hist s' => Log (lease s a) (hist.filterMap (event? a)) (lease s' a))
    .nil ts ?_
  intro t _ hist s₁ s₂ hlog hok
  rw [List.filterMap_append]
  rcases h t s₁ s₂ hok a with ⟨hnone, hsame⟩ | ⟨e, hsome, hstep⟩
  · rw [List.filterMap_cons_none hnone, List.filterMap_nil, List.append_nil, hsame]
    exact hlog
  · rw [List.filterMap_cons_some hsome, List.filterMap_nil]
    exact .snoc hlog hstep

/-- A commit leaves an item that nobody holds without a holder, unless somebody takes
it. -/
theorem OnLedger.unheld_iff (h : OnLedger step lease event?) {t : T} {s s' : σ}
    (hok : step t s = .ok s') (hs : ∀ a, ¬ (lease s a).Holds k) :
    (∀ a, ¬ (lease s' a).Holds k) ↔ ∀ a i, event? a t ≠ some (.take k i) := by
  refine forall_congr' fun a => ?_
  rcases h t s s' hok a with ⟨hnone, hsame⟩ | ⟨e, hsome, hstep⟩
  · rw [hnone, hsame]
    exact iff_of_true (hs a) fun i hi => by cases hi
  · rw [hsome, hstep.holds_iff, not_exists]
    simp only [ne_eq, Option.some.injEq]

/-- **Nobody ever holds `k` exactly as long as no commit takes it.** `P` is the condition
on the state before a transaction that keeps it from committing as a take of `k`. -/
theorem OnLedger.prefix_unheld_iff (h : OnLedger step lease event?) {P : σ → T → Prop}
    (hP : ∀ s t, P s t ↔ ∀ s', step t s = .ok s' → ∀ a i, event? a t ≠ some (.take k i))
    {s : σ} (hs : ∀ a, ¬ (lease s a).Holds k) (ts : List T) :
    (∀ pre, pre <+: ts → ∀ a, ¬ (lease (run step s pre) a).Holds k) ↔ Along step P s ts := by
  refine Along.prefix_iff (I := fun s => ∀ a, ¬ (lease s a).Holds k) (J := fun _ => True)
    (fun _ _ _ _ _ => trivial) ?_ trivial hs ts
  intro s t _ hs
  rw [hP]
  rcases step_cases step s t with hok | ⟨e, herr, hexec⟩
  · rw [h.unheld_iff hok hs]
    exact ⟨fun hcommit => hcommit _ hok, fun htake _ _ => htake⟩
  · -- nothing is committed, and nothing changes
    rw [hexec]
    refine iff_of_true (fun s' hok => ?_) hs
    rw [herr] at hok
    cases hok

end Ledger

end Lease

import Mathlib.Data.List.Basic
import Mathlib.Data.List.Infix

/-!
# Transactions that commit or revert

A ledger processes transactions one at a time. A transaction either commits, and
the state moves on, or it reverts, and nothing has happened: `step t s` is `.ok s'`
or `.error e`, and the execution of a whole list of transactions (`run`) skips the
ones that revert. `accepted` is what is left of the list after that skipping.

Nothing here knows what the states or the transactions are. The rules below are
the ones the contract proofs use by name:

* `run_invariant`, `accepted_induction` — induction over a run, without and with
  the history of committed transactions;
* `observed`, `observed_induction` — what the commits of a run show of themselves, and
  induction with that as the history;
* `Along` and `Along.prefix_iff` — a side condition on every step of a run, and
  when it is *exactly* what keeps an invariant alive;
* `run_lockstep` — two runs of the same list from two related states;
* `accepted_simulates`, `observed_simulates` — the committed transactions of one ledger,
  or what they show, replayed on another one;
* `Agree` — one step on two ledgers, with the same outcome;
* `LeadsTo`, `flatten` — the transactions a transaction is made of, when it can contain
  others;
* `CommutesAt` — two transactions whose order cannot be observed.
-/

namespace Transaction

universe u v w

variable {σ : Type u} {τ : Type v} {ε : Type w} (step : τ → σ → Except ε σ)

/-! ## Executing -/

/-- Execute one transaction: move to its new state, or stay put if it reverts. -/
def exec (s : σ) (t : τ) : σ :=
  match step t s with
  | .ok s' => s'
  | .error _ => s

/-- The error `t` reverts with in `s`; `none` if it commits. -/
def revert? (s : σ) (t : τ) : Option ε :=
  match step t s with
  | .ok _ => none
  | .error e => some e

/-- Execute a list of transactions, in order. -/
def run (s : σ) (ts : List τ) : σ := ts.foldl (exec step) s

/-- The transactions of the list that commit, in order. -/
def accepted : σ → List τ → List τ
  | _, [] => []
  | s, t :: ts =>
    match step t s with
    | .ok s' => t :: accepted s' ts
    | .error _ => accepted s ts

/-- What is observed along a run: `obs s t` for each transaction `t` that commits, where
`s` is the state it commits in. -/
def observed {β : Type*} (obs : σ → τ → List β) : σ → List τ → List β
  | _, [] => []
  | s, t :: ts =>
    match step t s with
    | .ok s' => obs s t ++ observed obs s' ts
    | .error _ => observed obs s ts

variable {step}

theorem exec_ok {s s' : σ} {t : τ} (h : step t s = .ok s') : exec step s t = s' := by
  rw [exec, h]

theorem exec_error {s : σ} {t : τ} {e : ε} (h : step t s = .error e) :
    exec step s t = s := by
  rw [exec, h]

theorem revert?_ok {s s' : σ} {t : τ} (h : step t s = .ok s') : revert? step s t = none := by
  rw [revert?, h]

theorem revert?_error {s : σ} {t : τ} {e : ε} (h : step t s = .error e) :
    revert? step s t = some e := by
  rw [revert?, h]

/-- A transaction without an error commits. -/
theorem step_of_revert?_none {s : σ} {t : τ} (h : revert? step s t = none) :
    step t s = .ok (exec step s t) := by
  rcases hstep : step t s with e | s'
  · rw [revert?_error hstep] at h
    cases h
  · rw [exec_ok hstep]

/-- A transaction with an error changes nothing. -/
theorem exec_of_revert?_some {s : σ} {t : τ} {e : ε} (h : revert? step s t = some e) :
    exec step s t = s := by
  rcases hstep : step t s with e' | s'
  · rw [exec_error hstep]
  · rw [revert?_ok hstep] at h
    cases h

variable (step) in
/-- A transaction commits or reverts, and `exec` says which state follows. -/
theorem step_cases (s : σ) (t : τ) :
    step t s = .ok (exec step s t) ∨ ∃ e, step t s = .error e ∧ exec step s t = s := by
  rcases h : step t s with e | s'
  · exact .inr ⟨e, rfl, exec_error h⟩
  · exact .inl (by rw [exec_ok h])

@[simp] theorem run_nil (s : σ) : run step s [] = s := rfl

@[simp] theorem run_cons (s : σ) (t : τ) (ts : List τ) :
    run step s (t :: ts) = run step (exec step s t) ts := rfl

@[simp] theorem run_append (s : σ) (ts us : List τ) :
    run step s (ts ++ us) = run step (run step s ts) us := by
  simp only [run, List.foldl_append]

@[simp] theorem accepted_nil (s : σ) : accepted step s [] = [] := rfl

theorem accepted_cons_ok {s s' : σ} {t : τ} {ts : List τ} (h : step t s = .ok s') :
    accepted step s (t :: ts) = t :: accepted step s' ts := by
  rw [accepted, h]

theorem accepted_cons_error {s : σ} {t : τ} {e : ε} {ts : List τ}
    (h : step t s = .error e) : accepted step s (t :: ts) = accepted step s ts := by
  rw [accepted, h]

/-- The transactions accepted from a whole list are those accepted from its parts. -/
theorem accepted_append (s : σ) (ts us : List τ) :
    accepted step s (ts ++ us) = accepted step s ts ++ accepted step (run step s ts) us := by
  induction ts generalizing s with
  | nil => rfl
  | cons t ts ih =>
    rcases step_cases step s t with hok | ⟨e, herr, hexec⟩
    · rw [List.cons_append, accepted_cons_ok hok, ih, accepted_cons_ok hok, run_cons,
        List.cons_append]
    · rw [List.cons_append, accepted_cons_error herr, ih, accepted_cons_error herr, run_cons,
        hexec]

/-! ## Invariants -/

/-- What a transaction preserves if it commits, executing it preserves. -/
theorem exec_invariant {I : σ → Prop} {s : σ} {t : τ} (hs : I s)
    (hstep : ∀ s', step t s = .ok s' → I s') : I (exec step s t) := by
  rcases step_cases step s t with hok | ⟨e, -, hexec⟩
  · exact hstep _ hok
  · rw [hexec]
    exact hs

/-- **Invariant rule**: what every commit preserves, every run preserves. -/
theorem run_invariant {I : σ → Prop}
    (hstep : ∀ s t s', I s → step t s = .ok s' → I s') {s : σ} (hs : I s) (ts : List τ) :
    I (run step s ts) := by
  induction ts generalizing s with
  | nil => exact hs
  | cons t ts ih =>
    rw [run_cons]
    apply ih
    exact exec_invariant hs fun s' h => hstep s t s' hs h

/-- **Invariant rule with history**: `I` may also speak of the transactions
committed so far, oldest first. Each new commit is appended at the end. -/
theorem accepted_induction {I : List τ → σ → Prop} {s : σ} (hs : I [] s) (ts : List τ)
    (hstep : ∀ t ∈ ts, ∀ hist s s', I hist s → step t s = .ok s' → I (hist ++ [t]) s') :
    I (accepted step s ts) (run step s ts) := by
  -- the induction needs an arbitrary history already behind it
  suffices H : ∀ (ts : List τ) (hist : List τ) (s : σ),
      (∀ t ∈ ts, ∀ hist s s', I hist s → step t s = .ok s' → I (hist ++ [t]) s') →
      I hist s → I (hist ++ accepted step s ts) (run step s ts) from H ts [] s hstep hs
  intro ts
  induction ts with
  | nil =>
    intro hist s _ h
    rw [accepted_nil, List.append_nil]
    exact h
  | cons t ts ih =>
    intro hist s hstep h
    have hrest := fun t' ht' => hstep t' (List.mem_cons_of_mem _ ht')
    rcases step_cases step s t with hok | ⟨e, herr, hexec⟩
    · have := ih (hist ++ [t]) _ hrest (hstep t (List.mem_cons_self ..) _ _ _ h hok)
      rw [accepted_cons_ok hok, run_cons]
      rwa [List.append_assoc, List.singleton_append] at this
    · rw [accepted_cons_error herr, run_cons, hexec]
      exact ih hist s hrest h

/-- A transaction that is accepted was on the list. -/
theorem mem_of_accepted {s : σ} {ts : List τ} {t : τ} (h : t ∈ accepted step s ts) : t ∈ ts := by
  refine accepted_induction (I := fun hist _ => ∀ t ∈ hist, t ∈ ts) ?_ ts ?_ t h
  · intro t ht
    cases ht
  · intro t ht hist s s' hhist _ t' ht'
    rcases List.mem_append.mp ht' with hold | hnew
    · exact hhist t' hold
    · rwa [List.mem_singleton.mp hnew]

/-! ## Observations -/

section Observed

variable {β : Type*} {obs : σ → τ → List β}

theorem observed_cons_ok {s s' : σ} {t : τ} {ts : List τ} (h : step t s = .ok s') :
    observed step obs s (t :: ts) = obs s t ++ observed step obs s' ts := by
  rw [observed, h]

theorem observed_cons_error {s : σ} {t : τ} {e : ε} {ts : List τ}
    (h : step t s = .error e) : observed step obs s (t :: ts) = observed step obs s ts := by
  rw [observed, h]

/-- What has been observed stays observed: a longer run adds at the end. -/
theorem observed_append (s : σ) (ts us : List τ) :
    observed step obs s (ts ++ us) =
      observed step obs s ts ++ observed step obs (run step s ts) us := by
  induction ts generalizing s with
  | nil => rfl
  | cons t ts ih =>
    rcases step_cases step s t with hok | ⟨e, herr, hexec⟩
    · rw [List.cons_append, observed_cons_ok hok, ih, observed_cons_ok hok, run_cons,
        List.append_assoc]
    · rw [List.cons_append, observed_cons_error herr, ih, observed_cons_error herr, run_cons,
        hexec]

/-- **Invariant rule with observations**: `I` relates what has been observed to the state
reached. -/
theorem observed_induction {I : List β → σ → Prop} {s : σ} (hs : I [] s) (ts : List τ)
    (hstep : ∀ t ∈ ts, ∀ hist s s', I hist s → step t s = .ok s' → I (hist ++ obs s t) s') :
    I (observed step obs s ts) (run step s ts) := by
  -- as for `accepted_induction`, with an arbitrary history already behind it
  suffices H : ∀ (ts : List τ) (hist : List β) (s : σ),
      (∀ t ∈ ts, ∀ hist s s', I hist s → step t s = .ok s' → I (hist ++ obs s t) s') →
      I hist s → I (hist ++ observed step obs s ts) (run step s ts) from H ts [] s hstep hs
  intro ts
  induction ts with
  | nil =>
    intro hist s _ h
    rw [observed, List.append_nil]
    exact h
  | cons t ts ih =>
    intro hist s hstep h
    have hrest := fun t' ht' => hstep t' (List.mem_cons_of_mem _ ht')
    rcases step_cases step s t with hok | ⟨e, herr, hexec⟩
    · have := ih (hist ++ obs s t) _ hrest (hstep t (List.mem_cons_self ..) _ _ _ h hok)
      rw [observed_cons_ok hok, run_cons]
      rwa [List.append_assoc] at this
    · rw [observed_cons_error herr, run_cons, hexec]
      exact ih hist s hrest h

/-- What is observed is observed at some commit of the run. -/
theorem mem_observed_iff {s : σ} {ts : List τ} {b : β} : b ∈ observed step obs s ts ↔
    ∃ pre t post s', ts = pre ++ t :: post ∧ step t (run step s pre) = .ok s' ∧
      b ∈ obs (run step s pre) t := by
  constructor
  · induction ts generalizing s with
    | nil =>
      intro h
      cases h
    | cons t ts ih =>
      intro h
      have hlater : b ∈ observed step obs (exec step s t) ts → ∃ pre t' post s',
          t :: ts = pre ++ t' :: post ∧ step t' (run step s pre) = .ok s' ∧
            b ∈ obs (run step s pre) t' := by
        intro h
        obtain ⟨pre, t', post, s', rfl, hcommit⟩ := ih h
        exact ⟨t :: pre, t', post, s', rfl, hcommit⟩
      rcases step_cases step s t with hok | ⟨e, herr, hexec⟩
      · rw [observed_cons_ok hok, List.mem_append] at h
        exact h.elim (fun hnow => ⟨[], t, ts, _, rfl, hok, hnow⟩) hlater
      · rw [observed_cons_error herr] at h
        exact hlater (by rwa [hexec])
  · rintro ⟨pre, t, post, s', rfl, hok, hb⟩
    rw [observed_append, observed_cons_ok hok]
    exact List.mem_append_right _ (List.mem_append_left _ hb)

/-- **Conservation**: if every commit takes in what `obs` shows and gives out what `obs'`
shows, then over a run all that was held or taken in is given out or still held. -/
theorem observed_conserves {obs' : σ → τ → List β} (held : σ → List β)
    (hstep : ∀ s t s', step t s = .ok s' → (held s ++ obs s t).Perm (obs' s t ++ held s'))
    (s : σ) (ts : List τ) :
    (held s ++ observed step obs s ts).Perm
      (observed step obs' s ts ++ held (run step s ts)) := by
  induction ts generalizing s with
  | nil =>
    rw [observed, List.append_nil]
    rfl
  | cons t ts ih =>
    rcases step_cases step s t with hok | ⟨e, herr, hexec⟩
    · rw [observed_cons_ok hok, observed_cons_ok hok, run_cons, ← List.append_assoc,
        List.append_assoc (obs' s t)]
      refine ((hstep s t _ hok).append_right _).trans ?_
      rw [List.append_assoc]
      exact (ih _).append_left _
    · rw [observed_cons_error herr, observed_cons_error herr, run_cons, hexec]
      exact ih s

/-- Two ways of observing a run, related commit by commit. -/
theorem observed_rel {γ : Type*} {obs' : σ → τ → List γ} {R : List β → List γ → Prop}
    (hnil : R [] []) (happend : ∀ l m l' m', R l m → R l' m' → R (l ++ l') (m ++ m'))
    (hobs : ∀ s t, R (obs s t) (obs' s t)) (s : σ) (ts : List τ) :
    R (observed step obs s ts) (observed step obs' s ts) := by
  induction ts generalizing s with
  | nil => exact hnil
  | cons t ts ih =>
    rcases step_cases step s t with hok | ⟨e, herr, hexec⟩
    · rw [observed_cons_ok hok, observed_cons_ok hok]
      exact happend _ _ _ _ (hobs s t) (ih _)
    · rw [observed_cons_error herr, observed_cons_error herr]
      exact ih s

end Observed

/-! ## Side conditions on the steps of a run -/

/-- `P` holds of every transaction of the list, each in the state it is executed
in (whether it then commits or reverts). -/
def Along (step : τ → σ → Except ε σ) (P : σ → τ → Prop) : σ → List τ → Prop
  | _, [] => True
  | s, t :: ts => P s t ∧ Along step P (exec step s t) ts

@[simp] theorem along_cons {P : σ → τ → Prop} {s : σ} {t : τ} {ts : List τ} :
    Along step P s (t :: ts) ↔ P s t ∧ Along step P (exec step s t) ts := Iff.rfl

instance decidableAlong {P : σ → τ → Prop} [∀ s t, Decidable (P s t)] (s : σ) :
    (ts : List τ) → Decidable (Along step P s ts)
  | [] => isTrue trivial
  | t :: ts =>
    have : Decidable (Along step P (exec step s t) ts) := decidableAlong _ ts
    inferInstanceAs (Decidable (_ ∧ _))

/-- If, in the presence of an invariant `J`, a step keeps `I` exactly when it meets
`P`, then `I` holds in *every* state of a run exactly when every step of it meets
`P`. -/
theorem Along.prefix_iff {I J : σ → Prop} {P : σ → τ → Prop}
    (hJ : ∀ s t s', J s → step t s = .ok s' → J s')
    (hP : ∀ s t, J s → I s → (P s t ↔ I (exec step s t)))
    {s : σ} (hJs : J s) (hIs : I s) (ts : List τ) :
    (∀ pre, pre <+: ts → I (run step s pre)) ↔ Along step P s ts := by
  induction ts generalizing s with
  | nil =>
    refine ⟨fun _ => trivial, ?_⟩
    intro _ pre hpre
    rw [List.prefix_nil.mp hpre]
    exact hIs
  | cons t ts ih =>
    have hJt : J (exec step s t) := run_invariant hJ hJs [t]
    rw [along_cons, hP s t hJs hIs]
    constructor
    · intro h
      have hIt : I (exec step s t) := h [t] (List.prefix_iff_eq_append.mpr rfl)
      refine ⟨hIt, (ih hJt hIt).mp ?_⟩
      intro pre hpre
      exact h (t :: pre) (List.cons_prefix_cons.mpr ⟨rfl, hpre⟩)
    · rintro ⟨hIt, halong⟩ pre hpre
      cases pre with
      | nil => exact hIs
      | cons t' pre =>
        obtain ⟨rfl, htail⟩ := List.cons_prefix_cons.mp hpre
        exact (ih hJt hIt).mpr halong pre htail

/-- **Lockstep**: a relation kept by executing one transaction on both sides is
kept by executing a list on both sides. -/
theorem run_lockstep {R : σ → σ → Prop} {P : σ → τ → Prop}
    (hstep : ∀ s₁ s₂ t, P s₁ t → R s₁ s₂ → R (exec step s₁ t) (exec step s₂ t))
    {s₁ s₂ : σ} {ts : List τ} (hP : Along step P s₁ ts) (hR : R s₁ s₂) :
    R (run step s₁ ts) (run step s₂ ts) := by
  induction ts generalizing s₁ s₂ with
  | nil => exact hR
  | cons t ts ih =>
    obtain ⟨hPt, hPts⟩ := hP
    exact ih hPts (hstep _ _ _ hPt hR)

/-! ## Replaying the committed transactions elsewhere -/

section Simulation

universe u' v' w'

variable {σ' : Type u'} {τ' : Type v'} {ε' : Type w'} {step' : τ' → σ' → Except ε' σ'}

/-- **Simulation with erasure**: every commit of the first ledger is either
invisible to the second (`erase t = none`) or matched by a commit there. Then the
erased list of commits is accepted in full and ends in a related state. -/
theorem accepted_simulates {R : σ → σ' → Prop} {erase : τ → Option τ'}
    (hnone : ∀ s s₂ t s', erase t = none → R s s₂ → step t s = .ok s' → R s' s₂)
    (hsome : ∀ s s₂ t t₂ s', erase t = some t₂ → R s s₂ → step t s = .ok s' →
      ∃ s₂', step' t₂ s₂ = .ok s₂' ∧ R s' s₂')
    {s : σ} {s₂ : σ'} (hR : R s s₂) (ts : List τ) :
    accepted step' s₂ ((accepted step s ts).filterMap erase) =
        (accepted step s ts).filterMap erase ∧
      R (run step s ts) (run step' s₂ ((accepted step s ts).filterMap erase)) := by
  induction ts generalizing s s₂ with
  | nil => exact ⟨rfl, hR⟩
  | cons t ts ih =>
    rcases step_cases step s t with hok | ⟨e, herr, hexec⟩
    · rw [accepted_cons_ok hok, run_cons]
      rcases ht : erase t with _ | t₂
      · rw [List.filterMap_cons_none ht]
        exact ih (hnone _ _ _ _ ht hR hok)
      · obtain ⟨s₂', hok₂, hR'⟩ := hsome _ _ _ _ _ ht hR hok
        obtain ⟨hacc, hrun⟩ := ih hR'
        rw [List.filterMap_cons_some ht, accepted_cons_ok hok₂, hacc, run_cons,
          exec_ok hok₂]
        exact ⟨rfl, hrun⟩
    · rw [accepted_cons_error herr, run_cons, hexec]
      exact ih hR

/-- **Simulation by observations**: whatever a commit of the first ledger shows of itself
is accepted in full by the second, and leads there to a related state. Then so is all that
a run shows. -/
theorem observed_simulates {R : σ → σ' → Prop} {obs : σ → τ → List τ'}
    (hstep : ∀ s s₂ t s', R s s₂ → step t s = .ok s' →
      accepted step' s₂ (obs s t) = obs s t ∧ R s' (run step' s₂ (obs s t)))
    {s : σ} {s₂ : σ'} (hR : R s s₂) (ts : List τ) :
    accepted step' s₂ (observed step obs s ts) = observed step obs s ts ∧
      R (run step s ts) (run step' s₂ (observed step obs s ts)) := by
  refine observed_induction (I := fun hist s' =>
    accepted step' s₂ hist = hist ∧ R s' (run step' s₂ hist)) ⟨rfl, hR⟩ ts ?_
  rintro t - hist s s' ⟨hacc, hR⟩ hok
  obtain ⟨hacc', hR'⟩ := hstep _ _ _ _ hR hok
  rw [accepted_append, run_append, hacc, hacc']
  exact ⟨rfl, hR'⟩

end Simulation

/-! ## Outcomes that agree -/

section Agree

universe u'

variable {α β : Type u} {α' β' : Type u'} {R : α → α' → Prop} {S : β → β' → Prop}

/-- Both commit, to related states, or both revert with the same error. -/
inductive Agree (R : α → α' → Prop) : Except ε α → Except ε α' → Prop where
  | ok {a : α} {a' : α'} (h : R a a') : Agree R (.ok a) (.ok a')
  | error (e : ε) : Agree R (.error e) (.error e)

theorem Agree.mono {S : α → α' → Prop} {x : Except ε α} {x' : Except ε α'} (h : Agree R x x')
    (hRS : ∀ a a', R a a' → S a a') : Agree S x x' := by
  cases h with
  | ok h => exact .ok (hRS _ _ h)
  | error e => exact .error e

/-- What follows two outcomes that agree has to agree on related states only. -/
theorem Agree.bind {x : Except ε α} {x' : Except ε α'} {k : α → Except ε β}
    {k' : α' → Except ε β'} (h : Agree R x x')
    (hk : ∀ a a', R a a' → Agree S (k a) (k' a')) : Agree S (x >>= k) (x' >>= k') := by
  cases h with
  | ok h => exact hk _ _ h
  | error e => exact .error e

/-- Executing a step with outcomes that agree keeps two states related. -/
theorem Agree.exec {τ' : Type*} {R : σ → α' → Prop} {step' : τ' → α' → Except ε α'} {s : σ}
    {s' : α'} {t : τ} {t' : τ'} (h : Agree R (step t s) (step' t' s')) (hR : R s s') :
    R (exec step s t) (exec step' s' t') := by
  rcases step_cases step s t with hok | ⟨e, herr, hexec⟩
  · rw [hok] at h
    generalize hx : step' t' s' = x at h
    cases h with
    | ok h => rwa [exec_ok hx]
  · rw [herr] at h
    generalize hx : step' t' s' = x at h
    cases h with
    | error => rwa [hexec, exec_error hx]

end Agree

/-! ## Transactions within transactions -/

section Nested

variable (step) in
/-- The transactions of the list lead from `s` to `s'`, and each of them commits on the way. -/
def LeadsTo (s : σ) (ts : List τ) (s' : σ) : Prop :=
  accepted step s ts = ts ∧ run step s ts = s'

theorem LeadsTo.nil (s : σ) : LeadsTo step s [] s := ⟨rfl, rfl⟩

theorem LeadsTo.cons {s s' s'' : σ} {t : τ} {ts : List τ} (h : step t s = .ok s')
    (h' : LeadsTo step s' ts s'') : LeadsTo step s (t :: ts) s'' := by
  obtain ⟨hacc, hrun⟩ := h'
  refine ⟨?_, ?_⟩
  · rw [accepted_cons_ok h, hacc]
  · rw [run_cons, exec_ok h, hrun]

theorem LeadsTo.append {s s' s'' : σ} {ts ts' : List τ} (h : LeadsTo step s ts s')
    (h' : LeadsTo step s' ts' s'') : LeadsTo step s (ts ++ ts') s'' := by
  obtain ⟨hacc, rfl⟩ := h
  obtain ⟨hacc', rfl⟩ := h'
  refine ⟨?_, run_append s ts ts'⟩
  rw [accepted_append, hacc, hacc']

/-- **Invariant rule along the way**: what holds of the history and the state is kept by each
of the transactions. -/
theorem LeadsTo.induction {I : List τ → σ → Prop} {s s' : σ} {ts : List τ}
    (h : LeadsTo step s ts s') (hs : I [] s)
    (hstep : ∀ t ∈ ts, ∀ hist s s', I hist s → step t s = .ok s' → I (hist ++ [t]) s') :
    I ts s' := by
  obtain ⟨hacc, rfl⟩ := h
  have hall := accepted_induction hs ts hstep
  rwa [hacc] at hall

universe u' v'

variable {τ' : Type u'} {ε' : Type v'} {step' : τ' → σ → Except ε' σ} {parts : σ → τ' → List τ}

variable (step parts) in
/-- What the transactions of a list are made of: `parts s t` for each of them, where `s` is the
state to which those before it have led. -/
def flatten : σ → List τ' → List τ
  | _, [] => []
  | s, t :: ts => parts s t ++ flatten (run step s (parts s t)) ts

/-- **Flattening**: if every transaction of a ledger is a way through commits of a plainer one,
then so is every run. -/
theorem leadsTo_flatten (hparts : ∀ s t, LeadsTo step s (parts s t) (exec step' s t)) (s : σ)
    (ts : List τ') : LeadsTo step s (flatten step parts s ts) (run step' s ts) := by
  induction ts generalizing s with
  | nil => exact .nil s
  | cons t ts ih =>
    rw [flatten, run_cons, (hparts s t).2]
    exact (hparts s t).append (ih _)

theorem flatten_sublist {flat : τ' → List τ} (hparts : ∀ s t, (parts s t).Sublist (flat t))
    (s : σ) (ts : List τ') : (flatten step parts s ts).Sublist (ts.flatMap flat) := by
  induction ts generalizing s with
  | nil => exact .slnil
  | cons t ts ih =>
    rw [flatten, List.flatMap_cons]
    exact (hparts s t).append (ih _)

end Nested

/-! ## Commuting transactions -/

/-- The order of `x` and `y` cannot be observed from `s`: the final state is the
same, and each of them commits, or reverts with the same error, in both orders. -/
def CommutesAt (step : τ → σ → Except ε σ) (s : σ) (x y : τ) : Prop :=
  exec step (exec step s x) y = exec step (exec step s y) x ∧
    revert? step (exec step s y) x = revert? step s x ∧
    revert? step (exec step s x) y = revert? step s y

/-- A commit still goes through after a transaction it commutes with, and leads to where
that one leads after it. -/
theorem CommutesAt.step_ok {s s' : σ} {x y : τ} (h : CommutesAt step s x y)
    (hx : step x s = .ok s') : step x (exec step s y) = .ok (exec step s' y) := by
  obtain ⟨hstate, hx', -⟩ := h
  rw [revert?_ok hx] at hx'
  rw [step_of_revert?_none hx', ← hstate, exec_ok hx]

/-- **Frame rule**: two transactions commute if the commit of one does not change the
outcome of the other, and both commits, one after the other, lead to the same state
either way. -/
theorem CommutesAt.of_frame {s : σ} {x y : τ}
    (hx : ∀ s', step y s = .ok s' → revert? step s' x = revert? step s x)
    (hy : ∀ s', step x s = .ok s' → revert? step s' y = revert? step s y)
    (hxy : ∀ s₁ s₂ s₃ s₄, step x s = .ok s₁ → step y s = .ok s₂ → step y s₁ = .ok s₃ →
      step x s₂ = .ok s₄ → s₃ = s₄) : CommutesAt step s x y := by
  have hx' : revert? step (exec step s y) x = revert? step s x :=
    exec_invariant (I := fun s' => revert? step s' x = revert? step s x) rfl hx
  have hy' : revert? step (exec step s x) y = revert? step s y :=
    exec_invariant (I := fun s' => revert? step s' y = revert? step s y) rfl hy
  refine ⟨?_, hx', hy'⟩
  rcases step_cases step s x with hokx | ⟨e, herr, hexec⟩
  · rcases step_cases step s y with hoky | ⟨e, herr, hexec⟩
    · rw [revert?_ok hokx] at hx'
      rw [revert?_ok hoky] at hy'
      exact hxy _ _ _ _ hokx hoky (step_of_revert?_none hy') (step_of_revert?_none hx')
    · rw [revert?_error herr] at hy'
      rw [exec_of_revert?_some hy', hexec]
  · rw [revert?_error herr] at hx'
    rw [exec_of_revert?_some hx', hexec]

end Transaction

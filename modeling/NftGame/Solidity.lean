import Mathlib.Algebra.Group.Nat.Defs
import Mathlib.Data.List.Basic
import NftGame.FirstMatch

/-!
# The Solidity the contracts are written in

Just enough of the language (0.8, checked arithmetic) to write a contract function
as a Lean `do` block that reads like its source:

* a function that can revert returns `Except Revert`, so `require`, a failed bounds
  check and an arithmetic overflow all end the call;
* `uint256` and `address` are bit vectors of their width;
* a dynamic array (`DynArray`) has fewer than `2 ^ 64` entries, by construction, and
  every access to it is bounds-checked (that is the bound for arrays in memory; one in
  storage could have one entry more, which is left out here);
* a counting loop is `for i in List.range n do`, with `break`.

Loop counters are natural numbers: they count entries of a `DynArray`, and so stay
far below the point where `i++` could overflow.

The second half is the proof rule for such loops (`forIn_range_rule`) and what it
gives for a loop that writes to the first entry it likes and breaks
(`DynArray.forIn_updateFirst`).
-/

namespace Solidity

universe u v

/-! ## Values and reverts -/

/-- `uint256`. -/
abbrev UInt256 : Type := BitVec 256

/-- `address`. -/
abbrev Address : Type := BitVec 160

/-- Why a call reverted: `Error(string)` from a `require`, or a `Panic(uint256)`
raised by the compiler's own checks. -/
inductive Revert : Type where
  /-- a failed `require`, with its message -/
  | error : String → Revert
  /-- a failed check of the compiler, with its code -/
  | panic : ℕ → Revert
  deriving DecidableEq, Repr

/-- The part of the call environment the contracts read. -/
structure Env : Type where
  /-- `msg.sender` -/
  sender : Address
  /-- `block.timestamp` -/
  timestamp : UInt256
  deriving DecidableEq, Repr

/-- `require(condition, message)`. -/
def require (condition : Bool) (message : String) : Except Revert Unit :=
  if condition then .ok () else .error (.error message)

/-- A call that has returned hands its value on. -/
@[simp] theorem ok_bind {ε α β : Type u} (x : α) (k : α → Except ε β) :
    (Except.ok x >>= k) = k x := rfl

/-- What returns in the end has returned at every step. -/
theorem bind_eq_ok {ε α β : Type u} {x : Except ε α} {k : α → Except ε β} {b : β}
    (h : (x >>= k) = .ok b) : ∃ a, x = .ok a ∧ k a = .ok b := by
  rcases x with e | a
  · cases h
  · exact ⟨a, rfl, h⟩

/-- `a + b` on `uint256`: panics with `0x11` on overflow. -/
def checkedAdd (a b : UInt256) : Except Revert UInt256 :=
  if a.toNat + b.toNat < 2 ^ 256 then .ok (a + b) else .error (.panic 0x11)

theorem checkedAdd_ok {a b : UInt256} (h : a.toNat + b.toNat < 2 ^ 256) :
    checkedAdd a b = .ok (a + b) := by
  rw [checkedAdd, if_pos h]

/-- `a - b` on `uint256`: panics with `0x11` below zero. -/
def checkedSub (a b : UInt256) : Except Revert UInt256 :=
  if b ≤ a then .ok (a - b) else .error (.panic 0x11)

theorem checkedSub_ok {a b : UInt256} (h : b ≤ a) : checkedSub a b = .ok (a - b) := by
  rw [checkedSub, if_pos h]

/-- `a * b` on `uint256`: panics with `0x11` on overflow. -/
def checkedMul (a b : UInt256) : Except Revert UInt256 :=
  if a.toNat * b.toNat < 2 ^ 256 then .ok (a * b) else .error (.panic 0x11)

/-! ## Dynamic arrays -/

/-- The number of entries a dynamic array stays below, in storage and in memory. -/
abbrev maxArrayLength : ℕ := 2 ^ 64

/-- A dynamic array, in storage or in memory. -/
@[ext] structure DynArray (α : Type u) : Type u where
  /-- the entries, in index order -/
  entries : List α
  /-- the array has not grown past what can be allocated -/
  length_lt : entries.length < maxArrayLength

namespace DynArray

variable {α : Type u}

/-- The empty array. -/
def empty : DynArray α := ⟨[], Nat.two_pow_pos 64⟩

/-- `a.length`. -/
abbrev length (a : DynArray α) : ℕ := a.entries.length

/-- `a[i]`: panics with `0x32` out of bounds. -/
def get (a : DynArray α) (i : ℕ) : Except Revert α :=
  match a.entries[i]? with
  | some x => .ok x
  | none => .error (.panic 0x32)

/-- `a[i] = x`: panics with `0x32` out of bounds. -/
def set (a : DynArray α) (i : ℕ) (x : α) : Except Revert (DynArray α) :=
  if i < a.length then .ok ⟨a.entries.set i x, by simpa using a.length_lt⟩
  else .error (.panic 0x32)

/-- `a.push(x)`: panics with `0x41` if the array would become too large. For an array in storage
the compiler's check comes one entry later: it lets `2 ^ 64` entries be reached. -/
def push (a : DynArray α) (x : α) : Except Revert (DynArray α) :=
  if h : a.length + 1 < maxArrayLength then .ok ⟨a.entries ++ [x], by simpa using h⟩
  else .error (.panic 0x41)

/-- `a.pop()`: panics with `0x31` on the empty array. -/
def pop (a : DynArray α) : Except Revert (DynArray α) :=
  if a.length = 0 then .error (.panic 0x31)
  else .ok ⟨a.entries.dropLast, by
    rw [List.length_dropLast]
    exact Nat.lt_of_le_of_lt (Nat.sub_le _ _) a.length_lt⟩

/-- `new T[](n)`: `n` times the zero value `x`; panics with `0x41` if that is too
large. -/
def new (n : ℕ) (x : α) : Except Revert (DynArray α) :=
  if h : n < maxArrayLength then .ok ⟨List.replicate n x, by simpa using h⟩
  else .error (.panic 0x41)

/-- The length of an array is a `uint256`. -/
theorem toNat_length (a : DynArray α) : (BitVec.ofNat 256 a.length).toNat = a.length := by
  have hlt : maxArrayLength < 2 ^ 256 := by decide
  rw [BitVec.toNat_ofNat, Nat.mod_eq_of_lt (Nat.lt_trans a.length_lt hlt)]

theorem get_ok {a : DynArray α} {i : ℕ} {x : α} (h : a.entries[i]? = some x) :
    a.get i = .ok x := by
  rw [get, h]

theorem set_ok {a : DynArray α} {i : ℕ} (h : i < a.length) (x : α) :
    ∃ a', a.set i x = .ok a' ∧ a'.entries = a.entries.set i x := by
  rw [set, if_pos h]
  exact ⟨_, rfl, rfl⟩

theorem push_eq_ok {a a' : DynArray α} {x : α} (h : a.push x = .ok a') :
    a'.entries = a.entries ++ [x] := by
  rw [push] at h
  split at h
  · obtain rfl := Except.ok.inj h
    rfl
  · cases h

theorem push_commits_iff {a : DynArray α} {x : α} :
    (∃ a', a.push x = .ok a') ↔ a.length + 1 < maxArrayLength := by
  rw [push]
  split
  · next h => exact ⟨fun _ => h, fun _ => ⟨_, rfl⟩⟩
  · next h =>
    refine ⟨?_, fun hlt => absurd hlt h⟩
    rintro ⟨a', ha'⟩
    cases ha'

theorem pop_ok {a : DynArray α} (h : a.length ≠ 0) :
    ∃ a', a.pop = .ok a' ∧ a'.entries = a.entries.dropLast := by
  rw [pop, if_neg h]
  exact ⟨_, rfl, rfl⟩

theorem new_ok {n : ℕ} (h : n < maxArrayLength) (x : α) :
    ∃ a, new n x = .ok a ∧ a.entries = List.replicate n x := by
  rw [new, dif_pos h]
  exact ⟨_, rfl, rfl⟩

/-- Apply `f` to the first entry satisfying `p`, if there is one. -/
def updateFirst (p : α → Bool) (f : α → α) (a : DynArray α) : DynArray α :=
  ⟨FirstMatch.updateFirst p f a.entries, by simpa using a.length_lt⟩

@[simp] theorem entries_updateFirst (p : α → Bool) (f : α → α) (a : DynArray α) :
    (a.updateFirst p f).entries = FirstMatch.updateFirst p f a.entries := rfl

end DynArray

/-! ## Loops -/

section Loops

variable {ε : Type u} {σ α : Type v} {body : ℕ → σ → Except ε (ForInStep σ)}

/-- **Loop rule.** `I i` holds before iteration `i`; an iteration either goes on and
re-establishes it for `i + 1`, or breaks and establishes the postcondition `Q`. A
loop that runs to its end gets `Q` from the last invariant. In either case it does
not revert. -/
theorem forIn_range_rule {n : ℕ} {s : σ} (I : ℕ → σ → Prop) (Q : σ → Prop)
    (hstep : ∀ i < n, ∀ s, I i s →
      (∃ s', body i s = .ok (.yield s') ∧ I (i + 1) s') ∨
      (∃ s', body i s = .ok (.done s') ∧ Q s'))
    (hend : ∀ s, I n s → Q s) (hs : I 0 s) :
    ∃ s', forIn (List.range n) s body = .ok s' ∧ Q s' := by
  -- the induction is on the iterations that are left, from an arbitrary counter
  suffices H : ∀ k i s, i + k = n → I i s →
      ∃ s', forIn (List.range' i k) s body = .ok s' ∧ Q s' by
    rw [List.range_eq_range']
    exact H n 0 s (Nat.zero_add n) hs
  intro k
  induction k with
  | zero =>
    intro i s hi hI
    obtain rfl : i = n := hi
    exact ⟨s, rfl, hend s hI⟩
  | succ k ih =>
    intro i s hi hI
    rw [List.range'_succ, List.forIn_cons]
    rcases hstep i (by omega) s hI with ⟨s', hbody, hI'⟩ | ⟨s', hbody, hQ⟩
    · obtain ⟨s'', hrun, hQ⟩ := ih (i + 1) s' (by omega) hI'
      refine ⟨s'', ?_, hQ⟩
      rw [hbody]
      exact hrun
    · refine ⟨s', ?_, hQ⟩
      rw [hbody]
      rfl

/-- The loop rule for a loop that never breaks, followed by the rest `k` of its
function. -/
theorem forIn_range_bind {n : ℕ} {s : σ} {k : σ → Except ε α} {r : Except ε α}
    (I : ℕ → σ → Prop)
    (hstep : ∀ i < n, ∀ s, I i s → ∃ s', body i s = .ok (.yield s') ∧ I (i + 1) s')
    (hs : I 0 s) (hend : ∀ s, I n s → k s = r) :
    (do let s' ← forIn (List.range n) s body; k s') = r := by
  obtain ⟨s', hrun, hI⟩ := forIn_range_rule I (I n)
    (fun i hi s hI => .inl (hstep i hi s hI)) (fun s hI => hI) hs
  rw [hrun]
  exact hend s' hI

end Loops

namespace DynArray

variable {α : Type u} {σ : Type v}

/-- **Search loop.** A loop over an array that goes on unchanged at the entries
missing `p`, and at the first one satisfying it writes `f` of it back and breaks:
it never reverts, and leaves the array with its first match updated. `g` builds
the loop state from the written array. -/
theorem forIn_updateFirst {a : DynArray α} {p : α → Bool} {f : α → α} {s : σ}
    {g : DynArray α → σ} {body : ℕ → σ → Except Revert (ForInStep σ)}
    (hmiss : ∀ i x, a.get i = .ok x → p x = false → body i s = .ok (.yield s))
    (hhit : ∀ i x a', a.get i = .ok x → p x = true → a.set i (f x) = .ok a' →
      body i s = .ok (.done (g a'))) :
    forIn (List.range a.length) s body =
      .ok (if a.entries.any p then g (a.updateFirst p f) else s) := by
  -- nothing matched so far, and the loop state is still the initial one
  let I : ℕ → σ → Prop := fun i s' => s' = s ∧ (a.entries.take i).any p = false
  have hstep : ∀ i < a.length, ∀ s', I i s' →
      (∃ s'', body i s' = .ok (.yield s'') ∧ I (i + 1) s'') ∨
      (∃ s'', body i s' = .ok (.done s'') ∧
        s'' = if a.entries.any p then g (a.updateFirst p f) else s) := by
    rintro i hi s' ⟨rfl, hbefore⟩
    change i < a.entries.length at hi
    have hx : a.entries[i]? = some a.entries[i] := List.getElem?_eq_getElem hi
    rcases hp : p a.entries[i] with - | -
    · refine .inl ⟨s', hmiss i _ (get_ok hx) hp, rfl, ?_⟩
      rw [List.take_add_one, hx, List.any_append, hbefore]
      simp [hp]
    · obtain ⟨a', hset, ha'⟩ := set_ok hi (f a.entries[i])
      have hany : a.entries.any p = true :=
        List.any_eq_true.mpr ⟨_, List.getElem_mem hi, hp⟩
      have hidx : a.entries.findIdx? p = some i := by
        refine List.findIdx?_eq_some_iff_getElem.mpr ⟨hi, hp, fun j hj => ?_⟩
        have hmem : a.entries[j] ∈ a.entries.take i :=
          List.mem_take_iff_getElem.mpr ⟨j, by omega, rfl⟩
        exact List.any_eq_false.mp hbefore _ hmem
      refine .inr ⟨g a', hhit i _ _ (get_ok hx) hp hset, ?_⟩
      have : a' = a.updateFirst p f := by
        ext1
        rw [ha', entries_updateFirst, FirstMatch.updateFirst_eq_set hidx hx]
      rw [if_pos hany, this]
  have hend : ∀ s', I a.length s' →
      s' = if a.entries.any p then g (a.updateFirst p f) else s := by
    rintro s' ⟨rfl, hnone⟩
    rw [List.take_length] at hnone
    rw [hnone, if_neg Bool.false_ne_true]
  obtain ⟨s', hrun, rfl⟩ := forIn_range_rule I _ hstep hend ⟨rfl, rfl⟩
  exact hrun

end DynArray

end Solidity

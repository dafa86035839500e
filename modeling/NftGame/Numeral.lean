import Mathlib.Data.Nat.Digits.Lemmas

/-!
# Numerals

A numeral in base `b` is a list of digits, the most significant one first. Reading it from the
left gives its value (`value`). Every number has a shortest numeral (`numeral`), which for `0`
is the digit `0` and for the others starts with a digit that is not `0`. All other numerals of
the number have zeros in front of that one, but for the empty numeral, which stands for `0` too
(`eq_zeros_numeral`).

The numerals of a given length (`fixed`) are in bijection with the numbers that fit into it.
-/

namespace Numeral

variable {b n d k : ℕ} {ds : List ℕ}

/-- Read on with the digits `ds`, after a numeral of value `n`. -/
def extend (b n : ℕ) (ds : List ℕ) : ℕ := ds.foldl (fun n d => n * b + d) n

/-- The value of a numeral, read from the left. -/
def value (b : ℕ) (ds : List ℕ) : ℕ := extend b 0 ds

/-- The shortest numeral of a number. -/
def numeral (b n : ℕ) : List ℕ := if n = 0 then [0] else (Nat.digits b n).reverse

/-- The last `k` digits of a number. -/
def fixed (b : ℕ) : ℕ → ℕ → List ℕ
  | 0, _ => []
  | k + 1, n => fixed b k (n / b) ++ [n % b]

/-! ## Values -/

@[simp] theorem extend_cons (b n d : ℕ) (ds : List ℕ) :
    extend b n (d :: ds) = extend b (n * b + d) ds := rfl

/-- The value only grows while it is read. -/
theorem le_extend (hb : 1 < b) (n : ℕ) (ds : List ℕ) : n ≤ extend b n ds := by
  induction ds generalizing n with
  | nil => exact Nat.le_refl n
  | cons d ds ih =>
    have hmul : n * 1 ≤ n * b := Nat.mul_le_mul_left n hb.le
    have hread : n * b + d ≤ extend b (n * b + d) ds := ih (n * b + d)
    rw [extend_cons]
    omega

@[simp] theorem value_nil (b : ℕ) : value b [] = 0 := rfl

@[simp] theorem value_concat (b : ℕ) (ds : List ℕ) (d : ℕ) :
    value b (ds ++ [d]) = value b ds * b + d := by
  rw [value, extend, List.foldl_concat]
  rfl

@[simp] theorem value_singleton (b d : ℕ) : value b [d] = d := by
  rw [← List.nil_append [d], value_concat, value_nil, Nat.zero_mul, Nat.zero_add]

/-- From the right it is Mathlib's `ofDigits`. -/
theorem value_eq_ofDigits (b : ℕ) (ds : List ℕ) : value b ds = Nat.ofDigits b ds.reverse := by
  induction ds using List.reverseRecOn with
  | nil => rfl
  | append_singleton ds d ih =>
    rw [value_concat, ih, List.reverse_concat, Nat.ofDigits_cons, Nat.mul_comm, Nat.add_comm]

/-- Leading zeros do not count. -/
theorem value_zeros_append (b z : ℕ) (ds : List ℕ) :
    value b (List.replicate z 0 ++ ds) = value b ds := by
  rw [value_eq_ofDigits, List.reverse_append, List.reverse_replicate,
    Nat.ofDigits_append_replicate_zero, ← value_eq_ofDigits]

theorem value_lt_pow (hb : 1 < b) (hds : ∀ d ∈ ds, d < b) : value b ds < b ^ ds.length := by
  rw [value_eq_ofDigits, ← List.length_reverse]
  exact Nat.ofDigits_lt_base_pow_length hb fun d hd => hds d (List.mem_reverse.mp hd)

/-! ## Shortest numerals -/

theorem value_numeral (b n : ℕ) : value b (numeral b n) = n := by
  rw [numeral]
  split
  · next hzero => rw [hzero, value_singleton]
  · rw [value_eq_ofDigits, List.reverse_reverse, Nat.ofDigits_digits]

theorem lt_of_mem_numeral (hb : 1 < b) (hd : d ∈ numeral b n) : d < b := by
  rw [numeral] at hd
  split at hd
  · rw [List.mem_singleton.mp hd]
    omega
  · exact Nat.digits_lt_base hb (List.mem_reverse.mp hd)

/-- How long it is. -/
theorem length_numeral (hb : 1 < b) (n : ℕ) : (numeral b n).length = Nat.log b n + 1 := by
  rw [numeral]
  split
  · next hzero => rw [hzero, Nat.log_zero_right]; rfl
  · next hne => rw [List.length_reverse, Nat.length_digits b n hb hne]

/-- The last digit is the remainder. -/
theorem numeral_of_lt (hn : n < b) : numeral b n = [n] := by
  rw [numeral]
  split
  · next hzero => rw [hzero]
  · next hne => rw [Nat.digits_of_lt b n hne hn]; rfl

theorem numeral_of_le (hb : 1 < b) (hn : b ≤ n) :
    numeral b n = numeral b (n / b) ++ [n % b] := by
  have hdiv : n / b ≠ 0 := (Nat.div_pos hn (by omega)).ne'
  rw [numeral, if_neg (by omega), numeral, if_neg hdiv, Nat.digits_def' hb (by omega),
    List.reverse_cons]

/-- **Every numeral** is empty, or the shortest one with zeros in front. -/
theorem eq_zeros_numeral (hb : 1 < b) (hds : ∀ d ∈ ds, d < b) :
    ds = [] ∨ ∃ z, ds = List.replicate z 0 ++ numeral b (value b ds) := by
  induction ds with
  | nil => exact .inl rfl
  | cons d ds ih =>
    right
    by_cases hzero : d = 0
    · subst hzero
      have hvalue : value b (0 :: ds) = value b ds := value_zeros_append b 1 ds
      rcases ih (fun d hd => hds d (List.mem_cons_of_mem 0 hd)) with rfl | ⟨z, hz⟩
      · refine ⟨0, ?_⟩
        rw [value_singleton]
        rfl
      · refine ⟨z + 1, ?_⟩
        rw [hvalue, List.replicate_succ, List.cons_append, ← hz]
    · -- the first digit is not zero, so there are no zeros in front
      have hlast : ∀ h : (d :: ds).reverse ≠ [], (d :: ds).reverse.getLast h ≠ 0 := by
        intro h
        simpa using hzero
      have hdigits := Nat.digits_ofDigits b hb (d :: ds).reverse
        (fun d hd => hds d (List.mem_reverse.mp hd)) hlast
      have hne : value b (d :: ds) ≠ 0 := by
        intro hvalue
        rw [← value_eq_ofDigits, hvalue, Nat.digits_zero] at hdigits
        simp at hdigits
      refine ⟨0, ?_⟩
      rw [numeral, if_neg hne, value_eq_ofDigits, hdigits, List.reverse_reverse]
      rfl

/-! ## Numerals of a given length -/

@[simp] theorem length_fixed (b k n : ℕ) : (fixed b k n).length = k := by
  induction k generalizing n with
  | zero => rfl
  | succ k ih => rw [fixed, List.length_append, ih, List.length_singleton]

theorem lt_of_mem_fixed (hb : 0 < b) (hd : d ∈ fixed b k n) : d < b := by
  induction k generalizing n with
  | zero => cases hd
  | succ k ih =>
    rw [fixed, List.mem_append, List.mem_singleton] at hd
    rcases hd with hd | rfl
    · exact ih hd
    · exact Nat.mod_lt n hb

/-- A number is read back from its last `k` digits, if it has no others. -/
theorem value_fixed (hn : n < b ^ k) : value b (fixed b k n) = n := by
  induction k generalizing n with
  | zero =>
    rw [Nat.pow_zero] at hn
    rw [fixed, value_nil]
    omega
  | succ k ih =>
    have hdiv : n / b < b ^ k := Nat.div_lt_of_lt_mul (by rwa [Nat.mul_comm, ← Nat.pow_succ])
    rw [fixed, value_concat, ih hdiv, Nat.div_add_mod']

/-- And a numeral is written again from its value. -/
theorem fixed_value (hds : ∀ d ∈ ds, d < b) : fixed b ds.length (value b ds) = ds := by
  induction ds using List.reverseRecOn with
  | nil => rfl
  | append_singleton ds d ih =>
    have hd : d < b := hds d (List.mem_append_right ds List.mem_cons_self)
    have hb : 0 < b := by omega
    rw [List.length_append, List.length_singleton, fixed, value_concat, Nat.mul_comm,
      Nat.mul_add_div hb, Nat.div_eq_of_lt hd, Nat.add_zero, Nat.mul_add_mod, Nat.mod_eq_of_lt hd,
      ih fun d hd => hds d (List.mem_append_left _ hd)]

end Numeral

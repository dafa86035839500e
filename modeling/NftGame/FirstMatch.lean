import Mathlib.Data.List.Basic
import Mathlib.Logic.Function.Iterate

/-!
# Updating the first match of a list

`updateFirst p f l` is `l` with `f` applied to its first entry satisfying `p`, and
`l` itself if there is none: what a search loop leaves behind when it writes to the
entry it stops at. It is the `List.replaceF` of the standard library, for a
condition and an update given separately.

The lemmas say how such an update looks through the windows one usually has on a
list (`map`, `filter`, `countP`, `any`, an index), when two of them commute, and
what iterating one of them does.
-/

namespace FirstMatch

universe u v

variable {α : Type u} {β : Type v}

/-- Apply `f` to the first entry satisfying `p`. -/
def updateFirst (p : α → Bool) (f : α → α) (l : List α) : List α :=
  l.replaceF fun x => if p x then some (f x) else none

section Basic

variable {p q : α → Bool} {f g : α → α} {l : List α} {x : α}

@[simp] theorem updateFirst_nil : updateFirst p f [] = [] := rfl

theorem updateFirst_cons_pos (h : p x = true) : updateFirst p f (x :: l) = f x :: l := by
  simp [updateFirst, h]

theorem updateFirst_cons_neg (h : p x = false) :
    updateFirst p f (x :: l) = x :: updateFirst p f l := by
  simp [updateFirst, h]

@[simp] theorem length_updateFirst : (updateFirst p f l).length = l.length :=
  List.length_replaceF

/-- Nothing matches, nothing changes. -/
theorem updateFirst_of_any_eq_false (h : l.any p = false) : updateFirst p f l = l := by
  apply List.replaceF_of_forall_none
  intro a ha
  rw [if_neg (List.any_eq_false.mp h a ha)]

/-- The update happens at the index a search for `p` returns. -/
theorem updateFirst_eq_set {i : ℕ} {x : α} (hi : l.findIdx? p = some i)
    (hx : l[i]? = some x) : updateFirst p f l = l.set i (f x) := by
  induction l generalizing i with
  | nil => cases hi
  | cons y l ih =>
    rw [List.findIdx?_cons] at hi
    rcases hy : p y with - | -
    · rw [hy, if_neg Bool.false_ne_true] at hi
      obtain ⟨j, hj, rfl⟩ := Option.map_eq_some_iff.mp hi
      rw [updateFirst_cons_neg hy, ih hj (by simpa using hx), List.set_cons_succ]
    · rw [hy, if_pos rfl] at hi
      obtain rfl := Option.some.inj hi
      obtain rfl : y = x := by simpa using hx
      rw [updateFirst_cons_pos hy, List.set_cons_zero]

/-- Where the update happens: at the first match. -/
theorem exists_updateFirst_eq_set (h : l.any p = true) (f : α → α) :
    ∃ i x, l[i]? = some x ∧ p x = true ∧ (∀ j < i, ∀ y, l[j]? = some y → p y = false) ∧
      updateFirst p f l = l.set i (f x) := by
  rcases hi : l.findIdx? p with - | i
  · obtain ⟨x, hx, hpx⟩ := List.any_eq_true.mp h
    rw [List.findIdx?_eq_none_iff.mp hi x hx] at hpx
    cases hpx
  · obtain ⟨hlt, hpi, hbefore⟩ := List.findIdx?_eq_some_iff_getElem.mp hi
    have hx := List.getElem?_eq_getElem hlt
    refine ⟨i, l[i], hx, hpi, ?_, updateFirst_eq_set hi hx⟩
    intro j hj y hy
    obtain ⟨hjlt, rfl⟩ := List.getElem?_eq_some_iff.mp hy
    exact Bool.eq_false_iff.mpr (hbefore j hj)

/-- If everything matches, the head is updated. -/
theorem updateFirst_true : updateFirst (fun _ => true) f l = l.modifyHead f := by
  cases l <;> rfl

/-- An appended entry is reached only if nothing matched before it. -/
theorem updateFirst_append {r : List α} :
    updateFirst p f (l ++ r) =
      if l.any p then updateFirst p f l ++ r else l ++ updateFirst p f r := by
  induction l with
  | nil => simp
  | cons y l ih =>
    rcases hy : p y with - | -
    · rw [List.cons_append, updateFirst_cons_neg hy, ih, updateFirst_cons_neg hy,
        List.any_cons, hy, Bool.false_or]
      split <;> rfl
    · rw [List.cons_append, updateFirst_cons_pos hy, updateFirst_cons_pos hy,
        List.any_cons, hy, Bool.true_or, if_pos rfl, List.cons_append]

/-- An appended entry that does not match stays as it is. -/
theorem updateFirst_concat_neg (h : p x = false) :
    updateFirst p f (l ++ [x]) = updateFirst p f l ++ [x] := by
  rw [updateFirst_append]
  split
  · rfl
  · next hany =>
    rw [updateFirst_of_any_eq_false (Bool.eq_false_iff.mpr hany), updateFirst_cons_neg h,
      updateFirst_nil]

end Basic

/-! ## Windows on the updated list -/

section Windows

variable {p q : α → Bool} {f : α → α} {l : List α}

/-- Through a map that carries the condition and the update along, the update is
the corresponding one on the image. -/
theorem map_updateFirst {h : α → β} {p' : β → Bool} {f' : β → β}
    (hp : ∀ x ∈ l, p' (h x) = p x) (hf : ∀ x ∈ l, p x = true → h (f x) = f' (h x)) :
    (updateFirst p f l).map h = updateFirst p' f' (l.map h) := by
  induction l with
  | nil => rfl
  | cons y l ih =>
    have hp' := hp y (List.mem_cons_self ..)
    rcases hy : p y with - | -
    · rw [updateFirst_cons_neg hy, List.map_cons, List.map_cons,
        updateFirst_cons_neg (by rw [hp', hy]),
        ih (fun x hx => hp x (List.mem_cons_of_mem _ hx))
          (fun x hx => hf x (List.mem_cons_of_mem _ hx))]
    · rw [updateFirst_cons_pos hy, List.map_cons, List.map_cons,
        updateFirst_cons_pos (by rw [hp', hy]), hf y (List.mem_cons_self ..) hy]

/-- A window the update does not show through. -/
theorem map_updateFirst_of_eq {h : α → β} (hf : ∀ x, p x = true → h (f x) = h x) :
    (updateFirst p f l).map h = l.map h := by
  induction l with
  | nil => rfl
  | cons y l ih =>
    rcases hy : p y with - | -
    · rw [updateFirst_cons_neg hy, List.map_cons, ih, List.map_cons]
    · rw [updateFirst_cons_pos hy, List.map_cons, hf y hy, List.map_cons]

/-- The update passes over an entry that is no match, and over all that stand behind the
first match. -/
theorem getElem?_updateFirst_of_passed {i : ℕ} {x : α} (hx : l[i]? = some x)
    (hpass : p x = false ∨ ∃ j < i, ∃ y, l[j]? = some y ∧ p y = true) :
    (updateFirst p f l)[i]? = some x := by
  rcases hany : l.any p with - | -
  · rw [updateFirst_of_any_eq_false hany]
    exact hx
  · obtain ⟨m, y, hy, hpy, hbefore, hset⟩ := exists_updateFirst_eq_set hany f
    have hmi : m ≠ i := by
      rintro rfl
      obtain rfl : y = x := Option.some.inj (hy.symm.trans hx)
      rcases hpass with hneg | ⟨j, hj, z, hz, hpz⟩
      · rw [hpy] at hneg
        cases hneg
      · have hneg := hbefore j hj z hz
        rw [hpz] at hneg
        cases hneg
    rw [hset, List.getElem?_set_ne hmi]
    exact hx

/-- An entry that is no match, neither before nor after its update, stays where it is. -/
theorem getElem?_updateFirst_iff {x : α} (hx : p x = false)
    (hf : ∀ y, p y = true → f y ≠ x) {i : ℕ} :
    (updateFirst p f l)[i]? = some x ↔ l[i]? = some x := by
  induction l generalizing i with
  | nil => rfl
  | cons y l ih =>
    rcases hy : p y with - | -
    · rw [updateFirst_cons_neg hy]
      cases i with
      | zero => rfl
      | succ i => exact ih
    · rw [updateFirst_cons_pos hy]
      cases i with
      | zero =>
        refine iff_of_false (fun h => hf y hy (Option.some.inj h)) fun h => ?_
        obtain rfl := Option.some.inj h
        rw [hx] at hy
        cases hy
      | succ i => rfl

/-- A filter that keeps every match, before and after its update. -/
theorem filter_updateFirst (hq : ∀ x, p x = true → q x = true ∧ q (f x) = true) :
    (updateFirst p f l).filter q = updateFirst p f (l.filter q) := by
  induction l with
  | nil => rfl
  | cons y l ih =>
    rcases hy : p y with - | -
    · rw [updateFirst_cons_neg hy, List.filter_cons, List.filter_cons, ih]
      split
      · rw [updateFirst_cons_neg hy]
      · rfl
    · obtain ⟨hbefore, hafter⟩ := hq y hy
      rw [updateFirst_cons_pos hy, List.filter_cons_of_pos hafter,
        List.filter_cons_of_pos hbefore, updateFirst_cons_pos hy]

/-- A filter that keeps no match, neither before nor after its update. -/
theorem filter_updateFirst_of_not (hq : ∀ x, p x = true → q x = false ∧ q (f x) = false) :
    (updateFirst p f l).filter q = l.filter q := by
  induction l with
  | nil => rfl
  | cons y l ih =>
    rcases hy : p y with - | -
    · rw [updateFirst_cons_neg hy, List.filter_cons, List.filter_cons, ih]
    · obtain ⟨hbefore, hafter⟩ := hq y hy
      rw [updateFirst_cons_pos hy, List.filter_cons_of_neg (Bool.eq_false_iff.mp hafter),
        List.filter_cons_of_neg (Bool.eq_false_iff.mp hbefore)]

/-- If the update drops its match out of a filtered window, and within the window the
matches are the entries of key `k`, then the keys seen lose their first `k`. -/
theorem map_filter_updateFirst_erase [DecidableEq β] {h : α → β} {k : β}
    (hp : ∀ x, p x = true ↔ h x = k ∧ q x = true) (hf : ∀ x, p x = true → q (f x) = false) :
    ((updateFirst p f l).filter q).map h = ((l.filter q).map h).erase k := by
  induction l with
  | nil => rfl
  | cons y l ih =>
    rcases hy : p y with - | -
    · rw [updateFirst_cons_neg hy]
      rcases hqy : q y with - | -
      · rw [List.filter_cons_of_neg (Bool.eq_false_iff.mp hqy), ih,
          List.filter_cons_of_neg (Bool.eq_false_iff.mp hqy)]
      · have hne : h y ≠ k := fun hk => Bool.eq_false_iff.mp hy ((hp y).mpr ⟨hk, hqy⟩)
        rw [List.filter_cons_of_pos hqy, List.map_cons, ih, List.filter_cons_of_pos hqy,
          List.map_cons, List.erase_cons_tail (by simpa using hne)]
    · obtain ⟨hk, hqy⟩ := (hp y).mp hy
      rw [updateFirst_cons_pos hy, List.filter_cons_of_neg (Bool.eq_false_iff.mp (hf y hy)),
        List.filter_cons_of_pos hqy, List.map_cons, hk, List.erase_cons_head]

/-- Counting before and after the update: the entry found is the difference. -/
theorem countP_updateFirst (h : l.any p = true) :
    ∃ x ∈ l, p x = true ∧
      (updateFirst p f l).countP q + (if q x then 1 else 0) =
        l.countP q + (if q (f x) then 1 else 0) := by
  induction l with
  | nil => cases h
  | cons y l ih =>
    rcases hy : p y with - | -
    · rw [List.any_cons, hy, Bool.false_or] at h
      obtain ⟨x, hx, hpx, hcount⟩ := ih h
      refine ⟨x, List.mem_cons_of_mem _ hx, hpx, ?_⟩
      rw [updateFirst_cons_neg hy, List.countP_cons, List.countP_cons]
      omega
    · refine ⟨y, List.mem_cons_self .., hy, ?_⟩
      rw [updateFirst_cons_pos hy, List.countP_cons, List.countP_cons]
      omega

/-- A condition the update does not touch is met as before. -/
theorem any_updateFirst (hq : ∀ x, p x = true → q (f x) = q x) :
    (updateFirst p f l).any q = l.any q := by
  induction l with
  | nil => rfl
  | cons y l ih =>
    rcases hy : p y with - | -
    · rw [updateFirst_cons_neg hy, List.any_cons, ih, List.any_cons]
    · rw [updateFirst_cons_pos hy, List.any_cons, hq y hy, List.any_cons]

end Windows

/-! ## Commuting and iterating -/

section Iterate

variable {p q : α → Bool} {f g : α → α} {l : List α} {x : α}

/-- Two first-match updates commute if neither creates or destroys a match of the
other. -/
theorem updateFirst_comm (hp : ∀ x, p x = true → q x = false ∧ q (f x) = false)
    (hq : ∀ x, q x = true → p (g x) = false) :
    updateFirst p f (updateFirst q g l) = updateFirst q g (updateFirst p f l) := by
  induction l with
  | nil => rfl
  | cons y l ih =>
    rcases hpy : p y with - | -
    · rcases hqy : q y with - | -
      · rw [updateFirst_cons_neg hqy, updateFirst_cons_neg hpy, updateFirst_cons_neg hpy,
          updateFirst_cons_neg hqy, ih]
      · rw [updateFirst_cons_pos hqy, updateFirst_cons_neg (hq y hqy),
          updateFirst_cons_neg hpy, updateFirst_cons_pos hqy]
    · obtain ⟨hqy, hqfy⟩ := hp y hpy
      rw [updateFirst_cons_neg hqy, updateFirst_cons_pos hpy, updateFirst_cons_pos hpy,
        updateFirst_cons_neg hqfy]

/-- Updates of entries with different keys commute, if they keep the keys. -/
theorem updateFirst_comm_of_key {κ : Type v} {key : α → κ} {a b : κ} (hab : a ≠ b)
    (hp : ∀ x, p x = true → key x = a) (hq : ∀ x, q x = true → key x = b)
    (hf : ∀ x, key (f x) = key x) (hg : ∀ x, key (g x) = key x) :
    updateFirst p f (updateFirst q g l) = updateFirst q g (updateFirst p f l) := by
  have hpq : ∀ x, key x = a → q x = false := fun x hx =>
    Bool.eq_false_iff.mpr fun h => hab (hx.symm.trans (hq x h))
  have hqp : ∀ x, key x = b → p x = false := fun x hx =>
    Bool.eq_false_iff.mpr fun h => hab ((hp x h).symm.trans hx)
  refine updateFirst_comm (fun x hx => ⟨hpq x (hp x hx), hpq _ ?_⟩) fun x hx => hqp _ ?_
  · rw [hf, hp x hx]
  · rw [hg, hq x hx]

theorem iterate_updateFirst_cons_neg (h : p x = false) (n : ℕ) :
    (updateFirst p f)^[n] (x :: l) = x :: (updateFirst p f)^[n] l := by
  induction n with
  | zero => rfl
  | succ n ih =>
    rw [Function.iterate_succ_apply', ih, updateFirst_cons_neg h,
      Function.iterate_succ_apply']

/-- An update that destroys its own match is spent on the head, and the remaining
rounds go to the tail. -/
theorem iterate_updateFirst_cons_pos (h : p x = true) (hf : p (f x) = false) (n : ℕ) :
    (updateFirst p f)^[n + 1] (x :: l) = f x :: (updateFirst p f)^[n] l := by
  rw [Function.iterate_succ_apply, updateFirst_cons_pos h,
    iterate_updateFirst_cons_neg hf]

/-- **Iterating** a self-destroying update `n` times updates exactly the first `n`
matches, and no other entry. -/
theorem getElem?_iterate_updateFirst (hf : ∀ x, p x = true → p (f x) = false) (n i : ℕ) :
    ((updateFirst p f)^[n] l)[i]? =
      l[i]?.map fun x => if p x = true ∧ (l.take i).countP p < n then f x else x := by
  induction l generalizing n i with
  | nil =>
    have hnil : (updateFirst p f)^[n] [] = [] := Function.iterate_fixed rfl n
    rw [hnil]
    rfl
  | cons y l ih =>
    rcases hy : p y with - | -
    · rw [iterate_updateFirst_cons_neg hy]
      cases i with
      | zero => simp [hy]
      | succ i => simp [ih, hy]
    · cases n with
      | zero => simp
      | succ n =>
        rw [iterate_updateFirst_cons_pos hy (hf y hy)]
        cases i with
        | zero => simp [hy]
        | succ i => simp [ih, hy]

end Iterate

end FirstMatch

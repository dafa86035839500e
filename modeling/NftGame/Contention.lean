import NftGame.Operations

/-!
# Contention for one NFT

Several idle users call `rentNft(k)`, each once, while nothing else happens. The calls
are served in the order they come in: as long as there is a free copy of `k`, a call
takes the first one, and all calls after that revert.

The states such a run goes through are those of handing copies to a list of winners
(`State.rentedTo`), and the winners are a prefix of the callers (`run_contend`). The pool
depends on nothing but the number of winners, and so not on the order.
-/

namespace NftGame

open Solidity Transaction

namespace NFTRentLight

/-- The number of free entries of id `k`. -/
def State.freeCopies (s : State) (k : UInt256) : ℕ :=
  s.availableNfts.entries.countP (NFT.isFree k)

/-- The first free copies of `k` go to the senders of `winners`, in order. -/
def State.rentedTo (s : State) (k : UInt256) (winners : List Env) : State :=
  winners.foldl (fun s env => s.rented env k) s

/-- One `rentNft(k)` call in each of the environments. -/
def contend (k : UInt256) (order : List Env) : List Tx := order.map fun env => ⟨env, .rentNft k⟩

/-- The callers are different addresses, none of which has an active rental. -/
structure Contenders (s : State) (order : List Env) : Prop where
  /-- nobody calls twice -/
  distinct : (order.map Env.sender).Nodup
  /-- nobody is renting -/
  idle : ∀ env ∈ order, (s.rentals env.sender).active = false

section Winners

variable {s : State} {k : UInt256} {env : Env} {winners : List Env} {v : Address}

theorem rentedTo_cons : s.rentedTo k (env :: winners) = (s.rented env k).rentedTo k winners :=
  rfl

theorem entries_rentedTo :
    (s.rentedTo k winners).availableNfts.entries =
      (FirstMatch.updateFirst (NFT.isFree k) NFT.rent)^[winners.length]
        s.availableNfts.entries := by
  induction winners generalizing s with
  | nil => rfl
  | cons env winners ih =>
    rw [rentedTo_cons, ih, State.entries_rented, List.length_cons, Function.iterate_succ_apply]

/-- Only winners get a rental. -/
theorem rentals_rentedTo_of_notMem (hv : v ∉ winners.map Env.sender) :
    (s.rentedTo k winners).rentals v = s.rentals v := by
  induction winners generalizing s with
  | nil => rfl
  | cons env winners ih =>
    rw [List.map_cons, List.mem_cons, not_or] at hv
    obtain ⟨hne, hv⟩ := hv
    rw [rentedTo_cons, ih hv, State.rentals_rented_of_ne hne]

/-- Every winner gets one, from its own time on. -/
theorem rentals_rentedTo (hnodup : (winners.map Env.sender).Nodup) (henv : env ∈ winners) :
    (s.rentedTo k winners).rentals env.sender = ⟨k, env.timestamp, true⟩ := by
  induction winners generalizing s with
  | nil => cases henv
  | cons first winners ih =>
    rw [List.map_cons, List.nodup_cons] at hnodup
    obtain ⟨hfirst, hnodup⟩ := hnodup
    rw [rentedTo_cons]
    rcases List.mem_cons.mp henv with rfl | henv
    · rw [rentals_rentedTo_of_notMem hfirst, State.rentals_rented_self]
    · exact ih hnodup henv

theorem freeCopies_pos_iff :
    0 < s.freeCopies k ↔ s.availableNfts.entries.any (NFT.isFree k) = true := by
  rw [State.freeCopies, List.countP_pos_iff, List.any_eq_true]

/-- A rental uses up one free copy. -/
theorem freeCopies_rented (env : Env) (h : 0 < s.freeCopies k) :
    (s.rented env k).freeCopies k + 1 = s.freeCopies k := by
  obtain ⟨nft, -, hfree, hcount⟩ := FirstMatch.countP_updateFirst
    (q := NFT.isFree k) (f := NFT.rent) (freeCopies_pos_iff.mp h)
  rw [if_pos hfree, NFT.isFree_rent, if_neg Bool.false_ne_true] at hcount
  exact hcount

theorem freeCopies_rentedTo (h : winners.length ≤ s.freeCopies k) :
    (s.rentedTo k winners).freeCopies k + winners.length = s.freeCopies k := by
  induction winners generalizing s with
  | nil => rfl
  | cons env winners ih =>
    rw [List.length_cons] at h
    have hone : (s.rented env k).freeCopies k + 1 = s.freeCopies k :=
      freeCopies_rented env (by omega)
    have hrest := ih (s := s.rented env k) (by omega)
    rw [rentedTo_cons, List.length_cons]
    omega

end Winners

section Contend

variable {s : State} {k : UInt256} {env : Env} {order : List Env}

/-- An idle caller gets a copy if there is a free one. -/
theorem rentNft_of_idle (hidle : (s.rentals env.sender).active = false) :
    rentNft env k s = if 0 < s.freeCopies k then .ok (s.rented env k)
      else .error (.error "NFT not available") := by
  rw [rentNft_eq, hidle, if_neg Bool.false_ne_true]
  simp only [freeCopies_pos_iff]

theorem Contenders.tail (h : Contenders s (env :: order)) : Contenders s order where
  distinct := by
    obtain ⟨-, hrest⟩ := List.nodup_cons.mp h.distinct
    exact hrest
  idle := fun env henv => h.idle env (List.mem_cons_of_mem _ henv)

/-- The first caller's rental does not concern the others. -/
theorem Contenders.rented (h : Contenders s (env :: order)) :
    Contenders (s.rented env k) order where
  distinct := h.tail.distinct
  idle := by
    intro env' henv'
    obtain ⟨hfirst, -⟩ := List.nodup_cons.mp h.distinct
    have hne : env'.sender ≠ env.sender := by
      intro heq
      apply hfirst
      rw [← heq]
      exact List.mem_map_of_mem henv'
    rw [State.rentals_rented_of_ne hne]
    exact h.tail.idle env' henv'

theorem Contenders.take (h : Contenders s order) (i : ℕ) : Contenders s (order.take i) where
  distinct := by
    rw [List.map_take]
    exact h.distinct.sublist (List.take_sublist ..)
  idle := fun env henv => h.idle env (List.mem_of_mem_take henv)

/-- Being contenders is about the addresses: neither the order of the calls nor their
times matter. -/
theorem Contenders.perm (h : Contenders s order) {order' : List Env}
    (hperm : (order'.map Env.sender).Perm (order.map Env.sender)) : Contenders s order' where
  distinct := hperm.nodup_iff.mpr h.distinct
  idle := by
    intro env' henv'
    obtain ⟨env, henv, hsender⟩ :=
      List.mem_map.mp (hperm.mem_iff.mp (List.mem_map_of_mem henv'))
    rw [← hsender]
    exact h.idle env henv

/-- **First come, first served.** The calls that commit are the first ones, one for each
free copy, and they leave those copies with their senders. -/
theorem run_contend (h : Contenders s order) :
    accepted transact s (contend k order) = contend k (order.take (s.freeCopies k)) ∧
      run transact s (contend k order) = s.rentedTo k (order.take (s.freeCopies k)) := by
  induction order generalizing s with
  | nil => exact ⟨by rw [List.take_nil]; rfl, by rw [List.take_nil]; rfl⟩
  | cons env order ih =>
    have hcall := rentNft_of_idle (k := k) (h.idle env (List.mem_cons_self ..))
    rcases hc : s.freeCopies k with - | c
    · -- no copy is left: this call reverts, and so do the following ones
      rw [hc, if_neg (Nat.lt_irrefl 0)] at hcall
      have herr : transact ⟨env, .rentNft k⟩ s = .error (.error "NFT not available") := hcall
      obtain ⟨hacc, hrun⟩ := ih h.tail
      rw [hc, List.take_zero] at hacc hrun
      rw [contend, List.map_cons, accepted_cons_error herr, run_cons, exec_error herr]
      exact ⟨hacc, hrun⟩
    · rw [if_pos (by omega)] at hcall
      have hok : transact ⟨env, .rentNft k⟩ s = .ok (s.rented env k) := hcall
      have hleft : (s.rented env k).freeCopies k = c := by
        have := freeCopies_rented (s := s) (k := k) env (by omega)
        omega
      obtain ⟨hacc, hrun⟩ := ih h.rented
      rw [hleft] at hacc hrun
      rw [contend, List.map_cons, accepted_cons_ok hok, run_cons, exec_ok hok]
      exact ⟨congrArg _ hacc, hrun⟩

/-- A later caller is none of the earlier ones. -/
theorem Contenders.notMem_take (h : Contenders s order) {i j : ℕ} (hij : i ≤ j)
    (henv : env ∈ order.drop j) : env.sender ∉ (order.take i).map Env.sender := by
  intro hearlier
  have hlater : env.sender ∈ (order.map Env.sender).drop j := by
    rw [← List.map_drop]
    exact List.mem_map_of_mem henv
  rw [List.map_take] at hearlier
  exact List.disjoint_take_drop h.distinct hij hearlier hlater

/-- The caller at position `i` gets a copy exactly if there were more than `i` free ones
at the start. -/
theorem rentNft_contend {i : ℕ} (h : Contenders s order) (henv : order[i]? = some env) :
    rentNft env k (run transact s (contend k (order.take i))) =
      if i < s.freeCopies k then
        .ok ((run transact s (contend k (order.take i))).rented env k)
      else .error (.error "NFT not available") := by
  obtain ⟨hi, -⟩ := List.getElem?_eq_some_iff.mp henv
  rw [(run_contend (h.take i)).2, List.take_take]
  have hlen : (order.take (min (s.freeCopies k) i)).length = min (s.freeCopies k) i := by
    rw [List.length_take]
    omega
  have hleft : (s.rentedTo k (order.take (min (s.freeCopies k) i))).freeCopies k +
      (order.take (min (s.freeCopies k) i)).length = s.freeCopies k :=
    freeCopies_rentedTo (by omega)
  have hlast : env ∈ order.drop i :=
    List.mem_of_getElem? (i := 0) (by rw [List.getElem?_drop, Nat.add_zero, henv])
  have hidle : ((s.rentedTo k (order.take (min (s.freeCopies k) i))).rentals
      env.sender).active = false := by
    rw [rentals_rentedTo_of_notMem (h.notMem_take (Nat.min_le_right ..) hlast)]
    exact h.idle env (List.mem_of_mem_drop hlast)
  rw [rentNft_of_idle hidle]
  refine if_congr ?_ rfl rfl
  omega

end Contend

/-- **Contention for one NFT is resolved exactly.** For every state, every `k` and every
list of distinct idle addresses that call `rentNft(k)` once each, in this order: with `c`
free copies of `k`, the first `c` calls commit, and each later one reverts and leaves the
state as it is. The senders of the former, and only they, get a rental of `k`, each from
its own block time on. The pool ends with exactly the first `min c n` free copies of `k`
rented out, whatever the order of the calls and their times. -/
theorem contention_is_resolved_exactly (s : State) (k : UInt256) (order : List Env)
    (h : Contenders s order) :
    let c := s.freeCopies k
    let final := run transact s (contend k order)
    accepted transact s (contend k order) = contend k (order.take c) ∧
    (∀ i env, order[i]? = some env →
      let sᵢ := run transact s (contend k (order.take i))
      (i < min c order.length → ∃ s', rentNft env k sᵢ = .ok s') ∧
        (¬ i < min c order.length → rentNft env k sᵢ = .error (.error "NFT not available") ∧
          run transact s (contend k (order.take (i + 1))) = sᵢ)) ∧
    (∀ env ∈ order.take c, final.rentals env.sender = ⟨k, env.timestamp, true⟩) ∧
    (∀ env ∈ order.drop c, (final.rentals env.sender).active = false) ∧
    (∀ v, v ∉ (order.take c).map Env.sender → final.rentals v = s.rentals v) ∧
    (∀ i : ℕ, final.availableNfts.entries[i]? = s.availableNfts.entries[i]?.map fun nft =>
      if nft.isFree k = true ∧
          (s.availableNfts.entries.take i).countP (NFT.isFree k) < min c order.length
      then nft.rent else nft) ∧
    ∀ order' : List Env, (order'.map Env.sender).Perm (order.map Env.sender) →
      (run transact s (contend k order')).availableNfts = final.availableNfts := by
  intro c final
  obtain ⟨hacc, hfinal⟩ : accepted transact s (contend k order) = contend k (order.take c) ∧
      final = s.rentedTo k (order.take c) := run_contend h
  rw [hfinal]
  refine ⟨hacc, ?_, ?_, ?_, fun v hv => rentals_rentedTo_of_notMem hv, ?_, ?_⟩
  · intro i env henv sᵢ
    obtain ⟨hi, -⟩ := List.getElem?_eq_some_iff.mp henv
    have hcall := rentNft_contend (k := k) h henv
    refine ⟨fun hlt => ?_, fun hge => ?_⟩
    · rw [if_pos (by omega)] at hcall
      exact ⟨_, hcall⟩
    · rw [if_neg (by omega)] at hcall
      refine ⟨hcall, ?_⟩
      rw [contend, List.take_add_one, henv, List.map_append, run_append]
      exact exec_error (t := (⟨env, .rentNft k⟩ : Tx)) hcall
  · intro env henv
    exact rentals_rentedTo (h.take c).distinct henv
  · intro env henv
    rw [rentals_rentedTo_of_notMem (h.notMem_take (Nat.le_refl c) henv)]
    exact h.idle env (List.mem_of_mem_drop henv)
  · intro i
    rw [entries_rentedTo, List.length_take]
    exact FirstMatch.getElem?_iterate_updateFirst (fun nft _ => NFT.isFree_rent k nft) _ i
  · intro order' hperm
    have hlen : order'.length = order.length := by simpa using hperm.length_eq
    ext1
    rw [(run_contend (h.perm hperm)).2, entries_rentedTo, entries_rentedTo, List.length_take,
      List.length_take, hlen]

/-- Three users want one of two copies of `5`: the third one loses. -/
theorem contention_two_copies_three_users :
    let s := run transact deployed
      [⟨⟨9, 10⟩, .store 5⟩, ⟨⟨9, 10⟩, .store 6⟩, ⟨⟨9, 10⟩, .store 5⟩]
    let order : List Env := [⟨3, 50⟩, ⟨1, 51⟩, ⟨2, 52⟩]
    (∀ env ∈ order.drop 2,
      ((run transact s (contend 5 order)).rentals env.sender).active = false) ∧
    ∀ env ∈ order.take 2,
      (run transact s (contend 5 order)).rentals env.sender = ⟨5, env.timestamp, true⟩ := by
  intro s order
  have hcontend : Contenders s order := ⟨by decide, by decide⟩
  obtain ⟨-, -, hwinners, hlosers, -⟩ := contention_is_resolved_exactly s 5 order hcontend
  exact ⟨hlosers, hwinners⟩

end NFTRentLight

end NftGame

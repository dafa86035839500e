import Mathlib.Data.List.TakeWhile
import NftGame.Numeral
import NftGame.Strings

/-!
# Digits

What the parsers of `Strings` do with the bytes of a string: they read the digits that it starts
with (`reading`), which ends in one of three ways. The number does not fit into a `uint256`, and
the call reverts; or there is another byte behind the digits, and the string is not accepted; or
it is. All three are told from the string as a whole (`parseDigits_eq`).
-/

namespace NftGame

open Solidity Numeral

namespace Strings

variable {base : UInt256} {n start stop : ℕ} {chr : Byte} {text : List Byte} {input : Bytes}

/-- The byte is a digit. -/
def isDigit (base : ℕ) (chr : Byte) : Bool := (tryParseChr chr).toNat < base

/-- The numeral that is written in a string of digits. -/
def digitValues (text : List Byte) : List ℕ := text.map fun chr => (tryParseChr chr).toNat

/-- The string that a numeral is written as. -/
def written (ds : List ℕ) : List Byte := ds.map hexDigit

/-- The part of a string between two positions. -/
def part (input : Bytes) (start stop : ℕ) : List Byte :=
  (input.entries.drop start).take (stop - start)

/-- Read a number after a number `n`, as far as there are digits. -/
def reading (base n : ℕ) (text : List Byte) : Except Error (Bool × UInt256) :=
  let value := extend base n (digitValues (text.takeWhile (isDigit base)))
  if value < 2 ^ 256 then
    .ok (if text.all (isDigit base) then (true, BitVec.ofNat 256 value) else (false, 0))
  else
    .error (.revert (.panic 0x11))

/-! ## Parts of a string -/

theorem unsafeReadByte_ok {i : ℕ} (hi : i < input.entries.length) :
    unsafeReadByte input i = .ok input.entries[i] := by
  rw [unsafeReadByte, List.getElem?_eq_getElem hi]

theorem part_all (input : Bytes) : part input 0 input.length = input.entries := by
  rw [part, List.drop_zero, Nat.sub_zero, List.take_length]

theorem part_eq_nil (hle : stop ≤ start) : part input start stop = [] := by
  rw [part, Nat.sub_eq_zero_of_le hle, List.take_zero]

theorem part_eq_cons (hlt : start < stop) (hstop : stop ≤ input.length) :
    ∃ chr, unsafeReadByte input start = .ok chr ∧
      part input start stop = chr :: part input (start + 1) stop := by
  have hindex : start < input.entries.length := Nat.lt_of_lt_of_le hlt hstop
  refine ⟨input.entries[start], unsafeReadByte_ok hindex, ?_⟩
  rw [part, part, List.drop_eq_getElem_cons hindex,
    show stop - start = stop - (start + 1) + 1 by omega, List.take_succ_cons]

theorem drop_part (input : Bytes) (start stop k : ℕ) :
    (part input start stop).drop k = part input (start + k) stop := by
  rw [part, part, List.drop_take, List.drop_drop, Nat.sub_sub]

theorem length_part (hstop : stop ≤ input.length) :
    (part input start stop).length = stop - start := by
  change stop ≤ input.entries.length at hstop
  rw [part, List.length_take, List.length_drop]
  omega

/-! ## Single digits -/

theorem tryParseChr_hexDigit : ∀ d < 16, (tryParseChr (hexDigit d)).toNat = d := by decide

/-- There is one way to write a decimal digit. -/
theorem hexDigit_tryParseChr :
    ∀ chr : Byte, (tryParseChr chr).toNat < 10 → hexDigit (tryParseChr chr).toNat = chr := by
  decide

theorem digitValues_written {ds : List ℕ} (hds : ∀ d ∈ ds, d < 16) :
    digitValues (written ds) = ds := by
  rw [digitValues, written, List.map_map]
  exact (List.map_congr_left fun d hd => tryParseChr_hexDigit d (hds d hd)).trans (List.map_id ds)

theorem written_digitValues (htext : text.all (isDigit 10)) :
    written (digitValues text) = text := by
  rw [digitValues, written, List.map_map]
  refine (List.map_congr_left fun chr hchr => hexDigit_tryParseChr chr ?_).trans (List.map_id text)
  simpa [isDigit] using List.all_eq_true.mp htext chr hchr

theorem all_isDigit_written {base : ℕ} {ds : List ℕ} (hbase : base ≤ 16)
    (hds : ∀ d ∈ ds, d < base) :
    (written ds).all (isDigit base) := by
  rw [List.all_eq_true]
  intro chr hchr
  obtain ⟨d, hd, rfl⟩ := List.mem_map.mp hchr
  have hlt : d < base := hds d hd
  simpa [isDigit, tryParseChr_hexDigit d (by omega)] using hlt

theorem lt_of_mem_digitValues {base d : ℕ} (htext : text.all (isDigit base))
    (hd : d ∈ digitValues text) : d < base := by
  obtain ⟨chr, hchr, rfl⟩ := List.mem_map.mp hd
  simpa [isDigit] using List.all_eq_true.mp htext chr hchr

/-! ## The loop -/

/-- Nothing is left to read. -/
theorem reading_nil {base : ℕ} (hn : n < 2 ^ 256) :
    reading base n [] = .ok (true, BitVec.ofNat 256 n) := by
  rw [reading]
  exact if_pos hn

theorem reading_digit {base : ℕ} (hchr : isDigit base chr) :
    reading base n (chr :: text) = reading base (n * base + (tryParseChr chr).toNat) text := by
  simp [reading, digitValues, hchr]

theorem reading_other {base : ℕ} (hchr : isDigit base chr = false) (hn : n < 2 ^ 256) :
    reading base n (chr :: text) = .ok (false, 0) := by
  rw [reading, List.takeWhile_cons_of_neg (by rw [hchr]; decide), List.all_cons, hchr]
  exact if_pos hn

/-- What is too large stays too large, whatever follows. -/
theorem reading_overflow {b : ℕ} (hb : 1 < b) (hn : 2 ^ 256 ≤ n) (text : List Byte) :
    reading b n text = .error (.revert (.panic 0x11)) := by
  have hle := le_extend hb n (digitValues (text.takeWhile (isDigit b)))
  rw [reading, if_neg (by omega)]

/-- **The loop of the parsers**, which stays in the string. Adding the digit may be unchecked
where it does not overflow. -/
theorem parseDigits_eq {add : UInt256 → UInt256 → Except Revert UInt256} (hbase : 1 < base.toNat)
    (hadd : ∀ a d : UInt256, a.toNat * base.toNat < 2 ^ 256 → d.toNat < base.toNat →
      add (a * base) d = checkedAdd (a * base) d)
    {i left : ℕ} (hi : i + left ≤ input.length) (result : UInt256) :
    parseDigits base add input i left result =
      reading base.toNat result.toNat ((input.entries.drop i).take left) := by
  induction left generalizing i result with
  | zero => rw [parseDigits, List.take_zero, reading_nil result.isLt, BitVec.ofNat_toNat,
      BitVec.setWidth_eq]
  | succ left ih =>
    have hlt : i < input.entries.length := by
      change i + (left + 1) ≤ input.entries.length at hi
      omega
    have hchr : ((tryParseChr input.entries[i]).setWidth 256).toNat =
        (tryParseChr input.entries[i]).toNat := by
      rw [BitVec.toNat_setWidth]
      omega
    rw [List.drop_eq_getElem_cons hlt, List.take_succ_cons, parseDigits,
      unsafeReadByte_ok hlt, ok_bind]
    by_cases hdigit : (tryParseChr input.entries[i]).toNat < base.toNat
    · rw [reading_digit (by simpa [isDigit] using hdigit), if_neg (by
        rw [ge_iff_le, BitVec.le_def, hchr]
        omega)]
      by_cases hmul : result.toNat * base.toNat < 2 ^ 256
      · have hmulNat : (result * base).toNat = result.toNat * base.toNat := by
          rw [BitVec.toNat_mul, Nat.mod_eq_of_lt hmul]
        rw [checkedMul, if_pos hmul, checked_ok, ok_bind, hadd result _ hmul (by rwa [hchr]),
          checkedAdd, hmulNat, hchr]
        split
        · next hfits =>
          rw [checked_ok, ok_bind, ih (by omega), BitVec.toNat_add, hmulNat, hchr,
            Nat.mod_eq_of_lt hfits]
        · next hover => rw [reading_overflow hbase (by omega)]; rfl
      · rw [checkedMul, if_neg hmul, reading_overflow hbase (by omega)]
        rfl
    · rw [reading_other (by simpa [isDigit] using hdigit) result.isLt, if_pos (by
        rw [ge_iff_le, BitVec.le_def, hchr]
        omega)]
      rfl

/-- Decimal numbers between two positions, which are not checked. -/
theorem tryParseUintUncheckedBounds_eq (hstart : start ≤ stop)
    (hstop : stop ≤ input.length) :
    tryParseUintUncheckedBounds input start stop = reading 10 0 (part input start stop) :=
  parseDigits_eq (by decide) (fun _ _ _ _ => rfl) (by omega) 0

theorem reading_of_all {base : ℕ} (hall : text.all (isDigit base)) :
    reading base n text =
      if extend base n (digitValues text) < 2 ^ 256 then
        .ok (true, BitVec.ofNat 256 (extend base n (digitValues text)))
      else .error (.revert (.panic 0x11)) := by
  rw [reading, List.takeWhile_eq_self_iff.mpr (List.all_eq_true.mp hall), if_pos hall]

/-- A number has been read. -/
theorem reading_eq_ok_iff {base : ℕ} {v : UInt256} :
    reading base 0 text = .ok (true, v) ↔
      text.all (isDigit base) ∧ value base (digitValues text) = v.toNat := by
  by_cases hall : text.all (isDigit base)
  · rw [reading_of_all hall, value]
    refine ⟨?_, ?_⟩
    · intro h
      split at h
      · next hfits =>
        obtain rfl : BitVec.ofNat 256 _ = v := (Prod.mk.inj (Except.ok.inj h)).2
        exact ⟨hall, by rw [BitVec.toNat_ofNat, Nat.mod_eq_of_lt hfits]⟩
      · cases h
    · rintro ⟨-, hv⟩
      rw [hv, if_pos v.isLt, BitVec.ofNat_toNat, BitVec.setWidth_eq]
  · refine ⟨?_, ?_⟩
    · intro h
      rw [reading, if_neg hall] at h
      split at h
      · cases h
      · cases h
    · rintro ⟨hall', -⟩
      exact absurd hall' hall

/-! ## Positions and failures -/

/-- Only parts of the string are read: the positions have to be in order. -/
theorem between_eq_ok_iff {α : Type} {x : Except Error (Bool × α)} {zero v : α} :
    (if stop > input.length || start > stop then .ok (false, zero) else x) = .ok (true, v) ↔
      (start ≤ stop ∧ stop ≤ input.length) ∧ x = .ok (true, v) := by
  by_cases hpart : start ≤ stop ∧ stop ≤ input.length
  · rw [if_neg (by simpa [and_comm] using hpart)]
    exact (and_iff_right hpart).symm
  · rw [if_pos (by simpa [imp_iff_or_not, or_comm] using hpart)]
    refine ⟨?_, ?_⟩
    · rintro ⟨⟩
    · rintro ⟨hpart', -⟩
      exact absurd hpart' hpart

/-- The parsers that revert return what the others have found. -/
theorem orThrow_eq_ok_iff {α : Type} {x : Except Error (Bool × α)} {e : Error} {v : α} :
    (do
      let (success, value) ← x
      if !success then
        throw e
      return value) = .ok v ↔ x = .ok (true, v) := by
  rcases x with e | ⟨_ | _, value⟩
  · refine ⟨?_, ?_⟩ <;> rintro ⟨⟩
  · refine ⟨?_, ?_⟩ <;> rintro ⟨⟩
  · refine ⟨?_, ?_⟩ <;> rintro ⟨⟩ <;> rfl

end Strings

end NftGame

import NftGame.DecimalStrings

/-!
# Signed strings

`parseInt` takes a sign off the string before it reads the digits, and checks that the number
fits into an `int256`, of which the most negative one has no positive counterpart. What
`toStringSigned` writes is read back, also for that one (`parseInt_toStringSigned`).
-/

namespace NftGame

open Solidity Numeral

/-! ## The absolute value -/

namespace SignedMath

theorem ushiftRight_eq_zero {x : BitVec 256} (hx : x.toNat < 2 ^ 255) : x >>> 255 = 0 := by
  refine BitVec.eq_of_toNat_eq ?_
  rw [BitVec.toNat_ushiftRight, Nat.shiftRight_eq_div_pow, Nat.div_eq_of_lt hx]
  rfl

/-- The trick with the sign bits gives the absolute value, also of the most negative number, for
which it is not an `int256`. -/
theorem toNat_abs (n : Int256) : (abs n).toNat = n.toInt.natAbs := by
  have hsign : n.msb = decide (2 ^ 255 ≤ n.toNat) := BitVec.msb_eq_toNat
  rw [abs]
  rcases hmsb : n.msb with - | -
  · have hlt : n.toNat < 2 ^ 255 :=
      Nat.lt_of_not_le (of_decide_eq_false (hsign.symm.trans hmsb))
    have hmask : n.sshiftRight 255 = 0 := by
      rw [BitVec.sshiftRight_eq_of_msb_false hmsb, ushiftRight_eq_zero hlt]
    rw [hmask, BitVec.toInt_eq_toNat_of_msb hmsb, Int.natAbs_natCast]
    exact congrArg BitVec.toNat ((BitVec.xor_zero).trans (BitVec.add_zero n))
  · have hle : 2 ^ 255 ≤ n.toNat := of_decide_eq_true (hsign.symm.trans hmsb)
    have hmask : n.sshiftRight 255 = BitVec.allOnes 256 := by
      have hnot : (~~~n).toNat < 2 ^ 255 := by
        rw [BitVec.toNat_not]
        omega
      rw [BitVec.sshiftRight_eq_of_msb_true hmsb, ushiftRight_eq_zero hnot]
      rfl
    have hflip : (n + BitVec.allOnes 256) ^^^ BitVec.allOnes 256 = -n := by
      rw [BitVec.xor_allOnes, BitVec.not_add_eq_not_neg, ← BitVec.neg_one_eq_allOnes,
        BitVec.sub_neg, ← BitVec.neg_eq_not_add]
    rw [hmask, BitVec.toInt_eq_neg_toNat_neg_of_msb_true hmsb, Int.natAbs_neg, Int.natAbs_natCast]
    exact congrArg BitVec.toNat hflip

end SignedMath

namespace Strings

open SignedMath (Int256)

variable {input : Bytes} {start stop : ℕ} {text : List Byte} {absValue : UInt256} {value : Int256}

/-! ## Reading -/

/-- The string starts with a minus sign. -/
def isNegative (text : List Byte) : Bool := text.head? == some (ascii '-')

/-- What is left of a string without its sign. -/
def magnitude (text : List Byte) : List Byte :=
  if text.head? = some (ascii '+') ∨ text.head? = some (ascii '-') then text.tail else text

/-- A positive number fits below `2 ** 255`. -/
theorem withSign_positive :
    withSign false true absValue = (true, value) ↔ value.toInt = absValue.toNat := by
  have hlt : value.toInt < 2 ^ 255 := BitVec.toInt_lt
  by_cases hsmall : absValue < absMinInt256
  · have hnat : absValue.toNat < 2 ^ 255 := hsmall
    have hint : absValue.toInt = absValue.toNat := BitVec.toInt_eq_toNat_of_lt (by omega)
    rw [withSign, if_pos (by simpa using hsmall), ← hint, BitVec.toInt_inj, Prod.mk.injEq,
      eq_comm (a := value)]
    exact and_iff_right rfl
  · have hnat : 2 ^ 255 ≤ absValue.toNat := Nat.le_of_not_lt hsmall
    rw [withSign, if_neg (by simpa using hsmall), if_neg (by simp)]
    refine ⟨?_, ?_⟩
    · rintro ⟨⟩
    · omega

/-- A negative number fits down to `-2 ** 255`. -/
theorem withSign_negative :
    withSign true true absValue = (true, value) ↔ value.toInt = -(absValue.toNat : ℤ) := by
  have hge : -2 ^ 255 ≤ value.toInt := BitVec.le_toInt value
  by_cases hsmall : absValue < absMinInt256
  · have hnat : absValue.toNat < 2 ^ 255 := hsmall
    have hint : absValue.toInt = absValue.toNat := BitVec.toInt_eq_toNat_of_lt (by omega)
    have hmsb : absValue.msb = false := by
      rw [BitVec.msb_eq_toNat]
      exact decide_eq_false (Nat.not_le_of_lt hnat)
    rw [withSign, if_pos (by simpa using hsmall), ← hint, ← BitVec.toInt_neg_eq_of_msb hmsb,
      BitVec.toInt_inj, Prod.mk.injEq, eq_comm (a := value)]
    exact and_iff_right rfl
  · have hnat : 2 ^ 255 ≤ absValue.toNat := Nat.le_of_not_lt hsmall
    rw [withSign, if_neg (by simpa using hsmall)]
    by_cases hmin : absValue = absMinInt256
    · have hint : (BitVec.intMin 256).toInt = -(absValue.toNat : ℤ) := by
        rw [hmin]
        exact BitVec.toInt_intMin_of_pos (by decide)
      rw [if_pos (by simpa using hmin), ← hint, BitVec.toInt_inj, Prod.mk.injEq,
        eq_comm (a := value)]
      exact and_iff_right rfl
    · have hne : absValue.toNat ≠ 2 ^ 255 := fun h => hmin (BitVec.eq_of_toNat_eq h)
      rw [if_neg (by simpa using hmin)]
      refine ⟨?_, ?_⟩
      · rintro ⟨⟩
      · omega

/-- The sign decides which of the two it is. -/
theorem withSign_iff {negative : Bool} :
    withSign negative true absValue = (true, value) ↔
      value.toInt = if negative then -(absValue.toNat : ℤ) else absValue.toNat := by
  cases negative with
  | false => exact withSign_positive
  | true => exact withSign_negative

/-- The sign that is looked at, and what is read behind it. -/
theorem sign_spec (hstart : start ≤ stop) (hstop : stop ≤ input.length) :
    ∃ sign, signByte input start stop = .ok sign ∧
      (sign == ascii '-') = isNegative (part input start stop) ∧
      tryParseUintBetween input
          (start + if sign == ascii '+' || sign == ascii '-' then 1 else 0) stop =
        reading 10 0 (magnitude (part input start stop)) := by
  rcases Nat.eq_or_lt_of_le hstart with rfl | hlt
  · -- there is no byte to look at
    refine ⟨0, by rw [signByte, beq_self_eq_true, if_pos rfl], ?_, ?_⟩
    · rw [part_eq_nil (Nat.le_refl start)]
      rfl
    · exact (tryParseUintBetween_eq (Nat.le_refl start) hstop).trans
        (by rw [part_eq_nil (Nat.le_refl start)]; rfl)
  · obtain ⟨sign, hsign, hpart⟩ := part_eq_cons hlt hstop
    have hne : (start == stop) = false := beq_eq_false_iff_ne.mpr hlt.ne
    refine ⟨sign, by rw [signByte, hne, if_neg Bool.false_ne_true, hsign], ?_, ?_⟩
    · rw [hpart, isNegative, List.head?_cons, Option.some_beq_some]
    · by_cases hsigned : sign = ascii '+' ∨ sign = ascii '-'
      · rw [if_pos (by simpa using hsigned), tryParseUintBetween_eq hlt hstop, hpart, magnitude,
          if_pos (by simpa using hsigned), List.tail_cons]
      · rw [if_neg (by simpa using hsigned), Nat.add_zero, tryParseUintBetween_eq hstart hstop,
          magnitude, if_neg (by rw [hpart]; simpa using hsigned)]

/-- **`parseInt`** accepts the strings that stand for a number behind their sign, and only if the
number fits into an `int256`. -/
theorem parseIntBetween_eq_ok_iff :
    parseIntBetween input start stop = .ok value ↔
      start ≤ stop ∧ stop ≤ input.length ∧
        ∃ absValue, Denotes (magnitude (part input start stop)) absValue ∧
          value.toInt =
            if isNegative (part input start stop) then -(absValue.toNat : ℤ)
            else absValue.toNat := by
  rw [parseIntBetween, orThrow_eq_ok_iff, tryParseIntBetween, between_eq_ok_iff, and_assoc]
  refine and_congr_right fun hstart => and_congr_right fun hstop => ?_
  obtain ⟨sign, hsign, hnegative, hread⟩ := sign_spec hstart hstop
  rw [tryParseIntUncheckedBounds, hsign, ok_bind]
  dsimp only
  rw [hread, hnegative]
  refine ⟨?_, ?_⟩
  · intro h
    obtain ⟨⟨success, absValue⟩, hreading, hresult⟩ := bind_eq_ok h
    have hresult := Except.ok.inj hresult
    cases success with
    | false => cases hresult
    | true => exact ⟨absValue, reading_denotes.mp hreading, withSign_iff.mp hresult⟩
  · rintro ⟨absValue, hdenotes, hvalue⟩
    rw [reading_denotes.mpr hdenotes, ok_bind]
    exact congrArg Except.ok (withSign_iff.mpr hvalue)

/-! ## Writing -/

theorem concat_ok {a b : Bytes} (h : a.length + b.length < maxArrayLength) :
    ∃ text, concat a b = .ok text ∧ text.entries = a.entries ++ b.entries := by
  rw [concat, dif_pos h]
  exact ⟨_, rfl, rfl⟩

/-- What `toString` writes is short and has no sign. -/
theorem toString_spec (absValue : UInt256) :
    ∃ digits, toString absValue = .ok digits ∧ digits.length < 79 ∧
      Denotes digits.entries absValue ∧ magnitude digits.entries = digits.entries ∧
      isNegative digits.entries = false := by
  obtain ⟨digits, hdigits, hentries⟩ := toString_eq absValue
  have hlog := Math.log_lt absValue
  have hlength : digits.entries.length = Nat.log 10 absValue.toNat + 1 := by
    rw [hentries, written, List.length_map, length_numeral (by decide)]
  have hdenotes : Denotes digits.entries absValue := .inr ⟨0, digits, hdigits, rfl⟩
  have hhead {chr : Byte} (hchr : isDigit 10 chr = false) : digits.entries.head? ≠ some chr := by
    intro hsome
    have hall := List.all_eq_true.mp (denotes_iff.mp hdenotes).1 chr (List.mem_of_head? hsome)
    rw [hchr] at hall
    cases hall
  refine ⟨digits, hdigits, ?_, hdenotes, ?_, ?_⟩
  · change digits.entries.length < 79
    omega
  · rw [magnitude, if_neg (not_or.mpr ⟨hhead (by decide), hhead (by decide)⟩)]
  · exact beq_eq_false_iff_ne.mpr (hhead (by decide))

/-- **What is written is read back**, for each `int256`. -/
theorem parseInt_toStringSigned (value : Int256) :
    ∃ text, toStringSigned value = .ok text ∧ parseInt text = .ok value := by
  obtain ⟨digits, hdigits, hshort, hdenotes, hmagnitude, hpositive⟩ :=
    toString_spec (SignedMath.abs value)
  have habs := SignedMath.toNat_abs value
  have hread {text : Bytes} (hnumber : Denotes (magnitude text.entries) (SignedMath.abs value))
      (hsign : value.toInt = if isNegative text.entries then -(value.toInt.natAbs : ℤ)
        else value.toInt.natAbs) : parseInt text = .ok value := by
    refine parseIntBetween_eq_ok_iff.mpr
      ⟨Nat.zero_le _, Nat.le_refl _, SignedMath.abs value, ?_, ?_⟩
    · rwa [part_all]
    · rwa [part_all, habs]
  rw [toStringSigned, hdigits, ok_bind]
  by_cases hnegative : value.slt 0
  · have hlt : value.toInt < 0 := of_decide_eq_true hnegative
    rw [if_pos hnegative]
    obtain ⟨text, htext, hentries⟩ := concat_ok (a := ⟨[ascii '-'], by decide⟩) (b := digits)
      (Nat.lt_of_lt_of_le (show 1 + digits.length < 80 by omega) (by decide))
    refine ⟨text, by rw [htext, checked_ok], hread ?_ ?_⟩
    · rw [hentries]
      exact hdenotes
    · rw [hentries]
      change value.toInt = -(value.toInt.natAbs : ℤ)
      omega
  · have hge : 0 ≤ value.toInt := Int.le_of_not_gt fun hlt => hnegative (decide_eq_true hlt)
    rw [if_neg hnegative]
    obtain ⟨text, htext, hentries⟩ := concat_ok (a := .empty) (b := digits)
      (Nat.lt_of_lt_of_le (show 0 + digits.length < 79 by omega) (by decide))
    rw [DynArray.empty, List.nil_append] at hentries
    refine ⟨text, by rw [htext, checked_ok], hread ?_ ?_⟩
    · rwa [hentries, hmagnitude]
    · rw [hentries, hpositive, if_neg Bool.false_ne_true]
      omega

end Strings

end NftGame

import Mathlib.Data.Nat.Log
import NftGame.Digits

/-!
# Hexadecimal strings

`toHexString` writes a given number of digits behind `0x`, and reverts if the number has more
(`toHexString_eq`); `parseHexUint` reads it back. If the number of digits is not given, it is
taken from the logarithm, which is found by bisection (`toNat_log256`). `parseAddress` accepts
what is written for an address, with or without the `0x`, and does not look at the case of the
letters (`parseAddressBetween_eq_ok_iff`). So it also reads the addresses that have a checksum in
their letters, whatever hash that was taken from.
-/

namespace NftGame

open Solidity Numeral

/-! ## The logarithm -/

namespace Math

variable {k : ℕ} {x r : UInt256}

/-- What the steps of `log256` keep: the bits found are there, and at most `2 ^ k` are left. -/
def Found (k : ℕ) (x r : UInt256) : Prop :=
  2 ^ k ∣ r.toNat ∧ x.toNat / 2 ^ r.toNat < 2 ^ 2 ^ k ∧ (r.toNat = 0 ∨ 2 ^ r.toNat ≤ x.toNat)

/-- Setting a bit adds it, where the bits up to it are not set. -/
theorem toNat_or_toUint (hdvd : 2 ^ (k + 1) ∣ r.toNat) (hk : k ≤ 7) (b : Bool) :
    (r ||| toUint b <<< k).toNat = r.toNat + if b then 2 ^ k else 0 := by
  have hpow : 2 ^ k < 2 ^ 256 := Nat.pow_lt_pow_right (by decide) (by omega)
  have hbit : (toUint b <<< k).toNat = if b then 2 ^ k else 0 := by
    cases b with
    | false => exact (congrArg BitVec.toNat (BitVec.zero_shiftLeft k)).trans rfl
    | true =>
      rw [toUint, if_pos rfl, if_pos rfl, BitVec.toNat_shiftLeft, Nat.shiftLeft_eq]
      exact (congrArg (· % 2 ^ 256) (Nat.one_mul (2 ^ k))).trans (Nat.mod_eq_of_lt hpow)
  have hsmall : (if b then 2 ^ k else 0) < 2 ^ (k + 1) := by
    have hpos : 0 < 2 ^ k := Nat.two_pow_pos k
    rw [Nat.pow_succ]
    split <;> omega
  obtain ⟨m, hm⟩ := hdvd
  rw [BitVec.toNat_or, hbit, hm, Nat.two_pow_add_eq_or_of_lt hsmall]

/-- A step halves the number of bits that can be left. -/
theorem Found.findBits (hk : k ≤ 7) (h : Found (k + 1) x r) : Found k x (findBits k x r) := by
  obtain ⟨hdvd, hlt, hge⟩ := h
  have hbits : 2 ^ k ≤ 2 ^ 7 := Nat.pow_le_pow_right (by decide) hk
  have hmask : 2 ^ 2 ^ k ≤ 2 ^ 128 := Nat.pow_le_pow_right (by decide) hbits
  have hmore : x >>> r.toNat > BitVec.ofNat 256 (2 ^ 2 ^ k - 1) ↔
      2 ^ 2 ^ k ≤ x.toNat / 2 ^ r.toNat := by
    have hpos : 0 < 2 ^ 2 ^ k := Nat.two_pow_pos (2 ^ k)
    rw [gt_iff_lt, BitVec.lt_def, BitVec.toNat_ushiftRight, Nat.shiftRight_eq_div_pow,
      BitVec.toNat_ofNat, Nat.mod_eq_of_lt (by omega)]
    omega
  have hnat := toNat_or_toUint hdvd hk (x >>> r.toNat > BitVec.ofNat 256 (2 ^ 2 ^ k - 1))
  simp only [decide_eq_true_eq] at hnat
  rw [← Math.findBits] at hnat
  have hdvd' : 2 ^ k ∣ r.toNat := (Nat.pow_dvd_pow 2 (Nat.le_succ k)).trans hdvd
  by_cases hleft : 2 ^ 2 ^ k ≤ x.toNat / 2 ^ r.toNat
  · rw [if_pos (hmore.mpr hleft)] at hnat
    refine ⟨?_, ?_, .inr ?_⟩
    · rw [hnat]
      exact Nat.dvd_add hdvd' (Nat.dvd_refl _)
    · rw [hnat, Nat.pow_add, ← Nat.div_div_eq_div_mul]
      refine Nat.div_lt_of_lt_mul ?_
      rwa [← Nat.pow_add, ← Nat.two_mul, ← Nat.pow_succ']
    · rw [hnat, Nat.pow_add]
      calc 2 ^ r.toNat * 2 ^ 2 ^ k ≤ 2 ^ r.toNat * (x.toNat / 2 ^ r.toNat) :=
            Nat.mul_le_mul_left _ hleft
        _ ≤ x.toNat := Nat.mul_div_le x.toNat (2 ^ r.toNat)
  · rw [if_neg (hleft ∘ hmore.mp), Nat.add_zero] at hnat
    rw [Found, hnat]
    exact ⟨hdvd', Nat.lt_of_not_le hleft, hge⟩

/-- `log256` is the logarithm. -/
theorem toNat_log256 (x : UInt256) : (log256 x).toNat = Nat.log 256 x.toNat := by
  have h8 : Found 8 x 0 := ⟨Nat.dvd_zero _, by
    rw [show (0 : UInt256).toNat = 0 from rfl, Nat.pow_zero, Nat.div_one]
    exact x.isLt, .inl rfl⟩
  have h7 := h8.findBits (k := 7) (by decide)
  have h6 := h7.findBits (k := 6) (by decide)
  have h5 := h6.findBits (k := 5) (by decide)
  obtain ⟨hdvd, hlt, hge⟩ := h5.findBits (k := 4) (by decide)
  rw [log256]
  generalize Math.findBits 4 _ _ = r at hdvd hlt hge ⊢
  have hshift : (r >>> 3).toNat = r.toNat / 8 := by
    rw [BitVec.toNat_ushiftRight, Nat.shiftRight_eq_div_pow]
  have hmore : x >>> r.toNat > 0xff ↔ 256 ≤ x.toNat / 2 ^ r.toNat := by
    rw [gt_iff_lt, BitVec.lt_def, BitVec.toNat_ushiftRight, Nat.shiftRight_eq_div_pow]
    exact Nat.lt_iff_add_one_le
  have hpow : 2 ^ r.toNat = 256 ^ (r.toNat / 8) :=
    calc 2 ^ r.toNat = 2 ^ (8 * (r.toNat / 8)) := congrArg (2 ^ ·) (by omega)
      _ = 256 ^ (r.toNat / 8) := Nat.pow_mul 2 8 (r.toNat / 8)
  have hnat := toNat_or_toUint (k := 0) (r := r >>> 3) (by rw [hshift]; omega) (by decide)
    (x >>> r.toNat > 0xff)
  simp only [decide_eq_true_eq, hshift, BitVec.shiftLeft_zero] at hnat
  rw [hnat]
  -- the bytes found, and the logarithm of what is left behind them
  have hlog : Nat.log 256 (x.toNat / 2 ^ r.toNat) = Nat.log 256 x.toNat - r.toNat / 8 := by
    rw [hpow, Nat.log_div_base_pow]
  have hle : r.toNat / 8 ≤ Nat.log 256 x.toNat := by
    rcases hge with hzero | hge
    · rw [hzero]
      exact Nat.zero_le _
    · rw [hpow] at hge
      exact (Nat.le_log_iff_pow_le (by decide) (by
        have hpos : 0 < 256 ^ (r.toNat / 8) := Nat.pow_pos (by decide)
        omega)).mpr hge
  split
  · next hbyte =>
    rw [Nat.log_eq_one_iff'.mpr ⟨hmore.mp hbyte, hlt⟩] at hlog
    omega
  · next hnone =>
    rw [Nat.log_of_lt (Nat.lt_of_not_le (hnone ∘ hmore.mpr))] at hlog
    omega

end Math

namespace Strings

variable {input buffer text : Bytes} {start stop : ℕ} {value length : UInt256} {addr : Address}

/-! ## Writing -/

theorem set_ok {i : ℕ} (hi : i < buffer.entries.length) (chr : Byte) :
    ∃ buffer', buffer.set i chr = .ok buffer' ∧
      buffer'.entries = buffer.entries.take i ++ chr :: buffer.entries.drop (i + 1) := by
  obtain ⟨buffer', hset, hentries⟩ := DynArray.set_ok hi chr
  refine ⟨buffer', hset, ?_⟩
  rw [hentries, List.set_eq_take_append_cons_drop, if_pos hi]

/-- **The loop of `toHexString`** writes the last digits, and leaves the others in the number. -/
theorem writeHexDigits_eq (value : UInt256) {i : ℕ} (hi : i + 2 ≤ buffer.entries.length) :
    ∃ left buffer', writeHexDigits i value buffer = .ok (left, buffer') ∧
      left.toNat = value.toNat / 16 ^ i ∧
      buffer'.entries =
        buffer.entries.take 2 ++ written (fixed 16 i value.toNat) ++
          buffer.entries.drop (i + 2) := by
  induction i generalizing value buffer with
  | zero =>
    refine ⟨value, buffer, rfl, by rw [Nat.pow_zero, Nat.div_one], ?_⟩
    simp [fixed, written]
  | succ i ih =>
    have hdigit : (value &&& 0xf).toNat = value.toNat % 16 := by
      rw [BitVec.toNat_and]
      exact Nat.and_two_pow_sub_one_eq_mod value.toNat 4
    have hshift : (value >>> 4).toNat = value.toNat / 16 := by
      rw [BitVec.toNat_ushiftRight, Nat.shiftRight_eq_div_pow]
    obtain ⟨buffer₁, hset, hentries⟩ := set_ok (show i + 2 < buffer.entries.length by omega)
      (hexDigit (value &&& 0xf).toNat)
    have htake : (buffer.entries.take (i + 2)).length = i + 2 := by
      rw [List.length_take, Nat.min_eq_left (by omega)]
    have hlen : i + 2 ≤ buffer₁.entries.length := by
      rw [hentries, List.length_append, htake]
      omega
    obtain ⟨left, buffer', hrun, hleft, hbuffer'⟩ := ih (value >>> 4) hlen
    refine ⟨left, buffer', ?_, ?_, ?_⟩
    · rw [writeHexDigits, hset, checked_ok, ok_bind, hrun]
    · rw [hleft, hshift, Nat.div_div_eq_div_mul, Nat.pow_succ']
    · rw [hbuffer', hentries, hshift, hdigit, List.drop_left' htake,
        List.take_append_of_le_length (by omega), List.take_take, Nat.min_eq_left (by omega), fixed]
      simp [written]

/-- The size of the string is computed without an overflow. -/
theorem size_ok (hlength : 2 * length.toNat + 2 < maxArrayLength) :
    checkedMul 2 length = .ok (2 * length) ∧
      checkedAdd (2 * length) 2 = .ok (2 * length + 2) ∧
      (2 * length + 2).toNat = 2 * length.toNat + 2 := by
  have hfits : 2 * length.toNat + 2 < 2 ^ 256 := Nat.lt_trans hlength (by decide)
  have hmul : (2 : UInt256).toNat * length.toNat < 2 ^ 256 := by
    change 2 * length.toNat < 2 ^ 256
    omega
  have hmulNat : (2 * length).toNat = 2 * length.toNat := by
    rw [BitVec.toNat_mul, Nat.mod_eq_of_lt hmul]
    rfl
  have hadd : (2 * length).toNat + (2 : UInt256).toNat < 2 ^ 256 := by
    rw [hmulNat]
    exact hfits
  refine ⟨by rw [checkedMul, if_pos hmul], checkedAdd_ok hadd, ?_⟩
  rw [BitVec.toNat_add, Nat.mod_eq_of_lt hadd, hmulNat]
  rfl

/-- **`toHexString`** writes the number, unless it has more digits than there is room for. -/
theorem toHexString_eq (value : UInt256) (hlength : 2 * length.toNat + 2 < maxArrayLength) :
    ∃ text : Bytes, text.entries =
        ascii '0' :: ascii 'x' :: written (fixed 16 (2 * length.toNat) value.toNat) ∧
      toHexString value length =
        if value.toNat < 16 ^ (2 * length.toNat) then .ok text
        else .error (.insufficientHexLength value length) := by
  obtain ⟨hmul, hadd, hsize⟩ := size_ok hlength
  obtain ⟨buffer, hnew, hbuffer⟩ := DynArray.new_ok hlength (0 : Byte)
  have hlen : buffer.entries.length = 2 * length.toNat + 2 := by
    rw [hbuffer, List.length_replicate]
  obtain ⟨buffer₁, hset₁, hbuffer₁⟩ := set_ok (show 0 < buffer.entries.length by omega) (ascii '0')
  have hlen₁ : buffer₁.entries.length = 2 * length.toNat + 2 := by
    rw [hbuffer₁, List.length_append, List.length_cons, List.length_drop]
    simp only [List.take_zero, List.length_nil]
    omega
  obtain ⟨buffer₂, hset₂, hbuffer₂⟩ := set_ok (show 1 < buffer₁.entries.length by omega) (ascii 'x')
  have hlen₂ : buffer₂.entries.length = 2 * length.toNat + 2 := by
    rw [hbuffer₂, List.length_append, List.length_cons, List.length_drop, List.length_take]
    omega
  obtain ⟨left, text, hrun, hleft, htext⟩ := writeHexDigits_eq value hlen₂.ge
  refine ⟨text, ?_, ?_⟩
  · rw [htext, ← hlen₂, List.drop_length, hbuffer₂, hbuffer₁]
    simp
  · have hzero : left = 0 ↔ value.toNat < 16 ^ (2 * length.toNat) := by
      rw [← Nat.div_eq_zero_iff_lt (Nat.pow_pos (by decide)), ← hleft]
      exact BitVec.toNat_inj.symm
    rw [toHexString, hmul, checked_ok, ok_bind, hadd, checked_ok, ok_bind, hsize, hnew, checked_ok,
      ok_bind, hset₁, checked_ok, ok_bind, hset₂, checked_ok, ok_bind, hrun, ok_bind]
    by_cases hleft : left = 0
    · rw [if_pos (hzero.mp hleft), hleft]
      rfl
    · rw [if_neg (hleft ∘ hzero.mpr)]
      exact if_pos (by simpa using hleft)

/-- A string of that length has been allocated. -/
theorem length_of_toHexString (htext : toHexString value length = .ok text) :
    2 * length.toNat + 2 < maxArrayLength := by
  obtain ⟨size₁, hmul, htext⟩ := bind_eq_ok htext
  obtain ⟨size, hadd, htext⟩ := bind_eq_ok htext
  obtain ⟨buffer, hnew, -⟩ := bind_eq_ok htext
  rw [checkedMul] at hmul
  split at hmul
  · next hmulFits =>
    obtain rfl : 2 * length = size₁ := Except.ok.inj hmul
    have hmulNat : (2 * length).toNat = 2 * length.toNat := by
      rw [BitVec.toNat_mul, Nat.mod_eq_of_lt hmulFits]
      rfl
    rw [checkedAdd] at hadd
    split at hadd
    · next haddFits =>
      obtain rfl : 2 * length + 2 = size := Except.ok.inj hadd
      rw [DynArray.new] at hnew
      split at hnew
      · next hfits =>
        rw [BitVec.toNat_add, Nat.mod_eq_of_lt haddFits, hmulNat] at hfits
        exact hfits
      · cases hnew
    · cases hadd
  · cases hmul

theorem toNat_setWidth_address (addr : Address) : (addr.setWidth 256).toNat = addr.toNat := by
  rw [BitVec.toNat_setWidth]
  exact Nat.mod_eq_of_lt (Nat.lt_trans addr.isLt (by decide))

/-- An address always fits. -/
theorem toHexStringAddress_eq (addr : Address) :
    ∃ text, toHexStringAddress addr = .ok text ∧
      text.entries = ascii '0' :: ascii 'x' :: written (fixed 16 40 addr.toNat) := by
  obtain ⟨text, hentries, hrun⟩ :=
    toHexString_eq (addr.setWidth 256)
      (show 2 * (20 : UInt256).toNat + 2 < maxArrayLength by decide)
  rw [toNat_setWidth_address] at hentries hrun
  refine ⟨text, ?_, hentries⟩
  rw [toHexStringAddress, hrun]
  exact if_pos (Nat.lt_of_lt_of_le addr.isLt (by decide))

/-! ## Reading -/

/-- The digit in the case in which it is written. -/
def toLower (chr : Byte) : Byte := if chr > 64 && chr < 71 then chr + 32 else chr

theorem tryParseChr_toLower : ∀ chr : Byte, tryParseChr (toLower chr) = tryParseChr chr := by
  decide

theorem hexDigit_eq_toLower :
    ∀ chr : Byte, (tryParseChr chr).toNat < 16 →
      hexDigit (tryParseChr chr).toNat = toLower chr := by
  decide

theorem toLower_zero : ∀ chr : Byte, toLower chr = ascii '0' → chr = ascii '0' := by decide

theorem toLower_x : ∀ chr : Byte, toLower chr = ascii 'x' → chr = ascii 'x' := by decide

/-- A string of digits is told by its numeral, but for the case of the letters. -/
theorem map_toLower_iff {digits : List Byte} {ds : List ℕ} (hds : ∀ d ∈ ds, d < 16) :
    digits.map toLower = written ds ↔ digits.all (isDigit 16) ∧ digitValues digits = ds := by
  have hvalues : digitValues (digits.map toLower) = digitValues digits := by
    rw [digitValues, digitValues, List.map_map]
    exact List.map_congr_left fun chr _ => congrArg BitVec.toNat (tryParseChr_toLower chr)
  have hall : (digits.map toLower).all (isDigit 16) = digits.all (isDigit 16) := by
    rw [List.all_map]
    refine congrArg digits.all (funext fun chr => ?_)
    rw [Function.comp_apply, isDigit, tryParseChr_toLower]
    rfl
  refine ⟨?_, ?_⟩
  · intro h
    rw [← hall, ← hvalues, h]
    exact ⟨all_isDigit_written (by decide) hds, digitValues_written hds⟩
  · rintro ⟨hdigits, rfl⟩
    rw [written, digitValues, List.map_map]
    refine List.map_congr_left fun chr hchr => (hexDigit_eq_toLower chr ?_).symm
    simpa [isDigit] using List.all_eq_true.mp hdigits chr hchr

/-- The string starts with `0x`. -/
def prefixed (digits : List Byte) : Bool := digits.take 2 == [ascii '0', ascii 'x']

/-- A string without its `0x`. -/
def unprefixed (digits : List Byte) : List Byte :=
  if prefixed digits then digits.drop 2 else digits

theorem prefixed_iff {digits : List Byte} :
    prefixed digits ↔ ∃ rest, digits = ascii '0' :: ascii 'x' :: rest := by
  refine ⟨?_, ?_⟩
  · intro h
    refine ⟨digits.drop 2, ?_⟩
    have htake : digits.take 2 = [ascii '0', ascii 'x'] := eq_of_beq h
    exact (List.take_append_drop 2 digits).symm.trans (by rw [htake]; rfl)
  · rintro ⟨rest, rfl⟩
    exact beq_self_eq_true _

theorem hasPrefix_eq (hstop : stop ≤ input.length) :
    hasPrefix input start stop = .ok (prefixed (part input start stop)) := by
  rw [hasPrefix]
  split
  · next hlong =>
    obtain ⟨first, hfirst, hpart⟩ := part_eq_cons (show start < stop by omega) hstop
    obtain ⟨second, hsecond, hrest⟩ := part_eq_cons hlong hstop
    rw [unsafeReadPrefix, hfirst, ok_bind, hsecond, ok_bind, hpart, hrest, prefixed,
      List.take_succ_cons, List.take_succ_cons, List.take_zero, List.cons_beq_cons,
      List.cons_beq_cons, BEq.rfl, Bool.and_true]
    rfl
  · next hshort =>
    have htake : ((part input start stop).take 2).length < 2 := by
      rw [List.length_take, length_part hstop]
      omega
    have hne : (part input start stop).take 2 ≠ [ascii '0', ascii 'x'] := by
      intro heq
      rw [heq] at htake
      exact absurd htake (by decide)
    rw [prefixed, beq_eq_false_iff_ne.mpr hne]

/-- What is read of a part of the string. -/
theorem tryParseHexUintUncheckedBounds_eq (hstart : start ≤ stop) (hstop : stop ≤ input.length) :
    tryParseHexUintUncheckedBounds input start stop =
      reading 16 0 (unprefixed (part input start stop)) := by
  have hread {k : ℕ} (hk : k ≤ stop) :
      parseDigits 16 (fun a b => .ok (a + b)) input k (stop - k) 0 =
        reading 16 0 (part input k stop) := by
    refine parseDigits_eq (by decide) (fun a d hmul hd => (checkedAdd_ok ?_).symm) ?_ 0
    · rw [BitVec.toNat_mul, Nat.mod_eq_of_lt hmul]
      change a.toNat * 16 < 2 ^ 256 at hmul
      change d.toNat < 16 at hd
      change a.toNat * 16 + d.toNat < 2 ^ 256
      omega
    · omega
  rw [tryParseHexUintUncheckedBounds, hasPrefix_eq hstop, ok_bind, unprefixed]
  split
  · next hprefixed =>
    have hlong : start + 2 ≤ stop := by
      have htwo := congrArg List.length (eq_of_beq hprefixed)
      rw [List.length_take, length_part hstop] at htwo
      change min 2 (stop - start) = 2 at htwo
      omega
    rw [drop_part]
    exact hread hlong
  · exact hread hstart

/-- **`parseHexUint`** accepts hexadecimal numerals, with or without `0x`. -/
theorem parseHexUintBetween_eq_ok_iff :
    parseHexUintBetween input start stop = .ok value ↔
      start ≤ stop ∧ stop ≤ input.length ∧
        (unprefixed (part input start stop)).all (isDigit 16) ∧
        Numeral.value 16 (digitValues (unprefixed (part input start stop))) = value.toNat := by
  rw [parseHexUintBetween, orThrow_eq_ok_iff, tryParseHexUintBetween, between_eq_ok_iff, and_assoc]
  refine and_congr_right fun hstart => and_congr_right fun hstop => ?_
  rw [tryParseHexUintUncheckedBounds_eq hstart hstop, reading_eq_ok_iff]

/-- **What is written is read back**, whatever the number of digits. -/
theorem parseHexUint_toHexString (htext : toHexString value length = .ok text) :
    parseHexUint text = .ok value := by
  obtain ⟨text', hentries, hrun⟩ := toHexString_eq value (length_of_toHexString htext)
  rw [htext] at hrun
  split at hrun
  · next hfits =>
    obtain rfl : text = text' := Except.ok.inj hrun
    have hds : ∀ d ∈ fixed 16 (2 * length.toNat) value.toNat, d < 16 :=
      fun d hd => lt_of_mem_fixed (by decide) hd
    have hdigits : unprefixed (part text 0 text.length) =
        written (fixed 16 (2 * length.toNat) value.toNat) := by
      rw [part_all, hentries, unprefixed, if_pos (prefixed_iff.mpr ⟨_, rfl⟩)]
      rfl
    refine parseHexUintBetween_eq_ok_iff.mpr ⟨Nat.zero_le _, Nat.le_refl _, ?_⟩
    rw [hdigits, digitValues_written hds, value_fixed hfits]
    exact ⟨all_isDigit_written (by decide) hds, rfl⟩
  · cases hrun

/-- The number 255 with two bytes. -/
theorem parseHexUint_toHexString_ff :
    parseHexUint ⟨['0', 'x', '0', '0', 'f', 'f'].map ascii, by decide⟩ = .ok 255 :=
  @parseHexUint_toHexString ⟨['0', 'x', '0', '0', 'f', 'f'].map ascii, by decide⟩ 255 2 rfl

/-- **What is written with as many bytes as the number has**, which does not fail, is read back. -/
theorem parseHexUint_toHexStringUint (value : UInt256) :
    ∃ text, toHexStringUint value = .ok text ∧
      text.length = 2 * (Nat.log 256 value.toNat + 1) + 2 ∧ parseHexUint text = .ok value := by
  have hlog : Nat.log 256 value.toNat < 32 :=
    Nat.log_lt_of_lt_pow' (by decide) (Nat.lt_of_lt_of_le value.isLt (by decide))
  have hlength : (Math.log256 value + 1).toNat = Nat.log 256 value.toNat + 1 := by
    rw [BitVec.toNat_add, Math.toNat_log256]
    exact Nat.mod_eq_of_lt (show Nat.log 256 value.toNat + 1 < 2 ^ 256 by omega)
  have hfits : value.toNat < 16 ^ (2 * (Math.log256 value + 1).toNat) := by
    rw [hlength, Nat.pow_mul]
    exact Nat.lt_pow_succ_log_self (by decide) value.toNat
  have hshort : 2 * (Math.log256 value + 1).toNat + 2 < maxArrayLength := by
    rw [hlength]
    exact Nat.lt_of_lt_of_le (show 2 * (Nat.log 256 value.toNat + 1) + 2 < 67 by omega) (by decide)
  obtain ⟨text, hentries, hrun⟩ := toHexString_eq value hshort
  rw [if_pos hfits] at hrun
  refine ⟨text, hrun, ?_, parseHexUint_toHexString hrun⟩
  rw [DynArray.length, hentries, List.length_cons, List.length_cons, written, List.length_map,
    length_fixed, hlength]

/-- The digits of an address, with or without `0x`. -/
theorem unprefixed_iff {digits : List Byte} {ds : List ℕ} (hlength : ds.length = 40)
    (hds : ∀ d ∈ ds, d < 16) :
    (digits.length = (if prefixed digits then 42 else 40) ∧
        (unprefixed digits).map toLower = written ds) ↔
      digits.map toLower = written ds ∨
        digits.map toLower = ascii '0' :: ascii 'x' :: written ds := by
  by_cases hprefixed : prefixed digits
  · obtain ⟨rest, rfl⟩ := prefixed_iff.mp hprefixed
    rw [unprefixed, if_pos hprefixed, if_pos hprefixed]
    refine ⟨?_, ?_⟩
    · rintro ⟨-, hrest⟩
      exact .inr (congrArg (ascii '0' :: ascii 'x' :: ·) hrest)
    · rintro (hbare | hfull)
      · -- the `x` is not a digit
        have hall := ((map_toLower_iff hds).mp hbare).1
        exact absurd (List.all_eq_true.mp hall (ascii 'x') (by simp)) (by decide)
      · have hrest : rest.map toLower = written ds := (List.cons.inj (List.cons.inj hfull).2).2
        have hlen := congrArg List.length hrest
        rw [List.length_map, written, List.length_map, hlength] at hlen
        exact ⟨by rw [List.length_cons, List.length_cons, hlen], hrest⟩
  · rw [unprefixed, if_neg hprefixed, if_neg hprefixed]
    refine ⟨?_, ?_⟩
    · rintro ⟨-, hbare⟩
      exact .inl hbare
    · rintro (hbare | hfull)
      · have hlen := congrArg List.length hbare
        rw [List.length_map, written, List.length_map, hlength] at hlen
        exact ⟨hlen, hbare⟩
      · obtain ⟨first, digits, rfl, hfirst, hrest⟩ := List.map_eq_cons_iff.mp hfull
        obtain ⟨second, rest, rfl, hsecond, -⟩ := List.map_eq_cons_iff.mp hrest
        rw [toLower_zero first hfirst, toLower_x second hsecond] at hprefixed
        exact absurd (prefixed_iff.mpr ⟨rest, rfl⟩) hprefixed

/-- What is read as an address. -/
theorem tryParseAddress_iff {digits : List Byte} :
    (digits.length = (if prefixed digits then 42 else 40) ∧
        ∃ v, reading 16 0 (unprefixed digits) = .ok (true, v) ∧ addr = v.setWidth 160) ↔
      digits.map toLower = written (fixed 16 40 addr.toNat) ∨
        digits.map toLower = ascii '0' :: ascii 'x' :: written (fixed 16 40 addr.toNat) := by
  have hds : ∀ d ∈ fixed 16 40 addr.toNat, d < 16 := fun d hd => lt_of_mem_fixed (by decide) hd
  rw [← unprefixed_iff (length_fixed 16 40 addr.toNat) hds, map_toLower_iff hds]
  refine and_congr_right fun hlength => ?_
  have hforty : (digitValues (unprefixed digits)).length = 40 := by
    rw [digitValues, List.length_map, unprefixed]
    split at hlength
    · next hprefixed => rw [if_pos hprefixed, List.length_drop, hlength]
    · next hbare => rw [if_neg hbare, hlength]
  refine ⟨?_, ?_⟩
  · rintro ⟨v, hreading, rfl⟩
    obtain ⟨hall, hvalue⟩ := reading_eq_ok_iff.mp hreading
    have hdigits : ∀ d ∈ digitValues (unprefixed digits), d < 16 :=
      fun d hd => lt_of_mem_digitValues hall hd
    have hfits : v.toNat < 2 ^ 160 := by
      rw [← hvalue]
      exact Nat.lt_of_lt_of_le (value_lt_pow (by decide) hdigits) (by rw [hforty]; decide)
    refine ⟨hall, ?_⟩
    rw [BitVec.toNat_setWidth, Nat.mod_eq_of_lt hfits, ← hvalue, ← hforty]
    exact (fixed_value hdigits).symm
  · rintro ⟨hall, hvalues⟩
    have hfits : addr.toNat < 16 ^ 40 := Nat.lt_of_lt_of_le addr.isLt (by decide)
    refine ⟨addr.setWidth 256, reading_eq_ok_iff.mpr ⟨hall, ?_⟩, ?_⟩
    · rw [hvalues, value_fixed hfits, toNat_setWidth_address]
    · rw [BitVec.setWidth_setWidth_of_le addr (by decide), BitVec.setWidth_eq]

/-- **`parseAddress`** accepts what is written for an address, with or without `0x`, whatever the
case of the letters. -/
theorem parseAddressBetween_eq_ok_iff :
    parseAddressBetween input start stop = .ok addr ↔
      start ≤ stop ∧ stop ≤ input.length ∧
        ∃ text, toHexStringAddress addr = .ok text ∧
          ((part input start stop).map toLower = text.entries ∨
            (part input start stop).map toLower = text.entries.drop 2) := by
  obtain ⟨text, htext, hentries⟩ := toHexStringAddress_eq addr
  have hwritten : (∃ text, toHexStringAddress addr = .ok text ∧
      ((part input start stop).map toLower = text.entries ∨
        (part input start stop).map toLower = text.entries.drop 2)) ↔
      (part input start stop).map toLower = written (fixed 16 40 addr.toNat) ∨
        (part input start stop).map toLower =
          ascii '0' :: ascii 'x' :: written (fixed 16 40 addr.toNat) := by
    rw [htext]
    refine ⟨?_, ?_⟩
    · rintro ⟨text', htext', hpart⟩
      obtain rfl := Except.ok.inj htext'
      rw [hentries] at hpart
      exact hpart.symm
    · intro hpart
      refine ⟨text, rfl, ?_⟩
      rw [hentries]
      exact hpart.symm
  rw [parseAddressBetween, orThrow_eq_ok_iff, tryParseAddressBetween, between_eq_ok_iff, and_assoc]
  refine and_congr_right fun hstart => and_congr_right fun hstop => ?_
  rw [hwritten, ← tryParseAddress_iff, hasPrefix_eq hstop, ok_bind,
    tryParseHexUintUncheckedBounds_eq hstart hstop, length_part hstop]
  by_cases hlength : stop - start = if prefixed (part input start stop) then 42 else 40
  · rw [and_iff_right hlength]
    dsimp only
    rw [if_pos (by simpa using hlength)]
    refine ⟨?_, ?_⟩
    · intro h
      obtain ⟨⟨success, v⟩, hreading, hresult⟩ := bind_eq_ok h
      cases hresult
      exact ⟨v, hreading, rfl⟩
    · rintro ⟨v, hreading, rfl⟩
      rw [hreading]
      rfl
  · dsimp only
    rw [if_neg (by simpa using hlength)]
    refine ⟨?_, ?_⟩
    · rintro ⟨⟩
    · rintro ⟨hlength', -⟩
      exact absurd hlength' hlength

/-! ## Checksums -/

theorem hexDigit_mem : ∀ d < 16, hexDigit d ∈ hexDigits := by decide

/-- The letters are those that `toHexString` writes, so a flipped bit changes their case. -/
theorem toLower_flip :
    ∀ chr ∈ hexDigits, chr > 96 → toLower (chr ^^^ 0x20) = toLower chr := by
  decide

/-- **The loop of `toChecksumHexString`** changes nothing but the case of letters. -/
theorem writeChecksum_eq (hashValue : UInt256) {i : ℕ} (hi : i + 2 ≤ buffer.entries.length)
    (hdigits : ∀ chr ∈ (buffer.entries.take (i + 2)).drop 2, chr ∈ hexDigits) :
    ∃ buffer', writeChecksum i hashValue buffer = .ok buffer' ∧
      buffer'.entries.map toLower = buffer.entries.map toLower := by
  induction i generalizing hashValue buffer with
  | zero => exact ⟨buffer, rfl, rfl⟩
  | succ i ih =>
    have hlt : i + 2 < buffer.entries.length := by omega
    have hget : buffer.get (i + 2) = .ok buffer.entries[i + 2] :=
      DynArray.get_ok (List.getElem?_eq_getElem hlt)
    have hbelow : ∀ chr ∈ (buffer.entries.take (i + 2)).drop 2, chr ∈ hexDigits := by
      intro chr hchr
      refine hdigits chr ((List.take_sublist_take_left ?_ |>.drop 2).subset hchr)
      omega
    rw [writeChecksum, hget, checked_ok, ok_bind]
    dsimp only
    split
    · next hflip =>
      have hmem : buffer.entries[i + 2] ∈ (buffer.entries.take (i + 1 + 2)).drop 2 := by
        refine List.mem_iff_getElem?.mpr ⟨i, ?_⟩
        rw [List.getElem?_drop, List.getElem?_take_of_lt (by omega), Nat.add_comm 2 i,
          List.getElem?_eq_getElem hlt]
      have hlower : toLower (buffer.entries[i + 2] ^^^ 0x20) = toLower buffer.entries[i + 2] :=
        toLower_flip _ (hdigits _ hmem) (of_decide_eq_true (Bool.and_eq_true_iff.mp hflip).2)
      obtain ⟨buffer₁, hset, hbuffer₁⟩ := DynArray.set_ok hlt (buffer.entries[i + 2] ^^^ 0x20)
      have hmap : buffer₁.entries.map toLower = buffer.entries.map toLower := by
        have hltMap : i + 2 < (buffer.entries.map toLower).length := by rwa [List.length_map]
        have hself := List.set_getElem_self hltMap
        rwa [List.getElem_map, ← hlower, ← List.map_set, ← hbuffer₁] at hself
      obtain ⟨buffer', hrun, hbuffer'⟩ := ih (hashValue >>> 4)
        (show i + 2 ≤ buffer₁.entries.length by rw [hbuffer₁, List.length_set]; omega)
        (by rw [hbuffer₁, List.take_set_of_le (Nat.le_refl _)]; exact hbelow)
      refine ⟨buffer', ?_, hbuffer'.trans hmap⟩
      rw [hset, checked_ok, ok_bind, hrun]
    · exact ih (hashValue >>> 4) (by omega) hbelow

/-- **An address is read back from its checksummed form**, whatever the hash is. -/
theorem parseAddress_toChecksumHexString (keccak256 : List Byte → UInt256) (addr : Address) :
    ∃ text, toChecksumHexString keccak256 addr = .ok text ∧ parseAddress text = .ok addr := by
  obtain ⟨buffer, hbuffer, hentries⟩ := toHexStringAddress_eq addr
  have hlength : buffer.entries.length = 42 := by
    rw [hentries, List.length_cons, List.length_cons, written, List.length_map, length_fixed]
  have hds : ∀ d ∈ fixed 16 40 addr.toNat, d < 16 := fun d hd => lt_of_mem_fixed (by decide) hd
  have hdigits : ∀ chr ∈ (buffer.entries.take (40 + 2)).drop 2, chr ∈ hexDigits := by
    rw [List.take_of_length_le hlength.le, hentries]
    intro chr hchr
    obtain ⟨d, hd, rfl⟩ := List.mem_map.mp hchr
    exact hexDigit_mem d (hds d hd)
  obtain ⟨text, htext, hlower⟩ := writeChecksum_eq
    (keccak256 ((buffer.entries.drop 2).take 40) >>> 96) hlength.ge hdigits
  refine ⟨text, by rw [toChecksumHexString, hbuffer, ok_bind, htext], ?_⟩
  refine parseAddressBetween_eq_ok_iff.mpr
    ⟨Nat.zero_le _, Nat.le_refl _, buffer, hbuffer, .inl ?_⟩
  have hwritten :
      (written (fixed 16 40 addr.toNat)).map toLower = written (fixed 16 40 addr.toNat) :=
    (map_toLower_iff hds).mpr ⟨all_isDigit_written (by decide) hds, digitValues_written hds⟩
  rw [part_all, hlower, hentries]
  exact congrArg (ascii '0' :: ascii 'x' :: ·) hwritten

end Strings

end NftGame

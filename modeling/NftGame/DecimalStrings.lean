import Mathlib.Data.Nat.Log
import NftGame.Digits
import NftGame.ERC721

/-!
# Decimal strings

`toString` writes the shortest decimal numeral of a number, into a buffer whose length it has
taken from the logarithm (`toString_eq`): the two loops agree on the number of digits, or it
would leave zero bytes in front of them or write outside of the buffer. `parseUint` accepts what
`toString` writes, with any number of zeros in front of it, and the empty string, and nothing
else (`parseUintBetween_eq_ok_iff`). So the token is read back from the URI that `ERC721` gives
for it.
-/

namespace NftGame

open Solidity Numeral

/-! ## The logarithm -/

namespace Math

variable {k : ℕ} {value : UInt256} {s : UInt256 × UInt256}

/-- What the steps of `log10` keep, and how far they have come. -/
def Counted (value : UInt256) (k : ℕ) (s : UInt256 × UInt256) : Prop :=
  s.1.toNat < 10 ^ k ∧ s.2.toNat + Nat.log 10 s.1.toNat = Nat.log 10 value.toNat

/-- A step halves the number of digits that can be left. -/
theorem Counted.divideOut (hk : k ≤ 64) (h : Counted value (k + k) s) :
    Counted value k (divideOut k s) := by
  obtain ⟨left, count⟩ := s
  obtain ⟨hlt, hcount⟩ := h
  change left.toNat < 10 ^ (k + k) at hlt
  change count.toNat + Nat.log 10 left.toNat = Nat.log 10 value.toNat at hcount
  have hpow : 10 ^ k < 2 ^ 256 :=
    Nat.lt_of_le_of_lt (Nat.pow_le_pow_right (by decide) hk) (by decide)
  have hpowNat : (BitVec.ofNat 256 (10 ^ k)).toNat = 10 ^ k := by
    rw [BitVec.toNat_ofNat, Nat.mod_eq_of_lt hpow]
  rw [Math.divideOut]
  split
  · next hge =>
    rw [ge_iff_le, BitVec.le_def, hpowNat] at hge
    have hpos : 0 < 10 ^ k := Nat.pow_pos (by decide)
    have hle : k ≤ Nat.log 10 left.toNat :=
      (Nat.le_log_iff_pow_le (by decide) (by omega)).mpr hge
    -- the count is a logarithm, so it does not overflow
    have hfits : count.toNat + k < 2 ^ 256 := by
      have hlog := Nat.log_le_self 10 value.toNat
      have hvalue := value.isLt
      omega
    have hkNat : (BitVec.ofNat 256 k).toNat = k := by
      rw [BitVec.toNat_ofNat, Nat.mod_eq_of_lt (by omega)]
    refine ⟨?_, ?_⟩
    · rw [BitVec.toNat_udiv, hpowNat]
      exact Nat.div_lt_of_lt_mul (by rwa [← Nat.pow_add])
    · rw [BitVec.toNat_udiv, hpowNat, Nat.log_div_base_pow, BitVec.toNat_add, hkNat,
        Nat.mod_eq_of_lt hfits]
      omega
  · next hlt' =>
    rw [ge_iff_le, BitVec.le_def, hpowNat] at hlt'
    exact ⟨show left.toNat < 10 ^ k from Nat.lt_of_not_le hlt', hcount⟩

/-- `log10` is the logarithm. -/
theorem toNat_log10 (value : UInt256) : (log10 value).toNat = Nat.log 10 value.toNat := by
  have h128 : Counted value 128 (value, 0) :=
    ⟨Nat.lt_trans value.isLt (by decide), Nat.zero_add _⟩
  have h64 := h128.divideOut (k := 64) (by decide)
  have h32 := h64.divideOut (k := 32) (by decide)
  have h16 := h32.divideOut (k := 16) (by decide)
  have h8 := h16.divideOut (k := 8) (by decide)
  have h4 := h8.divideOut (k := 4) (by decide)
  obtain ⟨hlt, hcount⟩ := h4.divideOut (k := 2) (by decide)
  rw [log10]
  generalize divideOut 2 _ = s at hlt hcount ⊢
  split
  · next hge =>
    have hten : 10 ≤ s.1.toNat := hge
    rw [Nat.log_eq_one_iff'.mpr ⟨hten, hlt⟩] at hcount
    have hlog := Nat.log_le_self 10 value.toNat
    have hvalue := value.isLt
    rw [BitVec.toNat_add, ← hcount]
    exact Nat.mod_eq_of_lt (show s.2.toNat + 1 < 2 ^ 256 by omega)
  · next hlt' =>
    have hten : s.1.toNat < 10 := Nat.lt_of_not_le hlt'
    rw [← hcount, Nat.log_of_lt hten, Nat.add_zero]

/-- A number has at most 78 digits. -/
theorem log_lt (value : UInt256) : Nat.log 10 value.toNat < 78 :=
  Nat.log_lt_of_lt_pow' (by decide) (Nat.lt_trans value.isLt (by decide))

end Math

namespace Strings

variable {value : UInt256} {input : Bytes} {start stop : ℕ}

/-! ## Writing -/

theorem mstore8_ok {buffer : Bytes} {ptr : ℕ} (hptr : ptr < buffer.entries.length) (chr : Byte) :
    ∃ buffer', mstore8 buffer ptr chr = .ok buffer' ∧
      buffer'.entries = buffer.entries.take ptr ++ chr :: buffer.entries.drop (ptr + 1) := by
  have hset := List.set_eq_take_append_cons_drop (l := buffer.entries) (i := ptr) (a := chr)
  rw [if_pos hptr] at hset
  rw [mstore8, if_pos hptr]
  exact ⟨_, rfl, hset⟩

/-- **The loop of `toString`**, at a place with room for the digits in front of it. -/
theorem writeDigits_eq {buffer : Bytes} {ptr : ℕ}
    (hroom : (numeral 10 value.toNat).length ≤ ptr) (hptr : ptr ≤ buffer.entries.length) :
    ∃ buffer', writeDigits ptr value buffer = .ok buffer' ∧
      buffer'.entries = buffer.entries.take (ptr - (numeral 10 value.toNat).length) ++
        written (numeral 10 value.toNat) ++ buffer.entries.drop ptr := by
  induction ptr generalizing value buffer with
  | zero =>
    rw [length_numeral (by decide)] at hroom
    omega
  | succ ptr ih =>
    have hlt : ptr < buffer.entries.length := hptr
    obtain ⟨buffer₁, hstore, hentries⟩ := mstore8_ok hlt (hexDigit (value % 10).toNat)
    have hmod : (value % 10).toNat = value.toNat % 10 := BitVec.toNat_umod
    have hdiv : (value / 10).toNat = value.toNat / 10 := BitVec.toNat_udiv
    have htake : (buffer.entries.take ptr).length = ptr := by
      rw [List.length_take, Nat.min_eq_left (by omega)]
    rw [writeDigits, hstore, ok_bind]
    by_cases hlast : value.toNat < 10
    · -- this was the first digit
      have hzero : value / 10 = 0 :=
        BitVec.eq_of_toNat_eq (by rw [hdiv, Nat.div_eq_of_lt hlast]; rfl)
      refine ⟨buffer₁, by rw [hzero]; rfl, ?_⟩
      rw [numeral_of_lt hlast, hentries, hmod, Nat.mod_eq_of_lt hlast]
      simp [written]
    · have hne : (value / 10 == 0) = false := by
        rw [beq_eq_false_iff_ne]
        intro hzero
        have hnat := congrArg BitVec.toNat hzero
        rw [hdiv] at hnat
        change value.toNat / 10 = 0 at hnat
        omega
      rw [numeral_of_le (by decide) (by omega), ← hdiv] at hroom ⊢
      rw [List.length_append, List.length_singleton] at hroom ⊢
      have hlen : ptr ≤ buffer₁.entries.length := by
        rw [hentries, List.length_append, htake]
        omega
      obtain ⟨buffer', hrun, hbuffer'⟩ := ih (Nat.le_of_succ_le_succ hroom) hlen
      refine ⟨buffer', (if_neg (by rw [hne]; decide)).trans hrun, ?_⟩
      rw [hbuffer', hentries, List.take_append_of_le_length (by omega), List.take_take,
        Nat.min_eq_left (by omega), List.drop_left' htake, Nat.add_sub_add_right, ← hmod]
      simp [written]

/-- **`toString`** writes the shortest numeral. It does not fail. -/
theorem toString_eq (value : UInt256) :
    ∃ text, toString value = .ok text ∧ text.entries = written (numeral 10 value.toNat) := by
  have hlog := Math.log_lt value
  have hlength : (Math.log10 value + 1).toNat = (numeral 10 value.toNat).length := by
    rw [length_numeral (by decide), BitVec.toNat_add, Math.toNat_log10]
    exact Nat.mod_eq_of_lt (show Nat.log 10 value.toNat + 1 < 2 ^ 256 by omega)
  have hsmall : (numeral 10 value.toNat).length < maxArrayLength := by
    rw [length_numeral (by decide)]
    exact Nat.lt_of_lt_of_le (show Nat.log 10 value.toNat + 1 < 79 by omega) (by decide)
  obtain ⟨buffer, hnew, hentries⟩ := DynArray.new_ok hsmall (0 : Byte)
  have hbuffer : buffer.entries.length = (numeral 10 value.toNat).length := by
    rw [hentries, List.length_replicate]
  obtain ⟨text, hrun, htext⟩ := writeDigits_eq (Nat.le_refl _) hbuffer.ge
  refine ⟨text, ?_, ?_⟩
  · rw [toString, hlength, hnew, checked_ok, ok_bind, hrun]
  · rw [htext, Nat.sub_self, List.take_zero, List.nil_append, ← hbuffer, List.drop_length,
      List.append_nil]

/-! ## Reading -/

/-- A string that stands for a number: what `toString` writes for it, with any number of zeros in
front; or, for 0, the empty string. -/
def Denotes (text : List Byte) (value : UInt256) : Prop :=
  (text = [] ∧ value = 0) ∨
    ∃ zeros digits, toString value = .ok digits ∧
      text = List.replicate zeros (ascii '0') ++ digits.entries

theorem denotes_iff_written {text : List Byte} :
    Denotes text value ↔ (text = [] ∧ value = 0) ∨
      ∃ zeros, text = written (List.replicate zeros 0 ++ numeral 10 value.toNat) := by
  obtain ⟨digits, hdigits, hentries⟩ := toString_eq value
  have hzeros (zeros : ℕ) : List.replicate zeros (ascii '0') ++ digits.entries =
      written (List.replicate zeros 0 ++ numeral 10 value.toNat) := by
    rw [hentries, written, written, List.map_append, List.map_replicate]
    rfl
  refine or_congr_right (exists_congr fun zeros => ?_)
  rw [← hzeros]
  refine ⟨?_, ?_⟩
  · rintro ⟨digits', hdigits', htext⟩
    obtain rfl : digits = digits' := Except.ok.inj (hdigits.symm.trans hdigits')
    exact htext
  · intro htext
    exact ⟨digits, hdigits, htext⟩

/-- These are all strings of digits. -/
theorem denotes_iff {text : List Byte} :
    Denotes text value ↔
      text.all (isDigit 10) ∧ Numeral.value 10 (digitValues text) = value.toNat := by
  rw [denotes_iff_written]
  refine ⟨?_, ?_⟩
  · rintro (⟨rfl, rfl⟩ | ⟨zeros, rfl⟩)
    · exact ⟨rfl, rfl⟩
    · have hlt : ∀ d ∈ List.replicate zeros 0 ++ numeral 10 value.toNat, d < 10 := by
        intro d hd
        rcases List.mem_append.mp hd with hd | hd
        · rw [List.eq_of_mem_replicate hd]
          decide
        · exact lt_of_mem_numeral (by decide) hd
      refine ⟨all_isDigit_written (by decide) hlt, ?_⟩
      rw [digitValues_written fun d hd => Nat.lt_trans (hlt d hd) (by decide),
        value_zeros_append, value_numeral]
  · rintro ⟨hall, hvalue⟩
    rcases eq_zeros_numeral (by decide) fun d hd => lt_of_mem_digitValues hall hd with
      hnil | ⟨zeros, hzeros⟩
    · rw [hnil, value_nil] at hvalue
      exact .inl ⟨List.map_eq_nil_iff.mp hnil, BitVec.eq_of_toNat_eq hvalue.symm⟩
    · refine .inr ⟨zeros, ?_⟩
      rw [hvalue] at hzeros
      rw [← hzeros, written_digitValues hall]

/-- A number has been read. -/
theorem reading_denotes {text : List Byte} :
    reading 10 0 text = .ok (true, value) ↔ Denotes text value :=
  reading_eq_ok_iff.trans denotes_iff.symm

/-- Decimal numbers between two positions, which are checked. -/
theorem tryParseUintBetween_eq (hstart : start ≤ stop) (hstop : stop ≤ input.length) :
    tryParseUintBetween input start stop = reading 10 0 (part input start stop) := by
  rw [tryParseUintBetween, if_neg (by simp [hstart, hstop]),
    tryParseUintUncheckedBounds_eq hstart hstop]

/-- **`parseUint`** accepts the strings that stand for a number. -/
theorem parseUintBetween_eq_ok_iff :
    parseUintBetween input start stop = .ok value ↔
      start ≤ stop ∧ stop ≤ input.length ∧ Denotes (part input start stop) value := by
  rw [parseUintBetween, orThrow_eq_ok_iff, tryParseUintBetween, between_eq_ok_iff, and_assoc]
  refine and_congr_right fun hstart => and_congr_right fun hstop => ?_
  rw [tryParseUintUncheckedBounds_eq hstart hstop, reading_denotes]

/-- The number that a string starts with, which may be too large. -/
def leading (text : List Byte) : ℕ :=
  Numeral.value 10 (digitValues (text.takeWhile (isDigit 10)))

theorem reading_eq_leading (text : List Byte) :
    reading 10 0 text =
      if leading text < 2 ^ 256 then
        .ok (if text.all (isDigit 10) then (true, BitVec.ofNat 256 (leading text)) else (false, 0))
      else .error (.revert (.panic 0x11)) := rfl

/-- **How `parseUint` fails**: with an overflow if the part starts with too large a number, also
if it has invalid characters behind that, and otherwise with the error of the library. -/
theorem parseUintBetween_eq_error_iff {e : Error} :
    parseUintBetween input start stop = .error e ↔
      (e = .revert (.panic 0x11) ∧ start ≤ stop ∧ stop ≤ input.length ∧
        2 ^ 256 ≤ leading (part input start stop)) ∨
      (e = .invalidChar ∧ (start ≤ stop → stop ≤ input.length →
        leading (part input start stop) < 2 ^ 256 ∧
          ¬(part input start stop).all (isDigit 10))) := by
  by_cases hpart : start ≤ stop ∧ stop ≤ input.length
  · obtain ⟨hstart, hstop⟩ := hpart
    rw [parseUintBetween, tryParseUintBetween_eq hstart hstop, reading_eq_leading]
    split
    · next hfits =>
      by_cases hall : (part input start stop).all (isDigit 10)
      · rw [if_pos hall]
        refine ⟨?_, ?_⟩
        · rintro ⟨⟩
        · rintro (⟨-, -, -, hover⟩ | ⟨-, hnone⟩)
          · omega
          · exact absurd hall (hnone hstart hstop).2
      · rw [if_neg hall]
        refine ⟨?_, ?_⟩
        · rintro ⟨⟩
          exact .inr ⟨rfl, fun _ _ => ⟨hfits, hall⟩⟩
        · rintro (⟨-, -, -, hover⟩ | ⟨rfl, -⟩)
          · omega
          · rfl
    · next hover =>
      refine ⟨?_, ?_⟩
      · rintro ⟨⟩
        exact .inl ⟨rfl, hstart, hstop, Nat.le_of_not_lt hover⟩
      · rintro (⟨rfl, -⟩ | ⟨-, hnone⟩)
        · rfl
        · exact absurd (hnone hstart hstop).1 hover
  · rw [parseUintBetween, tryParseUintBetween,
      if_pos (by simpa [imp_iff_or_not, or_comm] using hpart)]
    refine ⟨?_, ?_⟩
    · rintro ⟨⟩
      exact .inr ⟨rfl, fun hstart hstop => absurd ⟨hstart, hstop⟩ hpart⟩
    · rintro (⟨-, hstart, hstop, -⟩ | ⟨rfl, -⟩)
      · exact absurd ⟨hstart, hstop⟩ hpart
      · rfl

end Strings

/-! ## Token URIs -/

namespace ERC721

variable {baseURI uri : Strings.Bytes} {tokenId : UInt256} {s : State}

/-- A URI is made of the base and the number of the token. -/
theorem entries_tokenURI (hbase : 0 < baseURI.length)
    (huri : tokenURI baseURI tokenId s = .ok uri) :
    ∃ digits, Strings.toString tokenId = .ok digits ∧
      uri.entries = baseURI.entries ++ digits.entries := by
  obtain ⟨digits, hdigits, -⟩ := Strings.toString_eq tokenId
  obtain ⟨owner, -, huri⟩ := bind_eq_ok huri
  rw [if_pos hbase, hdigits] at huri
  change (Strings.concat baseURI digits).mapError _ = _ at huri
  refine ⟨digits, hdigits, ?_⟩
  rw [Strings.concat] at huri
  split at huri
  · obtain rfl := Except.ok.inj huri
    rfl
  · cases huri

/-- **A token is read back from its URI.** -/
theorem tokenURI_read_back (hbase : 0 < baseURI.length)
    (huri : tokenURI baseURI tokenId s = .ok uri) :
    Strings.parseUintBetween uri baseURI.length uri.length = .ok tokenId := by
  obtain ⟨digits, hdigits, hentries⟩ := entries_tokenURI hbase huri
  have hlength : uri.length = baseURI.length + digits.length := by
    rw [DynArray.length, hentries, List.length_append]
  refine Strings.parseUintBetween_eq_ok_iff.mpr
    ⟨by omega, Nat.le_refl _, .inr ⟨0, digits, hdigits, ?_⟩⟩
  rw [Strings.part, hentries, List.drop_left, hlength, Nat.add_sub_cancel_left, List.take_length,
    List.replicate_zero, List.nil_append]

/-- Token 42 of a contract that keeps its tokens under `ipfs/`. -/
theorem tokenURI_read_back_ipfs :
    Strings.parseUintBetween
        ⟨['i', 'p', 'f', 's', '/', '4', '2'].map Strings.ascii, by decide⟩ 5 7 = .ok 42 :=
  @tokenURI_read_back ⟨['i', 'p', 'f', 's', '/'].map Strings.ascii, by decide⟩ _ 42
    ⟨fun _ => 1, fun _ => 1, fun _ => 0, fun _ _ => false, []⟩ (by decide) rfl

end ERC721

end NftGame

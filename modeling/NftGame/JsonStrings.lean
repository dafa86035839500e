import NftGame.Digits

/-!
# JSON strings

`escapeJSON` is to make a string fit for a JSON string in double quotes. It escapes the quote,
the backslash and the five control characters that have a letter. All other control characters
it copies, though JSON does not allow them in a string. If there are none of these, who reads the
string (`readString`) gets back what has been escaped, and stops at the closing quote and not
before. If there are, it is refused, whatever follows; so nothing can be injected into the JSON
around it either way (`escapeJSON_read_back`).
-/

namespace NftGame

open Solidity

namespace Strings

variable {input : Bytes} {n : ℕ} {done : List Byte} {s : Bytes × ℕ}

/-! ## Reading JSON -/

/-- The byte that a backslash and a letter stand for. -/
def unescape (letter : Byte) : Option Byte :=
  if letter = ascii 'b' then some 0x08
  else if letter = ascii 't' then some 0x09
  else if letter = ascii 'n' then some 0x0a
  else if letter = ascii 'f' then some 0x0c
  else if letter = ascii 'r' then some 0x0d
  else if letter = 0x22 ∨ letter = 0x5c ∨ letter = ascii '/' then some letter
  else none

/-- Read a JSON string behind its opening quote: what it stands for, and what follows behind the
closing quote. A control character that is not escaped is an error. Escapes by number are not
read, and whether the bytes are UTF-8 is not checked. -/
def readString : List Byte → Option (List Byte × List Byte)
  | [] => none
  | [chr] => if chr = 0x22 then some ([], []) else none
  | chr :: letter :: rest =>
    if chr = 0x22 then some ([], letter :: rest)
    else if chr = 0x5c then do
      let chr ← unescape letter
      let (text, rest) ← readString rest
      return (chr :: text, rest)
    else if chr < 0x20 then none
    else do
      let (text, rest) ← readString (letter :: rest)
      return (chr :: text, rest)

/-- What a byte is escaped to. -/
def escape (chr : Byte) : List Byte :=
  if isSpecial chr then 0x5c :: (escapeLetter chr).toList else [chr]

/-- The table of special bytes and the letters for them agree, and the letters stand for them. -/
theorem unescape_escapeLetter :
    ∀ chr : Byte, isSpecial chr → (escapeLetter chr).bind unescape = some chr := by
  decide

/-- A control character for which there is no letter. -/
def isRawControl (chr : Byte) : Bool := chr < 0x20 && chr ∉ [0x08, 0x09, 0x0a, 0x0c, 0x0d]

/-- A special byte is none of these. -/
theorem isRawControl_of_special : ∀ chr : Byte, isSpecial chr → isRawControl chr = false := by
  decide

/-- All others stand for themselves, or for nothing if they are control characters. -/
theorem of_not_special : ∀ chr : Byte, isSpecial chr = false →
    chr ≠ 0x22 ∧ chr ≠ 0x5c ∧ (isRawControl chr ↔ chr < 0x20) := by
  decide

theorem length_escape_le (chr : Byte) : (escape chr).length ≤ 2 := by
  rw [escape]
  split
  · have hletter : (escapeLetter chr).toList.length ≤ 1 := Option.length_toList_le
    rw [List.length_cons]
    omega
  · exact Nat.le_succ 1

theorem readString_quote (rest : List Byte) : readString (0x22 :: rest) = some ([], rest) := by
  cases rest with
  | nil => exact if_pos rfl
  | cons letter rest => exact if_pos rfl

/-- An escaped byte is read as the byte, unless it is a control character still. Something has to
follow, the closing quote at least. -/
theorem readString_escape (chr : Byte) {next : List Byte} (hnext : next ≠ []) :
    readString (escape chr ++ next) =
      if isRawControl chr then none
      else (readString next).map fun (text, rest) => (chr :: text, rest) := by
  rw [escape]
  rcases hspecial : isSpecial chr with - | -
  · obtain ⟨hquote, hbackslash, hcontrol⟩ := of_not_special chr hspecial
    obtain ⟨letter, rest, rfl⟩ := List.exists_cons_of_ne_nil hnext
    rw [if_neg Bool.false_ne_true, List.singleton_append, readString, if_neg hquote,
      if_neg hbackslash]
    by_cases hraw : isRawControl chr
    · rw [if_pos (hcontrol.mp hraw), if_pos hraw]
    · rw [if_neg fun hlt => hraw (hcontrol.mpr hlt), if_neg hraw]
      cases readString (letter :: rest) <;> rfl
  · have hletter := unescape_escapeLetter chr hspecial
    rcases hescape : escapeLetter chr with - | letter
    · rw [hescape] at hletter
      cases hletter
    · rw [hescape, Option.bind_some] at hletter
      rw [if_pos rfl, Option.toList_some, List.cons_append, List.singleton_append, readString,
        if_neg (by decide), if_pos rfl, hletter, isRawControl_of_special chr hspecial,
        if_neg Bool.false_ne_true]
      cases readString next <;> rfl

/-- An escaped string is read as the string, unless there is a control character in it. -/
theorem readString_escaped (text rest : List Byte) :
    readString (text.flatMap escape ++ 0x22 :: rest) =
      if text.any isRawControl then none else some (text, rest) := by
  induction text with
  | nil => exact readString_quote rest
  | cons chr text ih =>
    have hnext : text.flatMap escape ++ 0x22 :: rest ≠ [] := by simp
    rw [List.flatMap_cons, List.append_assoc, readString_escape chr hnext, ih, List.any_cons]
    rcases isRawControl chr with - | -
    · rw [if_neg Bool.false_ne_true, Bool.false_or]
      split
      · rfl
      · rfl
    · rw [if_pos rfl, Bool.true_or, if_pos rfl]

/-! ## Escaping -/

/-- The output, which has `n` bytes, starts with what is done. -/
def Written (n : ℕ) (done : List Byte) (s : Bytes × ℕ) : Prop :=
  s.1.entries.length = n ∧ s.2 = done.length ∧ s.1.entries.take s.2 = done

theorem write_ok (chr : Byte) (h : Written n done s) (hroom : done.length < n) :
    ∃ s', write chr s = .ok s' ∧ Written n (done ++ [chr]) s' := by
  obtain ⟨output, outputLength⟩ := s
  obtain ⟨hlength, rfl, hdone⟩ := h
  have hlt : done.length < output.entries.length := by rwa [hlength]
  obtain ⟨output', hset, hentries⟩ := DynArray.set_ok hlt chr
  refine ⟨(output', done.length + 1), by rw [write, hset]; rfl, ?_, ?_, ?_⟩
  · rw [hentries, List.length_set, hlength]
  · rw [List.length_append, List.length_singleton]
  · rw [hentries, List.take_add_one, List.take_set_of_le (Nat.le_refl _), hdone,
      List.getElem?_set_self hlt]
    rfl

theorem writeEscape_ok (chr : Byte) (h : Written n done s) (hroom : done.length + 2 ≤ n) :
    ∃ s', writeEscape chr s = .ok s' ∧ Written n (done ++ escape chr) s' := by
  rw [writeEscape, escape]
  split
  · obtain ⟨s₁, hbackslash, h₁⟩ := write_ok 0x5c h (by omega)
    rw [hbackslash, ok_bind]
    cases escapeLetter chr with
    | none => exact ⟨s₁, rfl, h₁⟩
    | some letter =>
      obtain ⟨s₂, hletter, h₂⟩ := write_ok letter h₁ (by
        rw [List.length_append, List.length_singleton]
        omega)
      exact ⟨s₂, hletter, by rwa [List.append_assoc] at h₂⟩
  · exact write_ok chr h (by omega)

/-- **The loop of `escapeJSON`**, which has room for what it writes. -/
theorem writeEscaped_eq {i left : ℕ} (hi : i + left ≤ input.entries.length)
    (h : Written n done s) (hroom : done.length + 2 * left ≤ n) :
    ∃ s', writeEscaped input i left s = .ok s' ∧
      Written n (done ++ ((input.entries.drop i).take left).flatMap escape) s' := by
  induction left generalizing i done s with
  | zero => exact ⟨s, rfl, by rwa [List.take_zero, List.flatMap_nil, List.append_nil]⟩
  | succ left ih =>
    have hlt : i < input.entries.length := by omega
    obtain ⟨s₁, hescape, h₁⟩ := writeEscape_ok input.entries[i] h (by omega)
    have hlength := length_escape_le input.entries[i]
    obtain ⟨s', hrun, h'⟩ := ih (i := i + 1) (by omega) h₁ (by rw [List.length_append]; omega)
    refine ⟨s', ?_, ?_⟩
    · rw [writeEscaped, unsafeReadByte_ok hlt, ok_bind, hescape, ok_bind, hrun]
    · rwa [List.drop_eq_getElem_cons hlt, List.take_succ_cons, List.flatMap_cons,
        ← List.append_assoc]

/-- `escapeJSON` escapes each byte, if there is memory for the worst case. -/
theorem escapeJSON_eq (hlength : 2 * input.length < maxArrayLength) :
    ∃ text, escapeJSON input = .ok text ∧ text.entries = input.entries.flatMap escape := by
  obtain ⟨output, hnew, hentries⟩ := DynArray.new_ok hlength (0 : Byte)
  have hempty : Written (2 * input.length) [] (output, 0) :=
    ⟨by rw [hentries, List.length_replicate], rfl, rfl⟩
  obtain ⟨⟨output', outputLength⟩, hrun, -, -, hdone⟩ :=
    writeEscaped_eq (show 0 + input.entries.length ≤ input.entries.length by omega) hempty
      (Nat.zero_add _).le
  rw [escapeJSON, hnew, checked_ok, ok_bind, hrun, ok_bind]
  refine ⟨_, rfl, ?_⟩
  rwa [List.nil_append, List.drop_zero, List.take_length] at hdone

/-- **What is escaped is read back**, up to the closing quote and not further; but it is refused
if there is a control character in it that has no letter. -/
theorem escapeJSON_read_back (hlength : 2 * input.length < maxArrayLength) :
    ∃ text, escapeJSON input = .ok text ∧
      ∀ rest, readString (text.entries ++ 0x22 :: rest) =
        if input.entries.any isRawControl then none else some (input.entries, rest) := by
  obtain ⟨text, htext, hentries⟩ := escapeJSON_eq hlength
  refine ⟨text, htext, fun rest => ?_⟩
  rw [hentries, readString_escaped]

/-- A quote in the string does not end it, and a vertical tab is refused. -/
theorem escapeJSON_read_back_quote :
    (∃ text, escapeJSON ⟨[ascii 'a', 0x22, ascii 'b'], by decide⟩ = .ok text ∧
      readString (text.entries ++ [0x22, ascii ',']) =
        some ([ascii 'a', 0x22, ascii 'b'], [ascii ','])) ∧
      ∃ text, escapeJSON ⟨[0x0b], by decide⟩ = .ok text ∧
        readString (text.entries ++ [0x22, ascii ',']) = none := by
  obtain ⟨text, htext, hread⟩ :=
    escapeJSON_read_back (show 2 * (⟨[ascii 'a', 0x22, ascii 'b'], by decide⟩ : Bytes).length <
      maxArrayLength by decide)
  obtain ⟨text', htext', hread'⟩ :=
    escapeJSON_read_back (show 2 * (⟨[0x0b], by decide⟩ : Bytes).length < maxArrayLength by decide)
  refine ⟨⟨text, htext, ?_⟩, text', htext', ?_⟩
  · exact (hread [ascii ',']).trans (by decide)
  · exact (hread' [ascii ',']).trans (by decide)

end Strings

end NftGame

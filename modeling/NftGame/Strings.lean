import NftGame.Solidity

/-!
# Strings

The library `Strings` that the repository vendors (`utils/Strings.sol`), function by function,
and what it uses of `Math` and `SignedMath`: numbers and addresses are written as strings and
read back, and strings are escaped for JSON. `ERC721` writes the token into its URI with it.

A string is an array of bytes. Where the source reads or writes memory without a bounds check,
an address outside of the string is the error `outside`. Positions in a string are natural
numbers, as loop counters are; a function and its variant for the part of a string between two
positions are called `f` and `fBetween`.
-/

namespace NftGame

open Solidity

/-! ## Logarithms -/

namespace Math

/-- One of the steps of `log10`: on finding `10 ^ k` in the value, divide by it and count `k`. -/
def divideOut (k : ℕ) (s : UInt256 × UInt256) : UInt256 × UInt256 :=
  let (value, result) := s
  if value ≥ BitVec.ofNat 256 (10 ^ k) then
    (value / BitVec.ofNat 256 (10 ^ k), result + BitVec.ofNat 256 k)
  else
    (value, result)

/-- The logarithm in base 10, rounded down. It is 0 for 0. -/
def log10 (value : UInt256) : UInt256 :=
  let s := divideOut 64 (value, 0)
  let s := divideOut 32 s
  let s := divideOut 16 s
  let s := divideOut 8 s
  let s := divideOut 4 s
  let s := divideOut 2 s
  if s.1 ≥ 10 then s.2 + 1 else s.2

/-- `SafeCast.toUint`. -/
def toUint (b : Bool) : UInt256 := if b then 1 else 0

/-- One of the steps of `log256`: if more than `2 ^ k` bits are left behind the `r` bits found
already, there are `2 ^ k` more. -/
def findBits (k : ℕ) (x r : UInt256) : UInt256 :=
  r ||| toUint (x >>> r.toNat > BitVec.ofNat 256 (2 ^ 2 ^ k - 1)) <<< k

/-- The logarithm in base 256, rounded down. It is 0 for 0. -/
def log256 (x : UInt256) : UInt256 :=
  let r := findBits 7 x 0
  let r := findBits 6 x r
  let r := findBits 5 x r
  let r := findBits 4 x r
  r >>> 3 ||| toUint (x >>> r.toNat > 0xff)

end Math

namespace SignedMath

/-- `int256`, in two's complement. -/
abbrev Int256 : Type := BitVec 256

/-- The absolute value. -/
def abs (n : Int256) : UInt256 :=
  -- all bits are the sign
  let mask := n.sshiftRight 255
  (n + mask) ^^^ mask

end SignedMath

namespace Strings

open SignedMath (Int256)

/-! ## Bytes -/

/-- `bytes1`. -/
abbrev Byte : Type := BitVec 8

/-- `string memory` and `bytes memory`. -/
abbrev Bytes : Type := DynArray Byte

/-- The code of an ASCII character. -/
def ascii (c : Char) : Byte := BitVec.ofNat 8 c.toNat

/-- Why a call of the library ends. -/
inductive Error : Type where
  /-- `StringsInsufficientHexLength(value, length)` -/
  | insufficientHexLength : UInt256 → UInt256 → Error
  /-- `StringsInvalidChar()` -/
  | invalidChar : Error
  /-- `StringsInvalidAddressFormat()` -/
  | invalidAddressFormat : Error
  /-- a check of the language has failed -/
  | revert : Revert → Error
  /-- memory outside of a string has been read or written -/
  | outside : Error
  deriving DecidableEq, Repr

/-- A step that is checked by the language. -/
def checked {α : Type} (x : Except Revert α) : Except Error α := x.mapError .revert

@[simp] theorem checked_ok {α : Type} (a : α) : checked (.ok a) = .ok a := rfl

/-- `string.concat(a, b)`: panics with `0x41` if that is too long. -/
def concat (a b : Bytes) : Except Revert Bytes :=
  if h : a.length + b.length < maxArrayLength then .ok ⟨a.entries ++ b.entries, by simpa using h⟩
  else .error (.panic 0x41)

/-- `mstore8` into a string. -/
def mstore8 (buffer : Bytes) (ptr : ℕ) (value : Byte) : Except Error Bytes :=
  if ptr < buffer.length then
    .ok ⟨buffer.entries.set ptr value, by simpa using buffer.length_lt⟩
  else
    .error .outside

/-- The first byte of the word that `_unsafeReadBytesOffset` reads. -/
def unsafeReadByte (buffer : Bytes) (offset : ℕ) : Except Error Byte :=
  match buffer.entries[offset]? with
  | some chr => .ok chr
  | none => .error .outside

/-- Its first two bytes are `0x`. -/
def unsafeReadPrefix (buffer : Bytes) (offset : ℕ) : Except Error Bool := do
  let first ← unsafeReadByte buffer offset
  let second ← unsafeReadByte buffer (offset + 1)
  return first == ascii '0' && second == ascii 'x'

/-- `HEX_DIGITS`. -/
def hexDigits : List Byte :=
  ['0', '1', '2', '3', '4', '5', '6', '7', '8', '9', 'a', 'b', 'c', 'd', 'e', 'f'].map ascii

/-- A byte of the word `HEX_DIGITS`, which has zeros behind the digits. -/
def hexDigit (i : ℕ) : Byte := hexDigits.getD i 0

/-! ## Writing -/

/-- The loop of `toString`, which stands `ptr` bytes into the buffer. -/
def writeDigits (ptr : ℕ) (value : UInt256) (buffer : Bytes) : Except Error Bytes :=
  match ptr with
  | 0 => .error .outside
  | ptr + 1 => do
    let buffer ← mstore8 buffer ptr (hexDigit (value % 10).toNat)
    let value := value / 10
    if value == 0 then
      return buffer
    writeDigits ptr value buffer

/-- The decimal representation. -/
def toString (value : UInt256) : Except Error Bytes := do
  let length := Math.log10 value + 1
  let buffer ← checked (DynArray.new length.toNat 0)
  writeDigits length.toNat value buffer

/-- The decimal representation of a signed number. -/
def toStringSigned (value : Int256) : Except Error Bytes := do
  let digits ← toString (SignedMath.abs value)
  checked (concat (if value.slt 0 then ⟨[ascii '-'], by decide⟩ else .empty) digits)

/-- The loop of `toHexString`, with `i` digits left to write behind the first two bytes. -/
def writeHexDigits (i : ℕ) (localValue : UInt256) (buffer : Bytes) :
    Except Error (UInt256 × Bytes) :=
  match i with
  | 0 => .ok (localValue, buffer)
  | i + 1 => do
    let buffer ← checked (buffer.set (i + 2) (hexDigit (localValue &&& 0xf).toNat))
    writeHexDigits i (localValue >>> 4) buffer

/-- The hexadecimal representation with `length` bytes. -/
def toHexString (value length : UInt256) : Except Error Bytes := do
  let size ← checked (checkedMul 2 length)
  let size ← checked (checkedAdd size 2)
  let buffer ← checked (DynArray.new size.toNat 0)
  let buffer ← checked (buffer.set 0 (ascii '0'))
  let buffer ← checked (buffer.set 1 (ascii 'x'))
  let (localValue, buffer) ← writeHexDigits (2 * length.toNat) value buffer
  if localValue != 0 then
    throw (.insufficientHexLength value length)
  return buffer

/-- The hexadecimal representation, with as many bytes as the number has. -/
def toHexStringUint (value : UInt256) : Except Error Bytes :=
  toHexString value (Math.log256 value + 1)

/-- The hexadecimal representation of an address. -/
def toHexStringAddress (addr : Address) : Except Error Bytes :=
  toHexString (addr.setWidth 256) 20

/-- The loop of `toChecksumHexString`, with `i` digits left to check behind the first two
bytes. -/
def writeChecksum (i : ℕ) (hashValue : UInt256) (buffer : Bytes) : Except Error Bytes :=
  match i with
  | 0 => .ok buffer
  | i + 1 => do
    let chr ← checked (buffer.get (i + 2))
    let mut buffer := buffer
    if hashValue &&& 0xf > 7 && chr > 96 then
      buffer ← checked (buffer.set (i + 2) (chr ^^^ 0x20))
    writeChecksum i (hashValue >>> 4) buffer

/-- The hexadecimal representation of an address, where the case of the letters is a checksum.
It is taken from a hash of the digits. -/
def toChecksumHexString (keccak256 : List Byte → UInt256) (addr : Address) :
    Except Error Bytes := do
  let buffer ← toHexStringAddress addr
  let hashValue := keccak256 ((buffer.entries.drop 2).take 40) >>> 96
  writeChecksum 40 hashValue buffer

/-! ## Reading -/

/-- The value of a digit, or 255. -/
def tryParseChr (chr : Byte) : Byte :=
  if chr > 47 && chr < 58 then chr - 48
  else if chr > 96 && chr < 103 then chr - 87
  else if chr > 64 && chr < 71 then chr - 55
  else 255

/-- The loop of the parsers, at position `i` with `left` bytes left. -/
def parseDigits (base : UInt256) (add : UInt256 → UInt256 → Except Revert UInt256)
    (input : Bytes) (i left : ℕ) (result : UInt256) : Except Error (Bool × UInt256) :=
  match left with
  | 0 => .ok (true, result)
  | left + 1 => do
    let chr := (tryParseChr (← unsafeReadByte input i)).setWidth 256
    if chr ≥ base then
      return (false, 0)
    let result ← checked (checkedMul result base)
    let result ← checked (add result chr)
    parseDigits base add input (i + 1) left result

/-- Read a number between two positions of the string. -/
def tryParseUintUncheckedBounds (input : Bytes) (start stop : ℕ) :
    Except Error (Bool × UInt256) :=
  parseDigits 10 checkedAdd input start (stop - start) 0

/-- Read a number. -/
def tryParseUint (input : Bytes) : Except Error (Bool × UInt256) :=
  tryParseUintUncheckedBounds input 0 input.length

/-- Read a number between two positions. -/
def tryParseUintBetween (input : Bytes) (start stop : ℕ) : Except Error (Bool × UInt256) :=
  if stop > input.length || start > stop then .ok (false, 0)
  else tryParseUintUncheckedBounds input start stop

/-- Read a number between two positions, or revert. -/
def parseUintBetween (input : Bytes) (start stop : ℕ) : Except Error UInt256 := do
  let (success, value) ← tryParseUintBetween input start stop
  if !success then
    throw .invalidChar
  return value

/-- Read a number, or revert. -/
def parseUint (input : Bytes) : Except Error UInt256 := parseUintBetween input 0 input.length

/-- `2 ** 255`. -/
def absMinInt256 : UInt256 := BitVec.ofNat 256 (2 ^ 255)

/-- The end of `tryParseInt`: put the sign to an absolute value that has been read. -/
def withSign (negativeSign absSuccess : Bool) (absValue : UInt256) : Bool × Int256 :=
  if absSuccess && absValue < absMinInt256 then
    (true, if negativeSign then -absValue else absValue)
  else if absSuccess && negativeSign && absValue == absMinInt256 then
    (true, BitVec.intMin 256)
  else
    (false, 0)

/-- The byte that `tryParseInt` looks at for the sign: none of an empty part of the string. -/
def signByte (input : Bytes) (start stop : ℕ) : Except Error Byte :=
  if start == stop then .ok 0 else unsafeReadByte input start

/-- Read a signed number between two positions of the string. -/
def tryParseIntUncheckedBounds (input : Bytes) (start stop : ℕ) :
    Except Error (Bool × Int256) := do
  let sign ← signByte input start stop
  let positiveSign := sign == ascii '+'
  let negativeSign := sign == ascii '-'
  let offset := if positiveSign || negativeSign then 1 else 0
  let (absSuccess, absValue) ← tryParseUintBetween input (start + offset) stop
  return withSign negativeSign absSuccess absValue

/-- Read a signed number. -/
def tryParseInt (input : Bytes) : Except Error (Bool × Int256) :=
  tryParseIntUncheckedBounds input 0 input.length

/-- Read a signed number between two positions. -/
def tryParseIntBetween (input : Bytes) (start stop : ℕ) : Except Error (Bool × Int256) :=
  if stop > input.length || start > stop then .ok (false, 0)
  else tryParseIntUncheckedBounds input start stop

/-- Read a signed number between two positions, or revert. -/
def parseIntBetween (input : Bytes) (start stop : ℕ) : Except Error Int256 := do
  let (success, value) ← tryParseIntBetween input start stop
  if !success then
    throw .invalidChar
  return value

/-- Read a signed number, or revert. -/
def parseInt (input : Bytes) : Except Error Int256 := parseIntBetween input 0 input.length

/-- There is `0x` at the start of the part between two positions. -/
def hasPrefix (input : Bytes) (start stop : ℕ) : Except Error Bool :=
  if stop > start + 1 then unsafeReadPrefix input start else .ok false

/-- Read a hexadecimal number between two positions of the string. -/
def tryParseHexUintUncheckedBounds (input : Bytes) (start stop : ℕ) :
    Except Error (Bool × UInt256) := do
  let offset := if ← hasPrefix input start stop then 2 else 0
  -- multiplying has left the place of the digit empty, so that adding it is not checked
  parseDigits 16 (fun a b => .ok (a + b)) input (start + offset) (stop - (start + offset)) 0

/-- Read a hexadecimal number. -/
def tryParseHexUint (input : Bytes) : Except Error (Bool × UInt256) :=
  tryParseHexUintUncheckedBounds input 0 input.length

/-- Read a hexadecimal number between two positions. -/
def tryParseHexUintBetween (input : Bytes) (start stop : ℕ) : Except Error (Bool × UInt256) :=
  if stop > input.length || start > stop then .ok (false, 0)
  else tryParseHexUintUncheckedBounds input start stop

/-- Read a hexadecimal number between two positions, or revert. -/
def parseHexUintBetween (input : Bytes) (start stop : ℕ) : Except Error UInt256 := do
  let (success, value) ← tryParseHexUintBetween input start stop
  if !success then
    throw .invalidChar
  return value

/-- Read a hexadecimal number, or revert. -/
def parseHexUint (input : Bytes) : Except Error UInt256 :=
  parseHexUintBetween input 0 input.length

/-- Read an address between two positions. -/
def tryParseAddressBetween (input : Bytes) (start stop : ℕ) :
    Except Error (Bool × Address) :=
  if stop > input.length || start > stop then .ok (false, 0)
  else do
    let expectedLength := if ← hasPrefix input start stop then 42 else 40
    if stop - start == expectedLength then
      let (s, v) ← tryParseHexUintUncheckedBounds input start stop
      return (s, v.setWidth 160)
    else
      return (false, 0)

/-- Read an address. -/
def tryParseAddress (input : Bytes) : Except Error (Bool × Address) :=
  tryParseAddressBetween input 0 input.length

/-- Read an address between two positions, or revert. -/
def parseAddressBetween (input : Bytes) (start stop : ℕ) : Except Error Address := do
  let (success, value) ← tryParseAddressBetween input start stop
  if !success then
    throw .invalidAddressFormat
  return value

/-- Read an address, or revert. -/
def parseAddress (input : Bytes) : Except Error Address :=
  parseAddressBetween input 0 input.length

/-! ## Escaping -/

/-- `SPECIAL_CHARS_LOOKUP`, with a bit for each byte that is escaped. -/
def specialCharsLookup : UInt256 :=
  1 <<< 0x08 ||| 1 <<< 0x09 ||| 1 <<< 0x0a ||| 1 <<< 0x0c ||| 1 <<< 0x0d ||| 1 <<< 0x22 |||
    1 <<< 0x5c

/-- The byte is escaped. -/
def isSpecial (chr : Byte) : Bool := specialCharsLookup &&& 1 <<< chr.toNat != 0

/-- What is written behind the backslash. -/
def escapeLetter (chr : Byte) : Option Byte :=
  if chr == 0x08 then some (ascii 'b')
  else if chr == 0x09 then some (ascii 't')
  else if chr == 0x0a then some (ascii 'n')
  else if chr == 0x0c then some (ascii 'f')
  else if chr == 0x0d then some (ascii 'r')
  else if chr == 0x5c then some 0x5c
  else if chr == 0x22 then some 0x22
  else none

/-- `output[outputLength++] = chr`. -/
def write (chr : Byte) (s : Bytes × ℕ) : Except Error (Bytes × ℕ) := do
  let (output, outputLength) := s
  let output ← checked (output.set outputLength chr)
  return (output, outputLength + 1)

/-- A step of `escapeJSON`. -/
def writeEscape (chr : Byte) (s : Bytes × ℕ) : Except Error (Bytes × ℕ) :=
  if isSpecial chr then do
    let s ← write 0x5c s
    match escapeLetter chr with
    | some letter => write letter s
    | none => return s
  else
    write chr s

/-- The loop of `escapeJSON`, at position `i` with `left` bytes left. -/
def writeEscaped (input : Bytes) (i left : ℕ) (s : Bytes × ℕ) : Except Error (Bytes × ℕ) :=
  match left with
  | 0 => .ok s
  | left + 1 => do
    let chr ← unsafeReadByte input i
    let s ← writeEscape chr s
    writeEscaped input (i + 1) left s

/-- Escape a string for a JSON string in double quotes. -/
def escapeJSON (input : Bytes) : Except Error Bytes := do
  -- all bytes might have to be escaped
  let output ← checked (DynArray.new (2 * input.length) 0)
  let (output, outputLength) ← writeEscaped input 0 input.length (output, 0)
  return ⟨output.entries.take outputLength, by
    rw [List.length_take]
    exact Nat.lt_of_le_of_lt (Nat.min_le_right _ _) output.length_lt⟩

end Strings

end NftGame

import StakeAccounting.Text.Blank

/-!
# Accounts

An **account** is an address of twenty bytes, written as forty hexadecimal
digits behind `0x`. Reading is more lenient than writing – the mark may be left
out and digits may be capitals – but not otherwise: `Account.ofHex` judges the
bytes of the text, in this order: their number is even, it is forty, each is a
hexadecimal digit.
-/

namespace StakeAccounting

/-- **An account**, by its address. -/
structure Account where
  /-- The bytes of the address, the most significant first. -/
  bytes : List UInt8
  /-- There are twenty. -/
  length_eq : bytes.length = 20
deriving DecidableEq

/-- **Why a text is no address.** -/
inductive AddressError where
  /-- The number of digits is odd. -/
  | oddLength
  /-- The number of digits is not forty. -/
  | wrongLength
  /-- A byte is no hexadecimal digit; its place is counted from zero behind the
  mark. -/
  | notADigit (byte : UInt8) (position : Nat)
deriving DecidableEq

/-- **A byte between quotes**, as the character of that number: control
characters, the quote and the backslash are escaped. -/
def quotedByte (b : UInt8) : String :=
  let body : List Char :=
    if b = 0 then ['\\', '0']
    else if b = 9 then ['\\', 't']
    else if b = 10 then ['\\', 'n']
    else if b = 13 then ['\\', 'r']
    else if b = 39 then ['\\', '\x27']
    else if b = 92 then ['\\', '\\']
    else if b < 32 ∨ 127 ≤ b ∧ b ≤ 160 ∨ b = 173 then
      ['\\', 'u', '\x7b'] ++ Nat.toDigits 16 b.toNat ++ ['\x7d']
    else [Char.ofNat b.toNat]
  String.ofList (['\x27'] ++ body ++ ['\x27'])

namespace AddressError

/-- The text of the error. -/
def message : AddressError → String
  | oddLength => "Odd number of digits"
  | wrongLength => "Invalid string length"
  | notADigit byte position =>
    "Invalid character " ++ quotedByte byte ++ " at position " ++ toString position

end AddressError

/-! ## Hexadecimal digits -/

/-- The value of a byte that is a hexadecimal digit. -/
def hexValue? (b : UInt8) : Option UInt8 :=
  if 48 ≤ b ∧ b ≤ 57 then some (b - 48)
  else if 65 ≤ b ∧ b ≤ 70 then some (b - 55)
  else if 97 ≤ b ∧ b ≤ 102 then some (b - 87)
  else none

/-- The lower-case digit of a value below sixteen. -/
def hexChar (v : UInt8) : Char :=
  if v < 10 then Char.ofNat (48 + v.toNat) else Char.ofNat (87 + v.toNat)

/-- The two digits of a byte. -/
def hexPair (b : UInt8) : List Char := [hexChar (b / 16), hexChar (b % 16)]

/-- The first byte that is no hexadecimal digit, and its place. -/
def firstNonDigit? (position : Nat) : List UInt8 → Option (UInt8 × Nat)
  | [] => none
  | b :: bs => if (hexValue? b).isSome then firstNonDigit? (position + 1) bs else some (b, position)

/-- The bytes that pairs of digits spell, two digits to a byte. -/
def pairedBytes : List UInt8 → List UInt8
  | high :: low :: rest =>
    ((hexValue? high).getD 0 * 16 + (hexValue? low).getD 0) :: pairedBytes rest
  | _ => []

/-- Two digits make one byte. -/
theorem length_pairedBytes : ∀ bs : List UInt8, (pairedBytes bs).length = bs.length / 2
  | [] => by simp [pairedBytes]
  | [_] => by simp [pairedBytes]
  | _ :: _ :: rest => by
    rw [pairedBytes, List.length_cons, length_pairedBytes rest, List.length_cons,
      List.length_cons]
    omega

namespace Account

/-- The text without one leading `0x`. -/
def withoutMark (cs : List Char) : List Char :=
  match cs with
  | '0' :: 'x' :: rest => rest
  | _ => cs

/-- **The account a text names**, or what is wrong with the text. -/
def ofHex (s : String) : Except AddressError Account :=
  let digits := (withoutMark s.toList).flatMap String.utf8EncodeChar
  if digits.length % 2 = 1 then .error .oddLength
  else if h : digits.length = 40 then
    match firstNonDigit? 0 digits with
    | some (byte, position) => .error (.notADigit byte position)
    | none => .ok ⟨pairedBytes digits, by rw [length_pairedBytes, h]⟩
  else .error .wrongLength

/-- **The address in hexadecimal**, behind `0x`. -/
def toHex (a : Account) : String := String.ofList ('0' :: 'x' :: a.bytes.flatMap hexPair)

/-- The form for listings: the first four bytes of the address. -/
def summary (a : Account) : String :=
  "AccountId(" ++ String.ofList (a.toHex.toList.take 10) ++ ")"

/-- The account of twenty zero bytes. -/
def null : Account := ⟨List.replicate 20 0, rfl⟩

instance : Inhabited Account := ⟨null⟩

instance : Ord Account := ⟨fun a b => compare a.bytes b.bytes⟩

end Account

end StakeAccounting

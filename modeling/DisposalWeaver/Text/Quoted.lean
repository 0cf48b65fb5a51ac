/-
Text as it is written in a listing.

- `hexadecimal`: a number in lower-case hexadecimal digits, padded with zeros on the left.
- `quoted`: a text between double quotes on one line. A double quote, a backslash and the usual control characters have
  short escapes; every other character that would not show, or would attach to its neighbour, is written by its number.
- `lines`: the lines of a text; a line may end in a line feed or in a carriage return and a line feed.
-/
import DisposalWeaver.Text.Unicode

namespace DisposalWeaver.Text

/-- the number in hexadecimal, with at least `width` digits -/
def hexadecimal (width number : Nat) : String :=
  let digits := Nat.toDigits 16 number
  String.ofList (List.replicate (width - digits.length) '0' ++ digits)

/-- how one character is written between double quotes -/
def escaped (c : Char) : List Char :=
  if c = '\x00' then ['\\', '0']
  else if c = '\t' then ['\\', 't']
  else if c = '\r' then ['\\', 'r']
  else if c = '\n' then ['\\', 'n']
  else if c = '\\' then ['\\', '\\']
  else if c = '"' then ['\\', '"']
  else if Unicode.isExtendingMark c || Unicode.isUnprintable c then
    ['\\', 'u', '\x7b'] ++ Nat.toDigits 16 c.toNat ++ ['\x7d']
  else [c]

/-- the text between double quotes, on one line and with nothing invisible in it -/
def quoted (text : String) : String :=
  String.ofList ('"' :: text.toList.flatMap escaped ++ ['"'])

/-- the lines of a text as character lists; nothing after the last line end is no line -/
def cutLines : List Char → List (List Char)
  | [] => []
  | '\r' :: '\n' :: rest => [] :: cutLines rest
  | '\n' :: rest => [] :: cutLines rest
  | c :: rest =>
    match cutLines rest with
    | [] => [[c]]
    | line :: more => (c :: line) :: more

/-- the lines of a text -/
def lines (text : String) : List String :=
  (cutLines text.toList).map String.ofList

end DisposalWeaver.Text

import HotFrames.Binary64.Shortest

/-!
# JSON values and their text

A JSON value is written with two spaces of indentation per level, one item or member to a line, a
colon and a space after a name, and `[]` and `\x7b\x7d` for what is empty.
-/

namespace HotFrames

/-- A JSON value. Numbers are natural numbers, written in full, or doubles. -/
inductive Json
  | null
  | bool (value : Bool)
  | natural (value : Nat)
  | real (value : Binary64)
  | string (value : String)
  | array (items : List Json)
  | object (members : List (String × Json))

namespace Json

/-! ### Strings -/

/-- The hexadecimal digit of a number below sixteen, in lower case. -/
def hexDigit (n : Nat) : Char := Nat.digitChar n

/-- How a character is written between quotes. -/
def escape (c : Char) : List Char :=
  if c = '"' then ['\\', '"']
  else if c = '\\' then ['\\', '\\']
  else if c = '\x08' then ['\\', 'b']
  else if c = '\x0C' then ['\\', 'f']
  else if c = '\n' then ['\\', 'n']
  else if c = '\r' then ['\\', 'r']
  else if c = '\t' then ['\\', 't']
  else if c.toNat < 0x20 then
    ['\\', 'u', '0', '0', hexDigit (c.toNat / 16), hexDigit (c.toNat % 16)]
  else [c]

/-- A text between quotes. -/
def quoted (s : String) : List Char := '"' :: (s.toList.flatMap escape ++ ['"'])

/-! ### Numbers -/

/-- A decimal without its sign. The first digit stands for a power of ten; from `10 ^ -5` to
`10 ^ 15` the number is written in full with at least one decimal place, otherwise with one digit
before the point and an exponent. -/
def decimalText (d : Binary64.Decimal) : String :=
  let digits := Nat.toDigits 10 d.coefficient
  let first : Int := d.exponent + digits.length - 1
  if 0 ≤ first ∧ first < 16 then
    let before := first.toNat + 1
    let whole := digits.take before ++ List.replicate (before - digits.length) '0'
    let places := digits.drop before
    String.ofList (whole ++ '.' :: if places.isEmpty then ['0'] else places)
  else if -5 ≤ first ∧ first < 0 then
    String.ofList ('0' :: '.' :: List.replicate ((-first).toNat - 1) '0' ++ digits)
  else
    let places := digits.drop 1
    let point := if places.isEmpty then [] else '.' :: places
    let sign := if first < 0 then '-' else '+'
    String.ofList (digits.take 1 ++ point ++ 'e' :: sign :: Nat.toDigits 10 first.natAbs)

/-- The text of a double: the shortest decimal that reads back as it. There is none for an infinite
number and for a NaN, which are written as `null`. -/
def realText : Binary64 → String
  | .finite negative rank =>
    let magnitude := if rank.val = 0 then "0.0" else decimalText (Binary64.shortest rank.val)
    (if negative then "-" else "") ++ magnitude
  | .infinite _ => "null"
  | .nan => "null"

/-! ### Layout -/

/-- A line break before something at a level. -/
def lineBreak (level : Nat) : List Char := '\n' :: List.replicate (2 * level) ' '

/-- The comma after an item or member, if another one follows. -/
def comma {α : Type} (later : List α) : List Char := if later.isEmpty then [] else [',']

mutual

/-- The characters of a value that starts at a level. -/
def pretty (level : Nat) : Json → List Char
  | null => ['n', 'u', 'l', 'l']
  | bool value => if value then ['t', 'r', 'u', 'e'] else ['f', 'a', 'l', 's', 'e']
  | natural value => Nat.toDigits 10 value
  | real value => (realText value).toList
  | string value => quoted value
  | array items =>
    if items.isEmpty then ['[', ']']
    else '[' :: (prettyItems (level + 1) items ++ (lineBreak level ++ [']']))
  | object members =>
    if members.isEmpty then ['\x7b', '\x7d']
    else '\x7b' :: (prettyMembers (level + 1) members ++ (lineBreak level ++ ['\x7d']))

/-- The lines of the items of an array. -/
def prettyItems (level : Nat) : List Json → List Char
  | [] => []
  | item :: items =>
    lineBreak level ++ (pretty level item ++ (comma items ++ prettyItems level items))

/-- The lines of the members of an object. -/
def prettyMembers (level : Nat) : List (String × Json) → List Char
  | [] => []
  | member :: members =>
    lineBreak level ++
      (prettyMember level member ++ (comma members ++ prettyMembers level members))

/-- A member: its name and its value. -/
def prettyMember (level : Nat) : String × Json → List Char
  | (name, value) => quoted name ++ (':' :: ' ' :: pretty level value)

end

/-- The text of a value. -/
def text (v : Json) : String := String.ofList (v.pretty 0)

end Json

end HotFrames

import HotFrames.Json
import HotFrames.Source
import HotFrames.Text.Hidden

/-!
# Why a JSON text cannot be read

An error names the kind of value that was found. A text among them is shown between quotes, and what
could not be seen by itself is written as an escape: a letter for the common controls, otherwise the
code point in hexadecimal.
-/

namespace HotFrames

/-! ### Shown texts -/

namespace Shown

/-- The escape of a code point. -/
def escapeCode (n : Nat) : List Char := ['\\', 'u', '\x7b'] ++ Nat.toDigits 16 n ++ ['\x7d']

/-- How a character is shown between quotes. -/
def escape (c : Char) : List Char :=
  if c = '\x00' then ['\\', '0']
  else if c = '\t' then ['\\', 't']
  else if c = '\r' then ['\\', 'r']
  else if c = '\n' then ['\\', 'n']
  else if c = '"' then ['\\', '"']
  else if c = '\\' then ['\\', '\\']
  else if Hidden.isHidden c then escapeCode c.toNat
  else [c]

/-- A text between quotes. -/
def quoted (s : String) : String :=
  String.ofList ('"' :: s.toList.flatMap escape ++ ['"'])

end Shown

namespace Json

/-! ### Errors -/

/-- A value that stands where another kind of value is wanted. -/
inductive Found
  | null
  | bool (value : Bool)
  | integer (value : Int)
  | real (value : Binary64)
  | string (value : String)
  | sequence
  | map
  deriving DecidableEq, Repr

namespace Found

/-- How a message names the value. -/
def text : Found → String
  | null => "null"
  | bool value => "boolean `" ++ (if value then "true" else "false") ++ "`"
  | integer value => "integer `" ++ toString value ++ "`"
  | real value => "floating point `" ++ realText value ++ "`"
  | string value => "string " ++ Shown.quoted value
  | sequence => "sequence"
  | map => "map"

end Found

/-- The classes of errors. -/
inductive ErrorClass
  /-- the text is not JSON -/
  | malformed
  /-- the text ends too early -/
  | ended
  /-- the JSON does not hold what is wanted -/
  | data
  /-- the text cannot be read -/
  | unreadable
  deriving DecidableEq, Repr

/-- An error, found at the leftmost place that shows it. -/
inductive Error
  | malformed
  | ended
  | unreadable (fault : Fault)
  | mismatch (found : Found) (wanted : String)
  | missing (field : String)
  | duplicate (field : String)
  /-- an array that ends after `count` of the fields of a record -/
  | tooShort (count : Nat) (record : String) (fields : Nat)
  deriving DecidableEq, Repr

namespace Error

/-- The class of an error. -/
def errorClass : Error → ErrorClass
  | malformed => .malformed
  | ended => .ended
  | unreadable _ => .unreadable
  | _ => .data

/-- The text shown to the user. -/
def message : Error → String
  | malformed => "malformed JSON"
  | ended => "the JSON text ends too early"
  | unreadable fault => fault.message
  | mismatch found wanted => "invalid type: " ++ found.text ++ ", expected " ++ wanted
  | missing field => "missing field `" ++ field ++ "`"
  | duplicate field => "duplicate field `" ++ field ++ "`"
  | tooShort count record fields =>
    "invalid length " ++ Nat.repr count ++ ", expected struct " ++ record ++ " with " ++
      Nat.repr fields ++ " elements"

end Error

end Json

end HotFrames

import SymmetricKey.Unicode

/-!
The diagnostic text of a value: a name, its visible fields in order, and two
dots where fields are withheld. Braces, separators and quoting are fixed here
once for all descriptors and contexts.
-/

namespace SymmetricKey.Description

def escape : Char → List Char
  | '"' => ['\\', '"']
  | '\\' => ['\\', '\\']
  | '\n' => ['\\', 'n']
  | '\r' => ['\\', 'r']
  | '\t' => ['\\', 't']
  | '\x00' => ['\\', '0']
  | other =>
      if Unicode.hidden other then
        ['\\', 'u', '\x7b'] ++ Nat.toDigits 16 other.toNat ++ ['\x7d']
      else [other]

def quoted (text : String) : String :=
  "\"" ++ String.ofList (text.toList.flatMap escape) ++ "\""

def listed (items : List String) : String :=
  "[" ++ ", ".intercalate items ++ "]"

def fieldText (field : String × String) : String :=
  field.1 ++ ": " ++ field.2

def full (name : String) (fields : List (String × String)) : String :=
  name ++ " \x7b " ++ ", ".intercalate (fields.map fieldText) ++ " \x7d"

/-- Fields that hold key material are withheld. -/
def partly (name : String) (fields : List (String × String)) : String :=
  name ++ " \x7b " ++ ", ".intercalate (fields.map fieldText ++ [".."]) ++ " \x7d"

def wrapped (name inner : String) : String :=
  name ++ "(" ++ inner ++ ")"

end SymmetricKey.Description

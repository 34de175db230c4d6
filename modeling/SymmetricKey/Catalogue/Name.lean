/-!
Names of algorithms. Two names are the same when they differ only in the case
of the letters A to Z; all other characters have to agree exactly.
-/

namespace SymmetricKey.Name

def fold (name : String) : String := String.ofList (name.toList.map Char.toLower)

def same (left right : String) : Bool := fold left == fold right

end SymmetricKey.Name

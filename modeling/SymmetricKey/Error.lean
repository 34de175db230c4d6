/-!
The six causes for which a call is refused. A caller sees the cause and one
fixed sentence for it; nothing else about the failed call is reported.
-/

namespace SymmetricKey

inductive Error where
  | invalidParameter
  | invalidKeyLength
  | invalidLength
  | outOfMemory
  | authenticationFailed
  | failure
deriving DecidableEq, Repr

namespace Error

def all : List Error :=
  [invalidParameter, invalidKeyLength, invalidLength, outOfMemory, authenticationFailed, failure]

def name : Error → String
  | invalidParameter => "InvalidParameter"
  | invalidKeyLength => "InvalidKeyLength"
  | invalidLength => "InvalidLength"
  | outOfMemory => "OutOfMemory"
  | authenticationFailed => "AuthenticationFailed"
  | failure => "Failure"

def message : Error → String
  | invalidParameter => "Invalid parameter"
  | invalidKeyLength => "Invalid key length"
  | invalidLength => "Invalid length"
  | outOfMemory => "Out of memory"
  | authenticationFailed => "Authentication failed"
  | failure => "Cryptographic failure"

end Error

end SymmetricKey

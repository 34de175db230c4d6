import SymmetricKey.BlockCipher
import SymmetricKey.Description

/-!
One cipher for several callers. A caller that holds the cipher has it alone;
the others find it busy. Whoever has held it puts it back as its use has left it.
-/

namespace SymmetricKey

structure SharedCipher (C : Type) where
  cipher : C
  held : Bool

namespace SharedCipher

variable {C Answer : Type}

def ofCipher (cipher : C) : SharedCipher C := { cipher, held := false }

def busy (shared : SharedCipher C) : Bool := shared.held

def hold (shared : SharedCipher C) : SharedCipher C := { shared with held := true }

def putBack (shared : SharedCipher C) (cipher : C) : SharedCipher C :=
  { shared with cipher, held := false }

def withHeld (shared : SharedCipher C) (use : C → Answer × C) : Answer × SharedCipher C :=
  let (answer, after) := use shared.cipher
  (answer, shared.putBack after)

def tryWith (shared : SharedCipher C) (use : C → Answer × C) : Option Answer × SharedCipher C :=
  -- Does nothing while somebody else holds the cipher.
  if shared.held then (none, shared)
  else
    let (answer, after) := shared.withHeld use
    (some answer, after)

def describe (shared : SharedCipher C) : String :=
  Description.full "SharedCipher" [("busy", toString shared.busy)]

/-- Every call holds the cipher on its own. -/
instance [BlockCipher C] : BlockCipher (SharedCipher C) where
  blockSize shared := BlockCipher.blockSize shared.cipher
  cryptBlock direction shared input room :=
    shared.withHeld fun cipher => BlockCipher.cryptBlock direction cipher input room

end SharedCipher

end SymmetricKey

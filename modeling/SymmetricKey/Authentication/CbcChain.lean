import SymmetricKey.BlockCipher

/-!
The chain under the MACs that are made of a block cipher. Each block is added
to the chaining value, which is then encrypted. The last block, complete or
not, is kept back until it is known whether more follows, because it is masked
before it goes in.

When the cipher refuses, the block has already been added to the chaining
value, and a last block has already been masked; both stay so.
-/

namespace SymmetricKey

structure CbcChain where
  blockSize : Nat
  value : Bytes
  pending : Bytes
deriving DecidableEq, Repr

namespace CbcChain

def empty (blockSize : Nat) : CbcChain :=
  { blockSize, value := Bytes.zeros blockSize, pending := [] }

def reset (chain : CbcChain) : CbcChain := empty chain.blockSize

/-- A chain after a step, the refusal if there was one, and the cipher. -/
structure Step (C : Type) where
  chain : CbcChain
  cipher : C
  refusal : Option Error

variable {C : Type} [BlockCipher C]

def advance (cipher : C) (chain : CbcChain) (block : Bytes) : Step C :=
  let mixed := chain.value.xor block
  match BlockCipher.encryptBlock cipher mixed chain.blockSize with
  | (.error cause, after) =>
      { chain := { chain with value := mixed }, cipher := after, refusal := some cause }
  | (.ok value, after) =>
      { chain := { chain with value := value.toList }, cipher := after, refusal := none }

def absorb (cipher : C) (chain : CbcChain) : Bytes → Step C
  -- A complete block goes in when the next byte shows that it is not the last one.
  | [] => { chain, cipher, refusal := none }
  | byte :: data =>
      if chain.pending.length = chain.blockSize then
        let step := advance cipher chain chain.pending
        if step.refusal.isSome then step
        else absorb step.cipher { step.chain with pending := [byte] } data
      else absorb cipher { chain with pending := chain.pending ++ [byte] } data

/-- A complete last block is masked by `full`; another one is marked, filled up with zeros and
masked by `partly`. -/
def lastBlock (chain : CbcChain) (full partly : Bytes) : Bytes :=
  if chain.pending.length = chain.blockSize then chain.pending.xor full
  else
    (chain.pending ++ 0x80 :: Bytes.zeros (chain.blockSize - chain.pending.length - 1)).xor partly

/-- The chaining value at the end of the message. The chain starts anew unless the cipher
refuses. -/
def finish (cipher : C) (chain : CbcChain) (full partly : Bytes) :
    Except Error Bytes × CbcChain × C :=
  let block := chain.lastBlock full partly
  let step := advance cipher chain block
  match step.refusal with
  | some cause =>
      (.error cause, { step.chain with pending := block.take chain.pending.length }, step.cipher)
  | none => (.ok step.chain.value, chain.reset, step.cipher)

end CbcChain

end SymmetricKey

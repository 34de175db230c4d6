import SymmetricKey.Bytes

/-!
Object identifiers of ciphers in their modes. Identifiers of one family share
all but the last arc. The catalogue itself lists only one of them, because an
entry stands for a cipher in all its modes.
-/

namespace SymmetricKey.Identifiers

def ariaArc (arc : UInt8) : Bytes := [0x2A, 0x83, 0x1A, 0x8C, 0x9A, 0x6E, 0x01, 0x01, arc]

def aria : List (String × Bytes) :=
  [("ARIA128_ECB", ariaArc 1), ("ARIA128_CBC", ariaArc 2), ("ARIA128_CFB", ariaArc 3),
    ("ARIA128_OFB", ariaArc 4), ("ARIA128_CTR", ariaArc 5),
    ("ARIA192_ECB", ariaArc 6), ("ARIA192_CBC", ariaArc 7), ("ARIA192_CFB", ariaArc 8),
    ("ARIA192_OFB", ariaArc 9), ("ARIA192_CTR", ariaArc 10),
    ("ARIA256_ECB", ariaArc 11), ("ARIA256_CBC", ariaArc 12), ("ARIA256_CFB", ariaArc 13),
    ("ARIA256_OFB", ariaArc 14), ("ARIA256_CTR", ariaArc 15),
    ("ARIA128_GCM", ariaArc 34), ("ARIA192_GCM", ariaArc 35), ("ARIA256_GCM", ariaArc 36),
    ("ARIA128_CCM", ariaArc 37), ("ARIA192_CCM", ariaArc 38), ("ARIA256_CCM", ariaArc 39)]

def sm4Arc (arc : UInt8) : Bytes := [0x2A, 0x81, 0x1C, 0xCF, 0x55, 0x01, 0x68, arc]

def sm4Ecb : Bytes := sm4Arc 1

def sm4 : List (String × Bytes) :=
  [("SM4_ECB", sm4Ecb), ("SM4_CBC", sm4Arc 2), ("SM4_OFB", sm4Arc 3), ("SM4_CFB", sm4Arc 4),
    ("SM4_CTR", sm4Arc 7), ("SM4_GCM", sm4Arc 8), ("SM4_CCM", sm4Arc 9), ("SM4_XTS", sm4Arc 10)]

def cast128 : Bytes := [0x2A, 0x86, 0x48, 0x86, 0xF6, 0x7D, 0x07, 0x42, 0x0A]

/-- Hashes and MACs of one standards body share this arc. -/
def hashArc (arc : UInt8) : Bytes := [0x60, 0x86, 0x48, 0x01, 0x65, 0x03, 0x04, 0x02, arc]

def sha256 : Bytes := hashArc 0x01

def sm3 : Bytes := [0x28, 0xCF, 0x06, 0x03, 0x00, 0x41]

def kmac128 : Bytes := hashArc 0x13

def kmac256 : Bytes := hashArc 0x14

end SymmetricKey.Identifiers

import BlockRules.Wide
import BlockRules.Digest.Sha1
import BlockRules.Digest.Sha256
import BlockRules.Digest.Ripemd160

/-!
# Hashes that name things

Blocks and transactions are named by two rounds of SHA-256, keys and scripts by
RIPEMD-160 over SHA-256. Both results are wide integers whose least significant byte
is the first byte of the hash.
-/

namespace BlockRules

/-- SHA-256 of the SHA-256 of a byte string: block hashes and transaction ids. -/
def doubleSha256 (message : Bytes) : UInt256 := Wide.ofBytesLE (sha256 (sha256 message))

/-- RIPEMD-160 of the SHA-256 of a byte string: key and script hashes. -/
def hash160 (message : Bytes) : UInt160 := Wide.ofBytesLE (ripemd160 (sha256 message))

end BlockRules

import WebToken.Crypto.Hash
import WebToken.Crypto.Rsa

/-!
# RSA signatures

The hash of a message is named and put behind a filling of bytes `FF`, so that it is as long as
the modulus; the private function of the whole is the signature. A signature is checked by
comparing what the public function gives with what was to be signed.
-/

namespace WebToken

namespace Crypto

namespace Rsa

/-- What is written before the hash of a message to say which hash it is. -/
def hashLabel : Hash → Bytes
  | .sha1 => [0x30, 0x21, 0x30, 0x09, 0x06, 0x05, 0x2B, 0x0E, 0x03, 0x02, 0x1A, 0x05, 0x00, 0x04, 0x14]
  | .sha256 => [0x30, 0x31, 0x30, 0x0D, 0x06, 0x09, 0x60, 0x86, 0x48, 0x01, 0x65, 0x03, 0x04, 0x02,
      0x01, 0x05, 0x00, 0x04, 0x20]
  | .sha384 => [0x30, 0x41, 0x30, 0x0D, 0x06, 0x09, 0x60, 0x86, 0x48, 0x01, 0x65, 0x03, 0x04, 0x02,
      0x02, 0x05, 0x00, 0x04, 0x30]
  | .sha512 => [0x30, 0x51, 0x30, 0x0D, 0x06, 0x09, 0x60, 0x86, 0x48, 0x01, 0x65, 0x03, 0x04, 0x02,
      0x03, 0x05, 0x00, 0x04, 0x40]

/-- What is signed for a message, in `size` bytes. -/
def signed (h : Hash) (size : Nat) (message : Bytes) : Bytes :=
  let info := hashLabel h ++ h.digest message
  0x00 :: 0x01 :: List.replicate (size - info.length - 3) 0xFF ++ 0x00 :: info

/-- The signature of a message. -/
def PrivateKey.sign? (k : PrivateKey) (h : Hash) (message : Bytes) : Option Bytes :=
  (k.invert? (Bytes.toNat (signed h k.size message))).map (Bytes.ofNat k.size)

/-- Whether a string is the signature of a message. -/
def PublicKey.verify (k : PublicKey) (h : Hash) (message signature : Bytes) : Bool :=
  signature.length = k.size && Bytes.toNat signature < k.modulus &&
    Bytes.ofNat k.size (k.apply (Bytes.toNat signature)) = signed h k.size message

end Rsa

end Crypto

end WebToken

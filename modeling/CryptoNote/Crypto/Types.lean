import Mathlib

/-! # Raw cryptographic values

`Crypto::Hash`, `Crypto::PublicKey`, `Crypto::SecretKey` and `Crypto::KeyImage`
are 32-byte PODs and `Crypto::Signature` is a 64-byte POD (`src/crypto/crypto.h`,
`CryptoTypes.h`).
Each is a byte list that carries its length, so a value of the wrong size cannot
be built.  Only equality and the raw bytes are used by the node code modelled
here; the curve operations stay abstract. -/
set_option autoImplicit false

namespace Crypto

structure Hash where
  data : List UInt8
  size_eq : data.length = 32
  deriving DecidableEq, Repr

structure PublicKey where
  data : List UInt8
  size_eq : data.length = 32
  deriving DecidableEq, Repr

structure SecretKey where
  data : List UInt8
  size_eq : data.length = 32
  deriving DecidableEq, Repr

structure KeyImage where
  data : List UInt8
  size_eq : data.length = 32
  deriving DecidableEq, Repr

structure Signature where
  data : List UInt8
  size_eq : data.length = 64
  deriving DecidableEq, Repr

/-- The hash whose 32 bytes are all `b`; concrete runs use these as distinct hashes. -/
def Hash.ofByte (b : UInt8) : Hash := ⟨List.replicate 32 b, by simp⟩

def PublicKey.ofByte (b : UInt8) : PublicKey := ⟨List.replicate 32 b, by simp⟩

def KeyImage.ofByte (b : UInt8) : KeyImage := ⟨List.replicate 32 b, by simp⟩

def Signature.ofByte (b : UInt8) : Signature := ⟨List.replicate 64 b, by simp⟩

/-- `NULL_HASH`: the all-zero hash. -/
def nullHash : Hash := Hash.ofByte 0

end Crypto

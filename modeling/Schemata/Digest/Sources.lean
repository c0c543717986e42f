import Schemata.Digest.Sha256

/-!
# Digest of the sources

A compilation hashes the bytes of every source file it read, in the order of reading, so that
output for unchanged sources can be recognised. The hash runs over the concatenation of the files;
how many there were is counted beside it. `SourceDigest.add` (`update`) adds the bytes of one file,
`SourceDigest.finish` (`finish`) is the checksum of those added.
-/

namespace Schemata

/-- A SHA-256 checksum, written in lower-case hexadecimal. -/
structure Checksum where
  /-- The 64 hexadecimal digits. -/
  hex : String
deriving DecidableEq, Inhabited

namespace Checksum

/-- The two hexadecimal digits of a byte. -/
def hexByte (b : UInt8) : List Char :=
  let digit (n : Nat) : Char :=
    Char.ofNat (if n < 10 then '0'.toNat + n else 'a'.toNat + (n - 10))
  [digit (b.toNat / 16), digit (b.toNat % 16)]

/-- The checksum of a byte string. -/
def ofBytes (bytes : List UInt8) : Checksum :=
  ⟨String.ofList ((Sha256.hash bytes).flatMap hexByte)⟩

end Checksum

/-- What has been hashed so far: the bytes of all sources one after the other, and their number. -/
structure SourceDigest where
  /-- The concatenated bytes. -/
  bytes : List UInt8
  /-- How many sources there were. -/
  sources : Nat
deriving DecidableEq, Inhabited

namespace SourceDigest

/-- Nothing hashed yet. -/
def empty : SourceDigest := ⟨[], 0⟩

/-- One more source. -/
def add (d : SourceDigest) (source : List UInt8) : SourceDigest :=
  ⟨d.bytes ++ source, d.sources + 1⟩

/-- The checksum of everything so far. -/
def finish (d : SourceDigest) : Checksum := Checksum.ofBytes d.bytes

end SourceDigest

end Schemata

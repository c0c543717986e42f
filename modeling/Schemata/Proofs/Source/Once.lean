import Mathlib.Logic.Function.Iterate
import Schemata.Proofs.Source.Failure

/-!
# Each file is read once

Loading (`load_file`) goes down one level for each key that it marks, and marks no key twice, so it
comes to an end whatever stands below as many levels as there are keys. Once a key is marked its
file does not matter any more: it is not read again, in the same load or a later one, whether or not
something went wrong with it. Where every file is reached from the root, so that it does not matter
how its path is spelled, this means that no file is read twice.

A key is marked before its file is read. A file that is there and cannot be read therefore counts as
loaded without being hashed, and the next load of it succeeds with nothing done. This is the only
way in which more files come to be loaded than hashed, one more for each load that fails to read a
file.

Results:
* `load_iterate`: a load never comes to what stands below its levels.
* `load_sameBut`: a load does not look at the files whose keys are marked already.
* `load_once`: after any loads each key has been read once, and as many files are hashed as are
  loaded and could be read.
* `load_unread`: a file that cannot be read is loaded and not hashed.
* `load_shut`: a file that is not reached from the root is read once for each spelling.
-/

namespace Schemata

namespace SourceWalk

variable {tree : FileTree} {searchPaths : List String} {file : String}
  {referrer : Option String} {w : SourceWalk}

/-! ## Levels of loading -/

/-- Two levels of loading come to the same if what is below them does. -/
theorem run_level_congr {below below' : String → Option String → Load Unit}
    (hrest : ∀ path key bytes (root : Json),
      Found tree searchPaths file referrer path key bytes → key ∉ w.keys →
      (root.links.forM (Reference.follow fun file => below file (some path))).run
          (((w.mark key).enter key bytes).toSet searchPaths) =
        (root.links.forM (Reference.follow fun file => below' file (some path))).run
          (((w.mark key).enter key bytes).toSet searchPaths)) :
    (SourceSet.level tree below file referrer).run (w.toSet searchPaths) =
      (SourceSet.level tree below' file referrer).run (w.toSet searchPaths) := by
  rw [level_eq, level_eq]
  change (liftM (SourceSet.locate tree searchPaths file referrer) >>= _ : Load Unit).run _ =
    (liftM (SourceSet.locate tree searchPaths file referrer) >>= _ : Load Unit).run _
  cases h : SourceSet.locate tree searchPaths file referrer with
  | error e => rw [run_lift_error_bind, run_lift_error_bind]
  | ok path =>
    rw [lift_ok_bind, lift_ok_bind]
    change (if w.keys.contains (tree.keyOf path) then pure () else _ : Load Unit).run _ =
      (if w.keys.contains (tree.keyOf path) then pure () else _ : Load Unit).run _
    split
    · rfl
    · rename_i hknown
      have hkey := mt List.contains_iff_mem.mpr hknown
      cases hread : tree.read? path with
      | none => rfl
      | some bytes =>
        let marked := (w.mark (tree.keyOf path)).toSet searchPaths
        change (liftM (SourceSet.readRoot path bytes) >>= _ : Load Unit).run
            { marked with digest := marked.digest.add bytes } =
          (liftM (SourceSet.readRoot path bytes) >>= _ : Load Unit).run
            { marked with digest := marked.digest.add bytes }
        rw [toSet_enter (tree.keyOf path) bytes (w.mark (tree.keyOf path))]
        cases SourceSet.readRoot path bytes with
        | error e => rw [run_lift_error_bind, run_lift_error_bind]
        | ok root =>
          rw [lift_ok_bind, lift_ok_bind, run_bind, run_bind,
            hrest path _ bytes root (found_of_read h hread) hkey]

/-- Some files have been walked through, and fewer keys than a bound are left. -/
def FewerLeft (tree : FileTree) (searchPaths : List String) (bound : Nat) (s : SourceSet) : Prop :=
  ∃ w : SourceWalk, s = w.toSet searchPaths ∧ remaining tree w < bound

theorem loadFile_keeps (tree : FileTree) (searchPaths : List String) (bound levels : Nat)
    (file : String) (referrer : Option String) :
    Keeps (FewerLeft tree searchPaths bound) (SourceSet.loadFile tree levels file referrer) := by
  rintro _ ⟨w, rfl, hw⟩
  rw [loadFile_simulates tree searchPaths levels file referrer w]
  exact ⟨_, rfl, (visit_orderly tree searchPaths levels file referrer).keeps_remaining bound w hw⟩

/-- **Loading does not come to what stands below its levels** where fewer keys are left than
levels. -/
theorem loadFile_agree (below : String → Option String → Load Unit) (levels : Nat) :
    ∀ file referrer, AgreeOn (FewerLeft tree searchPaths levels)
      (SourceSet.loadFile tree levels file referrer)
      ((SourceSet.level tree)^[levels] below file referrer) := by
  induction levels with
  | zero => exact fun _ _ _ ⟨_, _, hw⟩ => absurd hw (Nat.not_lt_zero _)
  | succ levels ih =>
    rintro file referrer _ ⟨w, rfl, hw⟩
    rw [SourceSet.loadFile_succ, Function.iterate_succ_apply']
    refine run_level_congr fun path key bytes root found hkey => ?_
    -- as in the walk, entering the file uses up a level and a key
    have hfewer := Nat.lt_of_lt_of_le (remaining_enter_lt found hkey) (Nat.lt_succ_iff.mp hw)
    exact AgreeOn.forM
      (fun r => Keeps.follow
        (fun f => loadFile_keeps tree searchPaths levels levels f (some path)) r)
      (fun r => AgreeOn.follow (fun f => ih f (some path)) r) root.links _ ⟨_, rfl, hfewer⟩

/-- **A load comes to an end**: with more levels than there are keys it is what the levels make of
it, whatever stands below them. -/
theorem load_iterate {levels : Nat} (h : tree.depth < levels)
    (below : String → Option String → Load Unit) (w : SourceWalk) :
    ((SourceSet.level tree)^[levels] below file none).run (w.toSet searchPaths) =
      (w.toSet searchPaths).load tree file := by
  have hfewer : remaining tree w < levels := Nat.lt_of_le_of_lt (remaining_le tree w) h
  rw [← loadFile_agree below levels file none _ ⟨w, rfl, hfewer⟩, run_loadFile]
  exact (load_of_levels h searchPaths file w).symm

end SourceWalk

/-! ## Trees that differ in some files -/

/-- Two trees with the same directories, links and names of files, in which only the files under
some keys have other bytes, or can be read in one tree only. -/
structure FileTree.SameBut (keys : List PathKey) (t t' : FileTree) : Prop where
  /-- The working directory is the same. -/
  here_eq : t'.here = t.here
  /-- The directories are the same. -/
  directories_eq : t'.directories = t.directories
  /-- The files have the same names. -/
  files_eq : t'.files.map Prod.fst = t.files.map Prod.fst
  /-- The links are the same. -/
  links_eq : t'.links = t.links
  /-- The closed directories are the same. -/
  closed_eq : t'.closed = t.closed
  /-- The other files are read in the same way. -/
  read_eq : ∀ path, t.keyOf path ∉ keys → t'.read? path = t.read? path

namespace FileTree

variable {keys : List PathKey} {t t' : FileTree}

theorem isFileAt_eq (t : FileTree) (name : FileName) :
    t.isFileAt name = decide (name ∈ t.files.map Prod.fst) := by
  rw [isFileAt]
  induction t.files with
  | nil => rfl
  | cons f files ih =>
    obtain ⟨first, content⟩ := f
    by_cases h : name = first
    · simp [h]
    · simp [List.lookup_cons, beq_false_of_ne h, h, ih]

theorem SameBut.isDirectoryAt (h : SameBut keys t t') (name : FileName) :
    t'.isDirectoryAt name = t.isDirectoryAt name := by
  rw [FileTree.isDirectoryAt, FileTree.isDirectoryAt, h.directories_eq]

theorem SameBut.isFileAt (h : SameBut keys t t') (name : FileName) :
    t'.isFileAt name = t.isFileAt name := by
  rw [FileTree.isFileAt_eq, FileTree.isFileAt_eq, h.files_eq]

theorem SameBut.followTo (h : SameBut keys t t')
    (onward : FileName → List String → Option FileName) :
    ∀ (segments : List String) (name : FileName),
      t'.followTo onward name segments = t.followTo onward name segments
  | [], _ => rfl
  | segment :: rest, name => by
    have hpass : t'.canPass name segment = t.canPass name segment := by
      rw [canPass, canPass, h.isDirectoryAt, h.closed_eq]
    have hrest := SameBut.followTo h onward rest
    rw [FileTree.followTo, FileTree.followTo, hpass, h.links_eq, hrest, hrest, hrest]

theorem SameBut.follow? (h : SameBut keys t t') (links : Nat) (name : FileName)
    (segments : List String) : t'.follow? links name segments = t.follow? links name segments := by
  induction links generalizing name segments with
  | zero => exact h.followTo _ segments name
  | succ links ih =>
    rw [FileTree.follow?, FileTree.follow?, ← h.followTo]
    congr 1
    exact funext fun name => funext fun segments => ih name segments

theorem SameBut.resolve? (h : SameBut keys t t') (path : String) :
    t'.resolve? path = t.resolve? path := by
  have hexists : t'.existsAt = t.existsAt := funext fun name => by
    rw [existsAt, existsAt, h.isDirectoryAt, h.isFileAt]
  rw [FileTree.resolve?, FileTree.resolve?, start, start, h.here_eq, h.follow?, hexists]

theorem SameBut.isFile (h : SameBut keys t t') (path : String) :
    t'.isFile path = t.isFile path := by
  rw [FileTree.isFile, FileTree.isFile, h.resolve?, funext h.isFileAt]

theorem SameBut.keyOf (h : SameBut keys t t') (path : String) : t'.keyOf path = t.keyOf path := by
  have hcanonicalize : t'.canonicalize? path = t.canonicalize? path := by
    rw [canonicalize?, canonicalize?, fromRoot?, fromRoot?, start, start, h.here_eq, h.follow?,
      funext h.resolve?]
  rw [FileTree.keyOf, FileTree.keyOf, hcanonicalize]

theorem SameBut.levels (h : SameBut keys t t') : t'.levels = t.levels := by
  have hlength : t'.files.length = t.files.length := by
    simpa using congrArg List.length h.files_eq
  rw [FileTree.levels, FileTree.levels, hlength]

end FileTree

/-- One load after the other, each from a tree of its own, with what each of them comes to. -/
def SourceSet.loadAll (s : SourceSet) :
    List (FileTree × String) → List (Except SchemaError Unit) × SourceSet
  | [] => ([], s)
  | (tree, file) :: rest =>
    let (result, next) := s.load tree file
    let (results, last) := next.loadAll rest
    (result :: results, last)

theorem SourceSet.loadAll_cons {s next : SourceSet} {tree : FileTree} {file : String}
    {result : Except SchemaError Unit} (h : s.load tree file = (result, next))
    (rest : List (FileTree × String)) :
    s.loadAll ((tree, file) :: rest) = (result :: (next.loadAll rest).1, (next.loadAll rest).2) := by
  rw [loadAll, h]

theorem SourceSet.locate_sameBut {keys : List PathKey} {t t' : FileTree}
    (h : t.SameBut keys t') (searchPaths : List String) (file : String)
    (referrer : Option String) :
    locate t' searchPaths file referrer = locate t searchPaths file referrer := by
  rw [locate, locate, funext h.isFile]

namespace SourceWalk

variable {keys : List PathKey} {tree tree' : FileTree} {searchPaths : List String}
  {file : String} {w : SourceWalk}

/-- **A walk does not look at the files whose keys were marked before.** -/
theorem visit_sameBut (h : tree.SameBut keys tree') (levels : Nat) : ∀ file referrer,
    AgreeOn (fun w => ∀ k ∈ keys, k ∈ w.keys) (visit tree' searchPaths levels file referrer)
      (visit tree searchPaths levels file referrer) := by
  induction levels with
  | zero => exact fun _ _ _ _ => rfl
  | succ levels ih =>
    intro file referrer w hw
    refine run_visit_congr (SourceSet.locate_sameBut h searchPaths file referrer) h.keyOf
      (fun path hkey => h.read_eq path (mt (hw _) hkey)) ?_
    intro path key bytes root found hkey
    have hmarked : ∀ k ∈ keys, k ∈ ((w.mark key).enter key bytes).keys := fun k hk =>
      (Traverses.enter found hkey).keys_subset (hw k hk)
    exact AgreeOn.forM
      (fun r => (Orderly.follow (fun f => visit_orderly tree' _ _ f _) r).keeps_keys _)
      (fun r => AgreeOn.follow (fun f => ih f _) r) _ _ hmarked

theorem load_sameBut (h : tree.SameBut keys tree') (hw : ∀ k ∈ keys, k ∈ w.keys) :
    (w.toSet searchPaths).load tree' file = (w.toSet searchPaths).load tree file := by
  rw [load_toSet, load_toSet, h.levels, visit_sameBut h _ file none w hw]

/-! ## Any loads -/

variable {loads before rest : List (FileTree × String)}
  {results : List (Except SchemaError Unit)} {s : SourceSet}

/-- What is known of the files after some loads, and of what these have come to. -/
structure Tally (loads : List (FileTree × String)) (results : List (Except SchemaError Unit))
    (w : SourceWalk) : Prop where
  /-- No key is marked twice. -/
  nodup : w.keys.Nodup
  /-- A key that is marked is that of a file read, but for one more for every failure to read. -/
  length_eq : w.keys.length = w.entered.length + results.count (.error .io)
  /-- The keys of the files read are marked, and no file is read twice. -/
  sublist : (w.entered.map Prod.fst).Sublist w.keys
  /-- The files read are files of the trees. -/
  read : ∀ f ∈ w.entered, ∃ l ∈ loads, ∃ path, l.1.keyed? path = some f

/-- With enough levels a walk is stuck exactly if it fails with an error of reading. -/
theorem Ends.stuck_iff {out : Except SchemaError Unit × SourceWalk}
    {new : List (PathKey × Bytes)} {stuck : Option PathKey} {done : List (PathKey × Json)}
    (h : Ends tree tree.levels w out new stuck done) :
    stuck.isSome = true ↔ out.1 = .error .io :=
  ⟨h.io_of_stuck, h.stuck_of_io (Nat.lt_of_le_of_lt (remaining_le tree w) tree.depth_lt_levels)⟩

/-- One more load, whether it succeeds or not. -/
theorem Tally.load (h : Tally loads results w) (tree : FileTree) (searchPaths : List String)
    (file : String) {out : Except SchemaError Unit × SourceWalk}
    (hout : (visit tree searchPaths tree.levels file none).run w = out) :
    Tally (loads ++ [(tree, file)]) (results ++ [out.1]) out.2 := by
  obtain ⟨new, stuck, done, hends⟩ := visit_orderly tree searchPaths tree.levels file none w
  rw [hout] at hends
  have hnew := hends.traverses
  have hstuck : stuck.toList.length = [out.1].count (.error .io) := by
    cases stuck with
    | none => exact (List.count_eq_zero.mpr fun hio =>
        Bool.false_ne_true (hends.stuck_iff.mpr (List.mem_singleton.mp hio).symm)).symm
    | some key => rw [hends.stuck_iff.mp rfl, List.count_singleton_self]; rfl
  constructor
  · rw [hnew.keys_eq]
    exact List.nodup_append.mpr ⟨h.nodup, hnew.nodup, fun k hk l hl heq =>
      hnew.fresh l hl (heq ▸ hk)⟩
  · rw [hnew.keys_eq, hnew.entered_eq, List.count_append, ← hstuck, marked]
    simp only [List.length_append, List.length_map, h.length_eq]
    omega
  · rw [hnew.keys_eq, hnew.entered_eq, List.map_append]
    exact h.sublist.append (List.sublist_append_left _ _)
  · intro f hf
    rw [hnew.entered_eq, List.mem_append] at hf
    rcases hf with hf | hf
    · obtain ⟨l, hl, hread⟩ := h.read f hf
      exact ⟨l, List.mem_append_left _ hl, hread⟩
    · exact ⟨(tree, file), List.mem_append_right _ (List.mem_singleton_self _), hnew.read f hf⟩

/-- Any loads, one after the other. -/
theorem loadAll_tally (searchPaths : List String) (rest : List (FileTree × String)) :
    ∀ {before : List (FileTree × String)} {results : List (Except SchemaError Unit)}
      {w : SourceWalk}, Tally before results w →
    ∃ w', ((w.toSet searchPaths).loadAll rest).2 = w'.toSet searchPaths ∧
      Tally (before ++ rest) (results ++ ((w.toSet searchPaths).loadAll rest).1) w' := by
  induction rest with
  | nil =>
    intro before results w h
    exact ⟨w, rfl, by simpa [SourceSet.loadAll] using h⟩
  | cons l rest ih =>
    intro before results w h
    obtain ⟨tree, file⟩ := l
    rw [SourceSet.loadAll, load_toSet]
    cases hvisit : (visit tree searchPaths tree.levels file none).run w with | mk result next =>
    obtain ⟨w', hlast, htally⟩ := ih (h.load tree searchPaths file hvisit)
    refine ⟨w', hlast, ?_⟩
    simpa using htally

/-- What is loaded and hashed after a walk: the files that it has entered. -/
theorem toSet_digest (searchPaths : List String) (w : SourceWalk) :
    (w.toSet searchPaths).digest =
      w.entered.foldl (fun digest f => digest.add f.2) .empty := by
  rw [foldl_add]
  simp [toSet, SourceWalk.bytes, SourceDigest.empty]

/-- Where every file is reached from the root, the files read have different names. -/
theorem Tally.names (h : Tally loads results w) (hcanonical : ∀ l ∈ loads, l.1.canonical = true) :
    ∃ read : List (FileName × Bytes), (read.map Prod.fst).Nodup ∧
      read.map Prod.snd = w.entered.map Prod.snd ∧
      ∀ f ∈ read, ∃ l ∈ loads, l.1.bytesAt? f.1 = some f.2 := by
  have hname : ∀ f ∈ w.entered, ∃ name, f.1 = Path.key (Path.absolute name) ∧
      ∃ l ∈ loads, l.1.bytesAt? name = some f.2 := by
    intro f hf
    obtain ⟨l, hl, path, hentry⟩ := h.read f hf
    obtain ⟨bytes, hread, rfl⟩ := Option.map_eq_some_iff.mp hentry
    obtain ⟨name, hresolve, hmem⟩ := FileTree.exists_name (FileTree.isFile_of_read? hread)
    rw [FileTree.read?, hresolve] at hread
    exact ⟨name, FileTree.keyOf_of_canonical (hcanonical l hl) hresolve hmem, l, hl, hread⟩
  choose! name hkey hbytes using hname
  have hnodup : (w.entered.map Prod.fst).Nodup := h.sublist.nodup h.nodup
  have hkeys : w.entered.map Prod.fst =
      (w.entered.map name).map fun n => Path.key (Path.absolute n) := by
    rw [List.map_map]
    exact List.map_congr_left hkey
  refine ⟨w.entered.map fun f => (name f, f.2), ?_, by simp, fun f hf => ?_⟩
  · rw [hkeys] at hnodup
    simpa [List.map_map, Function.comp_def] using hnodup.of_map
  · obtain ⟨g, hg, rfl⟩ := List.mem_map.mp hf
    exact hbytes g hg

/-- **Each file is read once.** After any loads, also failed ones, no key is loaded twice, and the
digest is that of files whose keys are loaded, each of them once. Where every file is reached from
the root, no file is read twice. As many files are loaded as hashed and one more for each load that
failed to read a file, so that the numbers are equal exactly if no load did.

One more load comes to an end: with more levels than there are keys it is what they make of it,
whatever stands below them. It reads and hashes files that were not loaded before, each once, and it
is stuck, with one key more loaded, exactly if it fails to read the file of that key. It leaves
everything as it is if the key of its path is loaded, and it does not depend on the files of such
keys. -/
theorem load_once
    (h : (SourceSet.empty searchPaths).loadAll loads = (results, s)) :
    s.loaded.Nodup ∧
    (∃ read : List (PathKey × Bytes), (read.map Prod.fst).Sublist s.loaded ∧
      s.digest = read.foldl (fun digest f => digest.add f.2) .empty) ∧
    ((∀ l ∈ loads, l.1.canonical = true) →
      ∃ read : List (FileName × Bytes), (read.map Prod.fst).Nodup ∧
        s.digest = read.foldl (fun digest f => digest.add f.2) .empty ∧
        ∀ f ∈ read, ∃ l ∈ loads, l.1.bytesAt? f.1 = some f.2) ∧
    s.loaded.length = s.digest.sources + results.count (.error .io) ∧
    (s.digest.sources = s.loaded.length ↔ .error .io ∉ results) ∧
    ∀ tree file,
      (∀ below levels, tree.depth < levels →
        ((SourceSet.level tree)^[levels] below file none).run s = s.load tree file) ∧
      (∃ new stuck done, Leaves tree s (s.load tree file).2 new done ∧
        (s.load tree file).2.loaded = s.loaded ++ marked new stuck ∧
        (marked new stuck).Nodup ∧ (∀ k ∈ marked new stuck, k ∉ s.loaded) ∧
        (∀ k ∈ stuck, tree.unreadable k = true) ∧
        (stuck.isSome = true ↔ (s.load tree file).1 = .error .io)) ∧
      (∀ path, SourceSet.locate tree s.searchPaths file none = .ok path →
        tree.keyOf path ∈ s.loaded → s.load tree file = (.ok (), s)) ∧
      ∀ tree', tree.SameBut s.loaded tree' → s.load tree' file = s.load tree file := by
  have hstart : Tally [] [] empty :=
    ⟨List.nodup_nil, rfl, List.Sublist.refl _, fun f hf => absurd hf List.not_mem_nil⟩
  obtain ⟨w, hlast, htally⟩ := loadAll_tally searchPaths loads hstart
  rw [toSet_empty, h] at hlast htally
  obtain rfl : s = w.toSet searchPaths := hlast
  simp only [List.nil_append] at htally
  have hlength : (w.toSet searchPaths).loaded.length =
      (w.toSet searchPaths).digest.sources + results.count (.error .io) := htally.length_eq
  refine ⟨htally.nodup, ⟨w.entered, htally.sublist, toSet_digest _ w⟩, fun hcanonical => ?_,
    hlength, ?_, fun tree file => ⟨fun below levels hlevels => load_iterate hlevels below w, ?_,
      fun path hlocate hloaded => ?_, fun tree' h => load_sameBut h fun _ hk => hk⟩⟩
  · obtain ⟨read, hnodup, hbytes, hread⟩ := htally.names hcanonical
    refine ⟨read, hnodup, ?_, hread⟩
    rw [toSet_digest, ← List.foldl_map (f := Prod.snd) (g := SourceDigest.add), ← hbytes,
      List.foldl_map]
  · rw [← List.count_eq_zero]
    omega
  · obtain ⟨new, stuck, done, hends⟩ := visit_orderly tree searchPaths tree.levels file none w
    have hnew := hends.traverses
    rw [load_toSet]
    exact ⟨new, stuck, done, hnew.leaves searchPaths, hnew.keys_eq, hnew.nodup, hnew.fresh,
      hnew.unread, hends.stuck_iff⟩
  · have hlocate : SourceSet.locate tree searchPaths file none = .ok path := hlocate
    have hloaded : tree.keyOf path ∈ w.keys := hloaded
    rw [load_toSet, FileTree.levels, run_visit_known hlocate hloaded]

namespace Sample

/-- A working directory with one file, on a machine that has a file that cannot be read, the memory
of a process; a link leads to its directory. -/
def machine : FileTree where
  here := ["w"]
  directories := [["w"], ["proc"], ["proc", "1"]]
  files := [(["w", "a"], some "x: 1".toUTF8.toList), (["proc", "1", "mem"], none)]
  links := [(["proc", "self"], "1")]

/-- What there is after the file in the working directory is read, and the other one is not. -/
def machineWalk : SourceWalk where
  keys := [⟨true, ["w", "a"]⟩, ⟨true, ["proc", "1", "mem"]⟩]
  entered := [(⟨true, ["w", "a"]⟩, "x: 1".toUTF8.toList)]
  finished := [(⟨true, ["w", "a"]⟩, .object [("x", .int 1)])]

/-- A working directory in a closed directory. -/
def shut : FileTree where
  here := ["home", "w"]
  directories := [["home"], ["home", "w"]]
  files := [(["home", "w", "a"], some "x: 1".toUTF8.toList)]
  closed := [["home"]]

/-- What there is after the file in the closed directory is read under some paths. -/
def shutWalk (paths : List String) : SourceWalk where
  keys := paths.map Path.key
  entered := paths.map fun path => (Path.key path, "x: 1".toUTF8.toList)
  finished := paths.map fun path => (Path.key path, .object [("x", .int 1)])

end Sample

theorem loadAll_machine : (SourceSet.empty []).loadAll
    [(Sample.machine, "a"), (Sample.machine, "/proc/self/mem"), (Sample.machine, "./a")] =
      ([.ok (), .error .io, .ok ()], Sample.machineWalk.toSet []) := by
  have hfirst : (SourceSet.empty []).load Sample.machine "a" =
      (.ok (), { Sample.machineWalk with keys := [⟨true, ["w", "a"]⟩] }.toSet []) :=
    load_of_visit (w := empty) (by decide +kernel)
  have hstuck : ({ Sample.machineWalk with keys := [⟨true, ["w", "a"]⟩] }.toSet []).load
      Sample.machine "/proc/self/mem" = (.error .io, Sample.machineWalk.toSet []) :=
    load_of_visit (by decide +kernel)
  have hagain : (Sample.machineWalk.toSet []).load Sample.machine "./a" =
      (.ok (), Sample.machineWalk.toSet []) := load_of_visit (by decide +kernel)
  rw [SourceSet.loadAll_cons hfirst, SourceSet.loadAll_cons hstuck, SourceSet.loadAll_cons hagain]
  rfl

/-- A file is loaded, then one that cannot be read, then the first one again under another spelling.
-/
theorem load_once_machine :
    (SourceSet.empty []).loadAll
      [(Sample.machine, "a"), (Sample.machine, "/proc/self/mem"), (Sample.machine, "./a")] =
        ([.ok (), .error .io, .ok ()], Sample.machineWalk.toSet []) ∧
    (Sample.machineWalk.toSet []).loaded.length = (Sample.machineWalk.toSet []).digest.sources + 1 ∧
    (Sample.machineWalk.toSet []).load Sample.machine "/proc/self/../1/mem" =
      (.ok (), Sample.machineWalk.toSet []) := by
  obtain ⟨-, -, -, hlength, -, hload⟩ := load_once loadAll_machine
  obtain ⟨-, -, hknown, -⟩ := hload Sample.machine "/proc/self/../1/mem"
  exact ⟨loadAll_machine, hlength,
    hknown "/proc/self/../1/mem" (by decide +kernel) (by decide +kernel)⟩

/-- **A file that cannot be read is loaded and not hashed**, and it loads when it is loaded again.
-/
theorem load_unread : ∃ s, (SourceSet.empty []).loadAll
    [(Sample.machine, "/proc/self/mem"), (Sample.machine, "/proc/self/mem")] =
      ([.error .io, .ok ()], s) ∧ s.loaded.length = 1 ∧ s.digest.sources = 0 := by
  have hfirst : (SourceSet.empty []).load Sample.machine "/proc/self/mem" =
      (.error .io, (empty.mark ⟨true, ["proc", "1", "mem"]⟩).toSet []) :=
    load_of_visit (w := empty) (by decide +kernel)
  have hagain : ((empty.mark ⟨true, ["proc", "1", "mem"]⟩).toSet []).load Sample.machine
      "/proc/self/mem" = (.ok (), (empty.mark ⟨true, ["proc", "1", "mem"]⟩).toSet []) :=
    load_of_visit (by decide +kernel)
  rw [SourceSet.loadAll_cons hfirst, SourceSet.loadAll_cons hagain]
  exact ⟨_, rfl, rfl, rfl⟩

/-- **A file that is not reached from the root is read once for each spelling** of the path to it. -/
theorem load_shut : Sample.shut.resolve? "./a" = Sample.shut.resolve? "a" ∧
    ∃ s, (SourceSet.empty []).loadAll [(Sample.shut, "a"), (Sample.shut, "./a")] =
      ([.ok (), .ok ()], s) ∧ s.loaded.length = 2 ∧ s.digest.sources = 2 := by
  have hfirst : (SourceSet.empty []).load Sample.shut "a" =
      (.ok (), (Sample.shutWalk ["a"]).toSet []) :=
    load_of_visit (w := empty) (by decide +kernel)
  have hsecond : ((Sample.shutWalk ["a"]).toSet []).load Sample.shut "./a" =
      (.ok (), (Sample.shutWalk ["a", "./a"]).toSet []) := load_of_visit (by decide +kernel)
  rw [SourceSet.loadAll_cons hfirst, SourceSet.loadAll_cons hsecond]
  exact ⟨by decide +kernel, _, rfl, rfl, rfl⟩

end SourceWalk

end Schemata

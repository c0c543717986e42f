import Schemata.Handoff.Docs
import Schemata.Proofs.Handoff.Values

/-!
# One entry for each value

The documentation of a tree has one entry for each value of the tree, in the order of the values. A
field speaks for the value that is its type, and an array or a dictionary for the value that is its
item type or value type. On the way down to a value each field adds its name to the root path, items
and dictionary values add nothing.

Results:
* `DocEntry.of_eq_places`: the entries are those of the places of the values, one for one.
* `DocEntry.path_eq_of_at?`: every path begins with the root path and a slash.
* `DocEntry.of_under`: the entries depend on the root path in nothing but the beginning of their paths.
-/

namespace Schemata

namespace DocEntry

/-! ## The entry of a place -/

/-- The root path for what stands behind a step. -/
def rootBelow (root : String) (n : Node) (step : Step) : String :=
  match step, n.kind with
  | .field i, .object fields _ => fields[i]?.elim root fun f => root ++ "/" ++ f.name
  | _, _ => root

/-- The entry of a value one step below a node: that of the field, or that of the container. -/
def ofMember? (root : String) (n : Node) (step : Step) : Option DocEntry :=
  match step, n.kind with
  | .field i, .object fields _ =>
    fields[i]?.map fun f => leaf root f.name f.head.description f.head.required f.type.default?
  | .item, .array item s =>
    some (leaf root n.label n.head.description (s.minItems.getD 0 > 0) item.default?)
  | .value, .dictionary _ value _ =>
    some (leaf root n.label n.head.description false value.default?)
  | _, _ => none

/-- The entry of the value at a place below a node. -/
def at? (root : String) (n : Node) : List Step → Option DocEntry
  | [] => none
  | [step] => ofMember? root n step
  | step :: next :: path =>
    (n.child? step).bind fun c => at? (rootBelow root n step) c (next :: path)

variable {root other : String} {n c : Node} {step : Step} {path : List Step} {e : DocEntry}

theorem at?_cons (hpath : path ≠ []) :
    at? root n (step :: path) = (n.child? step).bind fun c => at? (rootBelow root n step) c path := by
  obtain ⟨next, rest, rfl⟩ := List.exists_cons_of_ne_nil hpath
  rw [at?]

section
variable {h : Head} {fields : List Field} {d : Option Json} {i : Nat} {f : Field}

theorem rootBelow_field (hi : fields[i]? = some f) :
    rootBelow root ⟨h, .object fields d⟩ (.field i) = root ++ "/" ++ f.name := by
  simp only [rootBelow, hi, Option.elim_some]

theorem ofMember?_field (hi : fields[i]? = some f) :
    ofMember? root ⟨h, .object fields d⟩ (.field i) =
      some (leaf root f.name f.head.description f.head.required f.type.default?) := by
  simp only [ofMember?, hi, Option.map_some]

end

/-! ## Entries and places, one for one -/

theorem of?_of_isLeaf (h : n.isLeaf = true) : of? root n = none := by
  obtain ⟨_, k⟩ := n
  cases k with
  | leaf spec => rfl
  | _ => simp [Node.isLeaf, Kind.isLeaf] at h

theorem of?_of_not_leaf (h : n.isLeaf = false) : of? root n = some (of root n) := by
  obtain ⟨_, k⟩ := n
  cases k with
  | leaf spec => simp [Node.isLeaf, Kind.isLeaf] at h
  | _ => rfl

theorem ofFields_eq (root : String) (fields : List Field) :
    ofFields root fields = fields.flatMap fun f => (of? (root ++ "/" ++ f.name) f.type).getD
      [leaf root f.name f.head.description f.head.required f.type.default?] := by
  induction fields with
  | nil => rfl
  | cons f rest ih =>
    obtain ⟨_, _⟩ := f
    rw [ofFields, ih, List.flatMap_cons]
    rfl

/-- What a member of a node adds to the entries is the entries of the places behind its step. -/
theorem member_eq_places (hc : n.child? step = some c) (he : ofMember? root n step = some e)
    (ih : ∀ root, c.isLeaf = false → (of root c).map some = c.valuePlaces.map (at? root c)) :
    ((of? (rootBelow root n step) c).getD [e]).map some =
      (c.valuePlaces.map (step :: ·)).map (at? root n) := by
  by_cases hleaf : c.isLeaf = true
  · rw [of?_of_isLeaf hleaf, Node.valuePlaces_of_isLeaf hleaf, Option.getD_none]
    exact congrArg (fun entry => [entry]) he.symm
  · have hleaf : c.isLeaf = false := by simpa using hleaf
    rw [of?_of_not_leaf hleaf, Option.getD_some, ih _ hleaf, List.map_map]
    refine List.map_congr_left fun path hpath => ?_
    have hne : path ≠ [] := by
      rintro rfl
      exact absurd (Node.nil_mem_valuePlaces.mp hpath) (by simp [hleaf])
    rw [Function.comp_apply, at?_cons hne, hc, Option.bind_some]

/-- **The entries of a tree are those of the places of its values**, one for one and in order. -/
theorem of_eq_places (n : Node) (root : String) (hn : n.isLeaf = false) :
    (of root n).map some = n.valuePlaces.map (at? root n) := by
  induction n using Node.children_induction generalizing root with
  | h n ih =>
    obtain ⟨h, k⟩ := n
    cases k with
    | leaf spec => simp [Node.isLeaf, Kind.isLeaf] at hn
    | array item s =>
      have hchild : Node.child? ⟨h, .array item s⟩ .item = some item := rfl
      exact member_eq_places hchild rfl (ih item (List.mem_singleton_self _))
    | dictionary key value d =>
      have hchild : Node.child? ⟨h, .dictionary key value d⟩ .value = some value := rfl
      exact member_eq_places hchild rfl
        (ih value (List.mem_cons_of_mem _ (List.mem_singleton_self _)))
    | object fields d =>
      change (ofFields root fields).map some = (Field.valuePlaces 0 fields).map _
      rw [ofFields_eq, Field.valuePlaces_eq, List.map_flatMap, List.map_flatMap]
      conv_lhs => rw [← List.zipIdx_map_fst 0 fields, List.flatMap_map]
      refine List.flatMap_congr fun entry hentry => ?_
      obtain ⟨f, i⟩ := entry
      have hi : fields[i]? = some f := List.mem_zipIdx_iff_getElem?.mp hentry
      have hchild : f.type ∈ Kind.children (.object fields d) :=
        List.mem_map_of_mem (List.mem_of_getElem? hi)
      have hmember : ofMember? root ⟨h, .object fields d⟩ (.field i) = some _ := ofMember?_field hi
      have hplaces := member_eq_places (Node.child?_field hi) hmember (ih f.type hchild)
      rwa [rootBelow_field hi] at hplaces

/-! ## Root paths -/

/-- The entry with a text put in front of its path. -/
def under (front : String) (e : DocEntry) : DocEntry := { e with path := front ++ e.path }

/-- The entry with another root path at the beginning of its path. -/
def exchangeRoot (root other : String) (e : DocEntry) : DocEntry :=
  { e with path := other ++ String.ofList (e.path.toList.drop root.length) }

theorem exchangeRoot_under (root other : String) (e : DocEntry) :
    exchangeRoot root other (under root e) = under other e := by
  unfold exchangeRoot under
  rw [String.toList_append, ← String.length_toList, List.drop_left, String.ofList_toList]

theorem leaf_under (front root name description : String) (required : Bool)
    (default : Option Json) : leaf (front ++ root) name description required default =
      under front (leaf root name description required default) := by
  unfold leaf under
  simp only [String.append_assoc]

theorem ofMember?_under (front root : String) (n : Node) (step : Step) :
    ofMember? (front ++ root) n step = (ofMember? root n step).map (under front) := by
  obtain ⟨_, k⟩ := n
  cases step with
  | field i =>
    cases k with
    | object fields d =>
      cases hi : fields[i]? with
      | none => simp [ofMember?, hi]
      | some f => rw [ofMember?_field hi, ofMember?_field hi, leaf_under, Option.map_some]
    | _ => rfl
  | key => cases k <;> rfl
  | _ => cases k <;> simp [ofMember?, leaf_under]

theorem rootBelow_under (front root : String) (n : Node) (step : Step) :
    rootBelow (front ++ root) n step = front ++ rootBelow root n step := by
  obtain ⟨_, k⟩ := n
  cases step with
  | field i =>
    cases k with
    | object fields d =>
      cases hi : fields[i]? with
      | none => simp [rootBelow, hi]
      | some f => simp only [rootBelow_field hi, String.append_assoc]
    | _ => rfl
  | _ => cases k <;> rfl

theorem at?_under (front root : String) (n : Node) (path : List Step) :
    at? (front ++ root) n path = (at? root n path).map (under front) := by
  induction path generalizing root n with
  | nil => rfl
  | cons step path ih =>
    by_cases hpath : path = []
    · subst hpath
      exact ofMember?_under front root n step
    · rw [at?_cons hpath, at?_cons hpath, rootBelow_under]
      cases n.child? step with
      | none => rfl
      | some c => exact ih _ c

/-- **The entries depend on the root path in nothing but the beginning of their paths.** -/
theorem of_under (front root : String) (hn : n.isLeaf = false) :
    of (front ++ root) n = (of root n).map (under front) := by
  refine List.map_injective_iff.mpr (fun _ _ => Option.some.inj) ?_
  calc (of (front ++ root) n).map some
      = n.valuePlaces.map (at? (front ++ root) n) := of_eq_places n _ hn
    _ = n.valuePlaces.map (Option.map (under front) ∘ at? root n) :=
        List.map_congr_left fun path _ => at?_under front root n path
    _ = ((of root n).map some).map (Option.map (under front)) := by
        rw [of_eq_places n root hn, List.map_map]
    _ = ((of root n).map (under front)).map some := by
        rw [List.map_map, List.map_map]
        rfl

theorem of_exchangeRoot (root other : String) (hn : n.isLeaf = false) :
    of other n = (of root n).map (exchangeRoot root other) := by
  have hroot : ∀ root, of root n = (of "" n).map (under root) := fun root => by
    rw [← of_under root "" hn, String.append_empty]
  rw [hroot root, hroot other, List.map_map]
  exact List.map_congr_left fun e _ => (exchangeRoot_under root other e).symm

theorem path_of_ofMember? (h : ofMember? root n step = some e) :
    ∃ name, e.path = root ++ "/@" ++ name := by
  unfold ofMember? at h
  split at h
  · obtain ⟨f, -, rfl⟩ := Option.map_eq_some_iff.mp h
    exact ⟨_, rfl⟩
  · obtain rfl := Option.some.inj h
    exact ⟨_, rfl⟩
  · obtain rfl := Option.some.inj h
    exact ⟨_, rfl⟩
  · cases h

theorem rootBelow_cases (root : String) (n : Node) (step : Step) :
    rootBelow root n step = root ∨ ∃ name, rootBelow root n step = root ++ "/" ++ name := by
  unfold rootBelow
  split
  · rename_i i fields d _
    cases fields[i]? with
    | none => exact Or.inl rfl
    | some f => exact Or.inr ⟨f.name, rfl⟩
  · exact Or.inl rfl

/-- **Every path begins with the root path and a slash.** -/
theorem path_eq_of_at? (h : at? root n path = some e) : ∃ rest, e.path = root ++ "/" ++ rest := by
  induction path generalizing root n with
  | nil => cases h
  | cons step path ih =>
    by_cases hpath : path = []
    · subst hpath
      obtain ⟨name, hname⟩ := path_of_ofMember? h
      exact ⟨"@" ++ name, by rw [hname]; simp only [String.append_assoc]; rfl⟩
    · rw [at?_cons hpath] at h
      obtain ⟨c, -, hc⟩ := Option.bind_eq_some_iff.mp h
      obtain ⟨rest, hrest⟩ := ih hc
      rcases rootBelow_cases root n step with hroot | ⟨name, hroot⟩
      · exact ⟨rest, by rw [hrest, hroot]⟩
      · exact ⟨name ++ "/" ++ rest, by rw [hrest, hroot]; simp only [String.append_assoc]⟩

end DocEntry

end Schemata

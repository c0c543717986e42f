import Schemata.Handoff.Docs
import Schemata.Proofs.Text.Pieces

/-!
# Sections of the documentation

Entries are grouped by the second segment of their paths, or by the only one. An entry goes to the end of
the section of its key, and opens a new section behind the others if there is none. So the sections take
the entries apart: each entry stands in the section of its key and nowhere else, in the order of the
entries, and the sections stand in the order in which their keys come up first.

Results:
* `DocEntry.sectionKey_iff`: what the key of an entry is.
* `DocIndex.Groups.insert`: one more entry in its section.
* `DocIndex.ofEntries_partition`: the sections of a list of entries.
-/

namespace Schemata

/-! ## Keys -/

/-- The second segment of a path, or the only one. -/
inductive DocEntry.KeyOf : String → String → Prop
  /-- A path of one segment. -/
  | only {path : String} (h : '/' ∉ path.toList) : KeyOf path path
  /-- A path of two segments. -/
  | last {first key : String} (hfirst : '/' ∉ first.toList) (hkey : '/' ∉ key.toList) :
    KeyOf (first ++ "/" ++ key) key
  /-- A path of more segments. -/
  | inner {first key rest : String} (hfirst : '/' ∉ first.toList) (hkey : '/' ∉ key.toList) :
    KeyOf (first ++ "/" ++ (key ++ "/" ++ rest)) key

namespace DocEntry

variable {e : DocEntry} {key : String}

theorem KeyOf.sectionKey (h : KeyOf e.path key) : e.sectionKey = key := by
  unfold DocEntry.sectionKey
  generalize e.path = path at h
  cases h with
  | only h => rw [Text.splitAt_of_not_mem h]
  | last hfirst hkey => rw [Text.splitAt_append hfirst, Text.splitAt_of_not_mem hkey]
  | inner hfirst hkey => rw [Text.splitAt_append hfirst, Text.splitAt_append hkey]

theorem exists_keyOf (path : String) : ∃ key, KeyOf path key := by
  by_cases h : '/' ∈ path.toList
  · obtain ⟨first, rest, rfl, hfirst⟩ := Text.exists_first_slash h
    by_cases h' : '/' ∈ rest.toList
    · obtain ⟨key, more, rfl, hkey⟩ := Text.exists_first_slash h'
      exact ⟨key, .inner hfirst hkey⟩
    · exact ⟨rest, .last hfirst h'⟩
  · exact ⟨path, .only h⟩

/-- **The key of an entry is the second segment of its path, or the only one.** -/
theorem sectionKey_iff : e.sectionKey = key ↔ KeyOf e.path key := by
  constructor
  · rintro rfl
    obtain ⟨key, h⟩ := exists_keyOf e.path
    exact h.sectionKey ▸ h
  · exact KeyOf.sectionKey

end DocEntry

namespace DocIndex

variable {entries : List DocEntry} {sections : List DocSection} {s : DocSection} {e : DocEntry}

/-! ## One more entry -/

/-- Sections hold a list of entries. -/
structure Groups (entries : List DocEntry) (sections : List DocSection) : Prop where
  /-- There are sections for the keys of the entries, and for no other. -/
  mem_names : ∀ name,
    name ∈ sections.map DocSection.name ↔ name ∈ entries.map DocEntry.sectionKey
  /-- They stand in the order in which their keys come up first. -/
  ordered : (sections.map DocSection.name).Pairwise fun a b =>
    (entries.map DocEntry.sectionKey).idxOf a < (entries.map DocEntry.sectionKey).idxOf b
  /-- A section has the entries of its key, in order. -/
  entries_eq : ∀ s ∈ sections, s.entries = entries.filter (·.sectionKey = s.name)
  /-- All sections together have all entries. -/
  perm : (sections.flatMap DocSection.entries).Perm entries

theorem Groups.nodup (h : Groups entries sections) : (sections.map DocSection.name).Nodup :=
  h.ordered.imp fun hlt heq => by
    subst heq
    exact Nat.lt_irrefl _ hlt

theorem names_insert (e : DocEntry) (sections : List DocSection) :
    (insert e sections).map DocSection.name =
      if e.sectionKey ∈ sections.map DocSection.name then sections.map DocSection.name
      else sections.map DocSection.name ++ [e.sectionKey] := by
  induction sections with
  | nil => rfl
  | cons s rest ih =>
    unfold insert
    by_cases h : s.name = e.sectionKey
    · simp [h]
    · rw [if_neg h, List.map_cons, ih, List.map_cons]
      by_cases hrest : e.sectionKey ∈ rest.map DocSection.name
      · rw [if_pos hrest, if_pos (List.mem_cons_of_mem _ hrest)]
      · rw [if_neg hrest, if_neg (by simp [Ne.symm h, hrest]), List.cons_append]

theorem flatMap_insert (e : DocEntry) (sections : List DocSection) :
    ((insert e sections).flatMap DocSection.entries).Perm
      (sections.flatMap DocSection.entries ++ [e]) := by
  induction sections with
  | nil => exact List.Perm.refl _
  | cons s rest ih =>
    unfold insert
    by_cases h : s.name = e.sectionKey
    · rw [if_pos h, List.flatMap_cons, List.flatMap_cons, List.append_assoc, List.append_assoc]
      exact List.perm_append_comm.append_left s.entries
    · rw [if_neg h, List.flatMap_cons, List.flatMap_cons, List.append_assoc]
      exact ih.append_left s.entries

/-- What a section with one more entry was before. -/
theorem mem_insert (hnodup : (sections.map DocSection.name).Nodup) (h : s ∈ insert e sections) :
    (∃ t ∈ sections, s.name = t.name ∧
      s.entries = t.entries ++ if e.sectionKey = t.name then [e] else []) ∨
    e.sectionKey ∉ sections.map DocSection.name ∧ s = ⟨e.sectionKey, [e]⟩ := by
  induction sections with
  | nil => exact Or.inr ⟨List.not_mem_nil, List.mem_singleton.mp h⟩
  | cons t rest ih =>
    obtain ⟨hfresh, hrest⟩ := List.nodup_cons.mp hnodup
    unfold insert at h
    by_cases hname : t.name = e.sectionKey
    · rw [if_pos hname] at h
      rcases List.mem_cons.mp h with rfl | h
      · exact Or.inl ⟨t, List.mem_cons_self, rfl, by rw [if_pos hname.symm]⟩
      · have hne : e.sectionKey ≠ s.name := fun heq =>
          hfresh (hname.trans heq ▸ List.mem_map_of_mem h)
        exact Or.inl ⟨s, List.mem_cons_of_mem _ h, rfl, by rw [if_neg hne, List.append_nil]⟩
    · rw [if_neg hname] at h
      rcases List.mem_cons.mp h with rfl | h
      · exact Or.inl ⟨s, List.mem_cons_self, rfl, by rw [if_neg (Ne.symm hname), List.append_nil]⟩
      · rcases ih hrest h with ⟨u, hu, hsame⟩ | ⟨hnot, hs⟩
        · exact Or.inl ⟨u, List.mem_cons_of_mem _ hu, hsame⟩
        · exact Or.inr ⟨by simp [Ne.symm hname, hnot], hs⟩

/-- **One more entry** stands in the section of its key. -/
theorem Groups.insert (h : Groups entries sections) (e : DocEntry) :
    Groups (entries ++ [e]) (DocIndex.insert e sections) where
  mem_names := by
    intro name
    rw [names_insert, List.map_append, List.mem_append, List.map_singleton, List.mem_singleton]
    split
    · rename_i hmem
      rw [h.mem_names] at hmem ⊢
      constructor
      · exact Or.inl
      · rintro (hname | rfl)
        · exact hname
        · exact hmem
    · rw [List.mem_append, List.mem_singleton, h.mem_names]
  ordered := by
    -- an entry at the end is the first one of a key only if the key is new
    have hold : ∀ a ∈ sections.map DocSection.name,
        ((entries ++ [e]).map DocEntry.sectionKey).idxOf a =
          (entries.map DocEntry.sectionKey).idxOf a := fun a ha => by
      rw [List.map_append, List.idxOf_append_of_mem ((h.mem_names a).mp ha)]
    have hkept : (sections.map DocSection.name).Pairwise fun a b =>
        ((entries ++ [e]).map DocEntry.sectionKey).idxOf a <
          ((entries ++ [e]).map DocEntry.sectionKey).idxOf b :=
      h.ordered.imp_of_mem fun ha hb hlt => by rwa [hold _ ha, hold _ hb]
    rw [names_insert]
    split
    · exact hkept
    · rename_i hnew
      refine List.pairwise_append.mpr ⟨hkept, List.pairwise_singleton _ _, fun a ha b hb => ?_⟩
      obtain rfl := List.mem_singleton.mp hb
      rw [h.mem_names] at hnew
      rw [hold a ha, List.map_append, List.idxOf_append_of_notMem hnew]
      have hlt := List.idxOf_lt_length_of_mem ((h.mem_names a).mp ha)
      omega
  entries_eq := by
    intro s hs
    rw [List.filter_append]
    rcases mem_insert h.nodup hs with ⟨t, ht, hname, hentries⟩ | ⟨hnew, rfl⟩
    · rw [hentries, h.entries_eq t ht, hname]
      congr 1
      by_cases hkey : e.sectionKey = t.name <;> simp [hkey]
    · rw [h.mem_names] at hnew
      have hnone : entries.filter (·.sectionKey = e.sectionKey) = [] :=
        List.filter_eq_nil_iff.mpr fun f hf heq =>
          hnew (decide_eq_true_eq.mp heq ▸ List.mem_map_of_mem hf)
      simp [hnone]
  perm := (flatMap_insert e sections).trans (h.perm.append_right [e])

/-! ## All entries -/

theorem Groups.foldl {seen : List DocEntry} (h : Groups seen sections) (entries : List DocEntry) :
    Groups (seen ++ entries)
      (entries.foldl (fun sections e => DocIndex.insert e sections) sections) := by
  induction entries generalizing seen sections with
  | nil => rwa [List.append_nil]
  | cons e rest ih =>
    rw [List.append_cons]
    exact ih (h.insert e)

/-- The sections of a list of entries hold its entries. -/
theorem groups_ofEntries (entries : List DocEntry) : Groups entries (ofEntries entries).sections :=
  have hstart : Groups [] [] :=
    ⟨fun _ => Iff.rfl, List.Pairwise.nil, fun _ hs => absurd hs List.not_mem_nil, .refl _⟩
  hstart.foldl entries

theorem isSome_section?_iff (h : Groups entries sections) (name : String) :
    ((DocIndex.mk sections).section? name).isSome = true ↔ ∃ e ∈ entries, e.sectionKey = name := by
  rw [← List.mem_map, ← h.mem_names, List.mem_map]
  simp only [section?, List.find?_isSome, decide_eq_true_eq]

theorem section?_eq_some (h : Groups entries sections) {name : String}
    (hs : (DocIndex.mk sections).section? name = some s) :
    s.name = name ∧ s.entries = entries.filter (·.sectionKey = name) := by
  have hname : s.name = name := by simpa using List.find?_some hs
  exact ⟨hname, hname ▸ h.entries_eq s (List.mem_of_find?_eq_some hs)⟩

/-- **The sections of a list of entries take it apart.** There is one section for each key that an
entry has, the second segment of its path or the only one, in the order in which the keys come up
first. The section of a key has just the entries of this key, in order, and all sections together
have each entry once. -/
theorem ofEntries_partition (entries : List DocEntry) :
    (∀ e : DocEntry, ∀ key, e.sectionKey = key ↔ DocEntry.KeyOf e.path key) ∧
    ((ofEntries entries).sections.map DocSection.name).Nodup ∧
    (∀ name, name ∈ (ofEntries entries).sections.map DocSection.name ↔
      name ∈ entries.map DocEntry.sectionKey) ∧
    ((ofEntries entries).sections.map DocSection.name).Pairwise (fun a b =>
      (entries.map DocEntry.sectionKey).idxOf a < (entries.map DocEntry.sectionKey).idxOf b) ∧
    (∀ name, ((ofEntries entries).section? name).isSome = true ↔
      ∃ e ∈ entries, e.sectionKey = name) ∧
    (∀ name s, (ofEntries entries).section? name = some s →
      s.name = name ∧ s.entries = entries.filter (·.sectionKey = name)) ∧
    ((ofEntries entries).sections.flatMap DocSection.entries).Perm entries ∧
    (ofEntries entries).entryCount = entries.length := by
  have h := groups_ofEntries entries
  exact ⟨fun e key => DocEntry.sectionKey_iff, h.nodup, h.mem_names, h.ordered,
    isSome_section?_iff h, fun name s => section?_eq_some h, h.perm, h.perm.length_eq⟩

end DocIndex

end Schemata

import Schemata.Proofs.Handoff.Entries
import Schemata.Proofs.Text.Pieces

/-!
# The documentation of a tree

Where the fields of every object have names of their own without slashes, no two values are
documented under one path. Two values part at an object, where they go through different fields.
Behind the path that is common to them stands `@` and the name of a field that is a value, or the
name of a field that has values below it and a slash. A name without a slash can be read off either,
and `@` is no slash.

Results:
* `DocEntry.path_ne_of_precedes`: values that part at an object have different paths.
* `DocEntry.documents_values`: the documentation of a tree.
-/

namespace Schemata

/-- The fields of an object have names of their own, without a slash in them. -/
def Node.ClearFields (n : Node) : Prop :=
  ∀ fields, n.fields? = some fields →
    (fields.map Field.name).Nodup ∧ ∀ f ∈ fields, '/' ∉ f.name.toList

namespace DocEntry

variable {root : String} {n : Node} {path p q : List Step} {e e' : DocEntry} {i : Nat}

/-- What stands behind the root path for a field: its name behind `@`, or its name and a slash. -/
def Names (field tail : String) : Prop :=
  tail = "@" ++ field ∨ ∃ rest, tail = field ++ "/" ++ rest

/-- The name of a field can be read off what stands behind the root path. -/
theorem Names.unique {a b tail : String} (ha : '/' ∉ a.toList) (hb : '/' ∉ b.toList)
    (hleft : Names a tail) (hright : Names b tail) : a = b := by
  rcases hleft with rfl | ⟨rest, rfl⟩ <;> rcases hright with h | ⟨more, h⟩
  · simpa using h
  · have hslash : '/' ∈ ("@" ++ a).toList := by rw [h]; simp
    simp [ha] at hslash
  · have hslash : '/' ∈ ("@" ++ b).toList := by rw [← h]; simp
    simp [hb] at hslash
  · have hpieces : a :: Text.splitAt '/' rest = b :: Text.splitAt '/' more := by
      rw [← Text.splitAt_append ha, h, Text.splitAt_append hb]
    exact (List.cons.inj hpieces).1

theorem path_of_field (h : at? root n (.field i :: path) = some e) :
    ∃ fields f tail, n.fields? = some fields ∧ fields[i]? = some f ∧
      e.path = root ++ "/" ++ tail ∧ Names f.name tail := by
  obtain ⟨g, k⟩ := n
  cases k with
  | object fields d =>
    cases hi : fields[i]? with
    | none => cases path <;> simp [at?, ofMember?, Node.child?, hi] at h
    | some f =>
      refine ⟨fields, f, ?_⟩
      by_cases hpath : path = []
      · subst hpath
        obtain rfl := Option.some.inj ((ofMember?_field hi).symm.trans h)
        exact ⟨"@" ++ f.name, rfl, hi, by simp only [leaf, String.append_assoc]; rfl, Or.inl rfl⟩
      · rw [at?_cons hpath, Node.child?_field hi, rootBelow_field hi, Option.bind_some] at h
        obtain ⟨rest, hrest⟩ := path_eq_of_at? h
        exact ⟨f.name ++ "/" ++ rest, rfl, hi, by rw [hrest]; simp only [String.append_assoc],
          Or.inr ⟨rest, rfl⟩⟩
  | _ => cases path <;> simp [at?, ofMember?, Node.child?] at h

/-- **Values that part at an object have different paths.** -/
theorem path_ne_of_precedes (h : Step.Precedes p q) (hclear : n.Everywhere Node.ClearFields)
    (hp : at? root n p = some e) (hq : at? root n q = some e') : e.path ≠ e'.path := by
  induction h generalizing root n with
  | @here i j hlt p q =>
    obtain ⟨fields, f, tail, hfields, hf, hpath, hnames⟩ := path_of_field hp
    obtain ⟨others, g, tail', hothers, hg, hpath', hnames'⟩ := path_of_field hq
    obtain rfl : fields = others := Option.some.inj (hfields.symm.trans hothers)
    obtain ⟨hnodup, hslash⟩ := hclear [] n rfl fields hfields
    intro heq
    rw [hpath, hpath', String.append_right_inj] at heq
    subst heq
    have hname : f.name = g.name := hnames.unique (hslash f (List.mem_of_getElem? hf))
      (hslash g (List.mem_of_getElem? hg)) hnames'
    have hlength : i < (fields.map Field.name).length := by
      rw [List.length_map]
      exact (List.getElem?_eq_some_iff.mp hf).1
    have hplace : (fields.map Field.name)[i]? = (fields.map Field.name)[j]? := by
      rw [List.getElem?_map, List.getElem?_map, hf, hg, Option.map_some, Option.map_some, hname]
    exact absurd ((List.getElem?_inj hlength hnodup).mp hplace) hlt.ne
  | @behind step p q h ih =>
    -- neither path ends at the common step, so it leads both to one child and to one root path
    have hpq : p ≠ [] ∧ q ≠ [] := by cases h <;> simp
    rw [at?_cons hpq.1] at hp
    rw [at?_cons hpq.2] at hq
    obtain ⟨c, hc, hp⟩ := Option.bind_eq_some_iff.mp hp
    rw [hc, Option.bind_some] at hq
    exact ih (hclear.child hc) hp hq

theorem nodup_paths (hn : n.isLeaf = false) (hclear : n.Everywhere Node.ClearFields) :
    ((of root n).map DocEntry.path).Nodup := by
  have hplaces : (n.valuePlaces.map (at? root n)).Pairwise fun a b =>
      ∀ e e', a = some e → b = some e' → e.path ≠ e'.path :=
    List.pairwise_map.mpr (n.pairwise_valuePlaces.imp fun hlt _ _ he he' =>
      path_ne_of_precedes hlt hclear he he')
  rw [← of_eq_places n root hn] at hplaces
  exact List.pairwise_map.mpr ((List.pairwise_map.mp hplaces).imp fun hne => hne _ _ rfl rfl)

/-- **The documentation of a tree.** The entries of an object, an array or a dictionary are those of
its values, one for one: of the leaves behind fields, items and dictionary values, not behind
dictionary keys, depth first and with the fields of an object in order. Each path begins with the
root path and a slash, and another root path makes no difference but there. Where the fields of every
object have names of their own without slashes, no path occurs twice. -/
theorem documents_values (hn : n.isLeaf = false) (root : String) :
    (∀ path, path ∈ n.valuePlaces ↔
      Step.key ∉ path ∧ ∃ m, n.at? path = some m ∧ m.isLeaf = true) ∧
    n.valuePlaces.Pairwise Step.Precedes ∧ n.valuePlaces.Nodup ∧
    (of root n).map some = n.valuePlaces.map (at? root n) ∧
    (∀ e ∈ of root n, ∃ rest, e.path = root ++ "/" ++ rest) ∧
    (∀ other, of other n = (of root n).map (exchangeRoot root other)) ∧
    (n.Everywhere Node.ClearFields → ((of root n).map DocEntry.path).Nodup) := by
  refine ⟨n.mem_valuePlaces, n.pairwise_valuePlaces, n.nodup_valuePlaces, of_eq_places n root hn,
    fun e he => ?_, fun other => of_exchangeRoot root other hn, nodup_paths hn⟩
  have hsome : some e ∈ n.valuePlaces.map (at? root n) := by
    rw [← of_eq_places n root hn]
    exact List.mem_map_of_mem he
  obtain ⟨path, -, hpath⟩ := List.mem_map.mp hsome
  exact path_eq_of_at? hpath

namespace Sample

/-- A field of the given name, with a type that is labelled with the name. -/
def named (name : String) (tag : Tag) (kind : Kind) : Field :=
  ⟨⟨name, "", false, none⟩, ⟨Head.fresh name tag, kind⟩⟩

/-- A text. -/
def anyText : Kind := .leaf (.string ⟨none, none, none, none⟩)

/-- A configuration with a value and an object whose names differ in the sign of leaves only, with a
list of texts, and with a dictionary of lists of objects. -/
def panel : Node := ⟨Head.fresh "config" .object, .object [
  named "debug" .bool (.leaf (.boolean none)),
  named "@debug" .object (.object [named "level" .string anyText] none),
  named "tags" .array (.array ⟨Head.fresh "items" .string, anyText⟩ ⟨"entry", none, none, none⟩),
  named "limits" .dict (.dictionary ⟨Head.fresh "keys" .string, anyText⟩
    ⟨Head.fresh "values" .array, .array
      ⟨Head.fresh "items" .object, .object [named "cpu" .string anyText] none⟩
      ⟨"entry", none, none, none⟩⟩ none)] none⟩

end Sample

/-- Four values, with four paths. -/
theorem documents_values_panel :
    Sample.panel.isLeaf = false ∧ Sample.panel.Everywhere Node.ClearFields ∧
    Sample.panel.valuePlaces = [[.field 0], [.field 1, .field 0], [.field 2, .item],
      [.field 3, .value, .item, .field 0]] ∧
    (of "config" Sample.panel).map DocEntry.path = ["config/@debug", "config/@debug/@level",
      "config/tags/@tags", "config/limits/@cpu"] ∧
    ((of "config" Sample.panel).map DocEntry.path).Nodup := by
  have hclear : Sample.panel.Everywhere Node.ClearFields := by
    simp [Node.everywhere_iff, Node.ClearFields, Kind.children, Node.fields?, Sample.panel,
      Sample.named, Sample.anyText, Field.name]
  obtain ⟨-, -, -, -, -, -, hnodup⟩ := documents_values (n := Sample.panel) rfl "config"
  exact ⟨rfl, hclear, rfl, by decide +kernel, hnodup hclear⟩

end DocEntry

end Schemata

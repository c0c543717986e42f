import Schemata.Proofs.Bind.Site

/-!
# Which element a scope names

A scope names elements by their names and by their labels. Labels are distinct, as they are the keys
of a mapping, but names are not: every reference has the name of its target. An element with the
label that a scope names may therefore stand behind another one with that name, and then the other
one is the element meant.

Results:
* `Bind.site_element_iff`: a constraint is attached to the first element that its scope names.
* `bind_label`: where the constraint goes whose scope names the label of an element.
-/

namespace Schemata

namespace Bind

variable {f : Forest} {c : Constraint} {cs : List Constraint} {i j : Nat} {e : Node} {name : String}

/-- The element at a position is the first that a scope names. -/
def FirstNamed (f : Forest) (name : String) (j : Nat) : Prop :=
  (∃ n, f.elements[j]? = some n ∧ (n.name = name ∨ n.label = name)) ∧
    ∀ k < j, ∀ m, f.elements[k]? = some m → m.name ≠ name ∧ m.label ≠ name

theorem namesElement_iff (name : String) (n : Node) :
    namesElement name n = true ↔ n.name = name ∨ n.label = name := by
  simp [namesElement]

theorem findIdx?_namesElement :
    f.elements.findIdx? (namesElement name) = some j ↔ FirstNamed f name j := by
  rw [List.findIdx?_eq_some_iff_getElem]
  constructor
  · rintro ⟨hlt, hj, hbefore⟩
    refine ⟨⟨f.elements[j], List.getElem?_eq_getElem hlt, (namesElement_iff name _).mp hj⟩, ?_⟩
    intro k hk m hm
    obtain ⟨hk', rfl⟩ := List.getElem?_eq_some_iff.mp hm
    exact not_or.mp (mt (namesElement_iff name _).mpr (hbefore k hk))
  · rintro ⟨⟨n, hn, hname⟩, hbefore⟩
    obtain ⟨hlt, rfl⟩ := List.getElem?_eq_some_iff.mp hn
    refine ⟨hlt, (namesElement_iff name _).mpr hname, fun k hk => ?_⟩
    have hnot := hbefore k hk _ (List.getElem?_eq_getElem (Nat.lt_trans hk hlt))
    exact mt (namesElement_iff name _).mp (not_or.mpr hnot)

/-- **A constraint is attached to the first element that its scope names**, if it names one. -/
theorem site_element_iff : site f c = some (.element j) ↔ FirstNamed f c.scopeName j := by
  rw [← findIdx?_namesElement]
  unfold site
  cases f.elements.findIdx? (namesElement c.scopeName) with
  | some i => simp
  | none =>
    cases f.types.findIdx? (ownsField c.scopeName) with
    | some i => simp
    | none => simp

theorem exists_firstNamed (he : f.elements[i]? = some e) (hname : e.label = name) :
    ∃ j ≤ i, FirstNamed f name j := by
  obtain ⟨hlt, rfl⟩ := List.getElem?_eq_some_iff.mp he
  cases hfound : f.elements.findIdx? (namesElement name) with
  | none =>
    have hnot := List.findIdx?_eq_none_iff.mp hfound _ (List.getElem_mem hlt)
    rw [(namesElement_iff name _).mpr (Or.inr hname)] at hnot
    cases hnot
  | some j =>
    have hfirst := findIdx?_namesElement.mp hfound
    refine ⟨j, Nat.le_of_not_lt fun hij => ?_, hfirst⟩
    exact (hfirst.2 i hij _ he).2 hname

/-- Among distinct labels only names can stand in the way of a label. -/
theorem firstNamed_self_iff (hlabels : (f.elements.map Node.label).Nodup)
    (he : f.elements[i]? = some e) (hname : e.label = name) :
    FirstNamed f name i ↔ ∀ k < i, ∀ m, f.elements[k]? = some m → m.name ≠ name := by
  constructor
  · exact fun h k hk m hm => (h.2 k hk m hm).1
  · intro h
    refine ⟨⟨e, he, Or.inr hname⟩, fun k hk m hm => ⟨h k hk m hm, fun hlabel => ?_⟩⟩
    have hi : i < (f.elements.map Node.label).length := by
      rw [List.length_map]
      exact (List.getElem?_eq_some_iff.mp he).1
    refine List.nodup_iff_getElem?_ne_getElem?.mp hlabels k i hk hi ?_
    rw [List.getElem?_map, List.getElem?_map, hm, he, Option.map_some, Option.map_some, hlabel,
      hname]

theorem FirstNamed.unique (hi : FirstNamed f name i) (hj : FirstNamed f name j) : i = j :=
  Option.some.inj ((findIdx?_namesElement.mpr hi).symm.trans (findIdx?_namesElement.mpr hj))

theorem mem_attachedAt {root : Root} :
    c ∈ attachedAt f cs root ↔ c ∈ cs ∧ site f c = some root := by
  rw [attachedAt, List.mem_filter, decide_eq_true_eq]

end Bind

/-- **Where the constraint goes whose scope names the label of an element**: to the first element
with that name or label and nowhere else, whatever the fields of types are called. Labels being
distinct, this is the element with the label itself exactly when no element in front of it has that
name. -/
theorem bind_label {f : Forest} {cs : List Constraint} {c : Constraint} {i : Nat} {e : Node}
    (hlabels : (f.elements.map Node.label).Nodup) (he : f.elements[i]? = some e) (hc : c ∈ cs)
    (hscope : c.scopeName = e.label) :
    (∀ root, (bindConstraints f cs).forest.root? root =
      (f.root? root).map fun n => n.addConstraints (Bind.attachedAt f cs root)) ∧
    ∃ j ≤ i, Bind.FirstNamed f c.scopeName j ∧
      (∀ root, c ∈ Bind.attachedAt f cs root ↔ root = .element j) ∧
      (j = i ↔ ∀ k < i, ∀ m, f.elements[k]? = some m → m.name ≠ c.scopeName) := by
  obtain ⟨j, hj, hfirst⟩ := Bind.exists_firstNamed he hscope.symm
  have hsite := Bind.site_element_iff.mpr hfirst
  refine ⟨root?_bindConstraints f cs, j, hj, hfirst, fun root => ?_, ?_⟩
  · rw [Bind.mem_attachedAt, hsite, Option.some.injEq]
    exact ⟨fun h => h.2.symm, fun h => ⟨hc, h.symm⟩⟩
  · rw [← Bind.firstNamed_self_iff hlabels he hscope.symm]
    exact ⟨fun h => h ▸ hfirst, fun h => hfirst.unique h⟩

namespace Sample

/-- A reference to the type `host` as the element `server`, and in front of the element `host`. -/
def servers : Forest :=
  ⟨[⟨Head.fresh "host" .object, .object [] none⟩],
    [⟨{ Head.fresh "host" .object with label := "server", isRef := true }, .object [] none⟩,
      ⟨Head.fresh "host" .bool, .leaf (.boolean none)⟩]⟩

/-- A constraint on the element `host`. -/
def onHost : Constraint := ⟨.unique, "hosts", "/elements/host", "id"⟩

end Sample

theorem bind_label_servers : ∃ j ≤ 1, Bind.FirstNamed Sample.servers "host" j ∧
    ∀ root, Sample.onHost ∈ Bind.attachedAt Sample.servers [Sample.onHost] root ↔
      root = .element j := by
  obtain ⟨-, j, hj, hfirst, hwhere, -⟩ := bind_label (f := Sample.servers) (i := 1)
    (by decide) rfl (List.mem_singleton_self Sample.onHost) (by decide)
  exact ⟨j, hj, hfirst, hwhere⟩

/-- **A name may stand in the way of a label.** The constraint on the element `host` is attached to
the reference in front of it. -/
theorem bind_label_behind_name : (Sample.servers.elements.map Node.label).Nodup ∧
    (Sample.servers.elements[1]?).map Node.label = some Sample.onHost.scopeName ∧
    (bindConstraints Sample.servers [Sample.onHost]).forest.elements.map
      (fun n => (n.label, n.head.constraints)) =
        [("server", [Sample.onHost]), ("host", [])] := by
  decide

end Schemata

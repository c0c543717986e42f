import Schemata.Proofs.Json.Merge

/-!
# Merged documents along key paths

A key path leads down through mappings only; a sequence is a value like any other, which is replaced
as a whole. What stands at the end of a key path of a merged document is told by what stands there in
the two documents, as long as the way down the upper one is not cut off by a value that is no mapping.

Results:
* `Json.under?_merge`, `Json.under?_merge_of_none`: what stands at the end of a key path.
* `Json.keys_mergeMembers`: the keys of two mappings laid over each other, in order.
* `Json.merge_laws`: the laws of merging.
-/

namespace Schemata

namespace Json

/-- The value at the end of a path of keys that leads through mappings. -/
def under? (v : Json) : List String → Option Json
  | [] => some v
  | key :: rest => (v.get? key).bind fun next => next.under? rest

/-- Whether a value is a mapping. -/
def isMapping : Json → Bool
  | .object _ => true
  | _ => false

variable {s d v w : Json} {key : String} {path : List String}
  {source below : List (String × Json)}

/-! ## One key -/

theorem merge_of_not_mapping (h : s.isMapping = false) (d : Json) : s.merge d = s := by
  cases s with
  | object members => cases h
  | _ => rfl

theorem distinct_get? (h : v.distinct = true) (hw : v.get? key = some w) : w.distinct = true := by
  cases v with
  | object members => exact distinct_of_member (distinct_object h).2 (mem_of_lookup hw)
  | _ => cases hw

/-- A member of the upper document is laid over the one below it. -/
theorem get?_merge (hs : s.distinct = true) (h : s.get? key = some v) (d : Json) :
    (s.merge d).get? key = some ((d.get? key).elim v v.merge) := by
  cases s with
  | object source =>
    have hkeys := (distinct_object hs).1
    have hmem := mem_of_lookup h
    cases d with
    | object below => exact lookup_mergeMembers hkeys hmem
    | _ => exact h
  | _ => cases h

/-- A member that the upper mapping does not have is the one below. -/
theorem get?_merge_of_none (hs : s.isMapping = true) (h : s.get? key = none) (d : Json) :
    (s.merge d).get? key = d.get? key := by
  cases s with
  | object source =>
    cases d with
    | object below =>
      refine lookup_mergeMembers_of_not_mem fun hin => ?_
      obtain ⟨⟨k, v⟩, hmem, rfl⟩ := List.mem_map.mp hin
      exact absurd rfl (bne_iff_ne.mp (List.lookup_eq_none_iff.mp h _ hmem))
    | _ => exact h
  | _ => cases hs

/-! ## Key paths -/

theorem distinct_under? (h : v.distinct = true) (hw : v.under? path = some w) :
    w.distinct = true := by
  induction path generalizing v with
  | nil => exact Option.some.inj hw ▸ h
  | cons key rest ih =>
    obtain ⟨next, hnext, hw⟩ := Option.bind_eq_some_iff.mp hw
    exact ih (distinct_get? h hnext) hw

/-- **What stands in the upper document at the end of a key path** is laid over what stands there
below. -/
theorem under?_merge (hs : s.distinct = true) (h : s.under? path = some v) (d : Json) :
    (s.merge d).under? path = some ((d.under? path).elim v v.merge) := by
  induction path generalizing s d with
  | nil => exact Option.some.inj h ▸ rfl
  | cons key rest ih =>
    obtain ⟨next, hnext, hrest⟩ := Option.bind_eq_some_iff.mp h
    rw [under?, get?_merge hs hnext d, Option.bind_some, under?]
    cases d.get? key with
    | none => exact hrest
    | some b => exact ih (distinct_get? hs hnext) hrest b

/-- **Where the upper document has nothing**, and only mappings on the way down, the lower one is as it
was. -/
theorem under?_merge_of_none (hs : s.distinct = true) (h : s.under? path = none)
    (hway : ∀ front a, front <+: path → front ≠ path → s.under? front = some a →
      a.isMapping = true) (d : Json) : (s.merge d).under? path = d.under? path := by
  induction path generalizing s d with
  | nil => cases h
  | cons key rest ih =>
    have hmapping : s.isMapping = true :=
      hway [] s List.nil_prefix (List.cons_ne_nil key rest).symm rfl
    rw [under?] at h ⊢
    cases hnext : s.get? key with
    | none => rw [get?_merge_of_none hmapping hnext, under?]
    | some next =>
      rw [hnext, Option.bind_some] at h
      have hbelow : ∀ front a, front <+: rest → front ≠ rest → next.under? front = some a →
          a.isMapping = true := fun front a hfront hne ha => by
        refine hway (key :: front) a (List.cons_prefix_cons.mpr ⟨rfl, hfront⟩) (by simpa using hne) ?_
        rw [under?, hnext, Option.bind_some, ha]
      rw [get?_merge hs hnext, Option.bind_some, under?]
      cases d.get? key with
      | none => exact h
      | some b => exact ih (distinct_get? hs hnext) h hbelow b

/-! ## Keys -/

theorem keys_put_of_mem (h : key ∈ below.map Prod.fst) :
    (put key v below).map Prod.fst = below.map Prod.fst := by
  induction below with
  | nil => exact absurd h List.not_mem_nil
  | cons m rest ih =>
    obtain ⟨k, a⟩ := m
    by_cases hk : k = key
    · rw [put, if_pos hk, List.map_cons, List.map_cons]
    · have hrest : key ∈ rest.map Prod.fst := (List.mem_cons.mp h).resolve_left (Ne.symm hk)
      rw [put, if_neg hk, List.map_cons, List.map_cons, ih hrest]

/-- **The keys of two mappings laid over each other**: those of the lower one, then the new ones of the
upper one, each in their order. -/
theorem keys_mergeMembers (h : (source.map Prod.fst).Nodup) (below : List (String × Json)) :
    (mergeMembers source below).map Prod.fst =
      below.map Prod.fst ++ (source.map Prod.fst).filter (· ∉ below.map Prod.fst) := by
  induction source generalizing below with
  | nil => rw [mergeMembers, List.map_nil, List.filter_nil, List.append_nil]
  | cons m rest ih =>
    obtain ⟨k, a⟩ := m
    obtain ⟨hnot, hrest⟩ := List.nodup_cons.mp h
    rw [mergeMembers, ih hrest, List.map_cons]
    by_cases hk : k ∈ below.map Prod.fst
    · rw [keys_put_of_mem hk, List.filter_cons_of_neg (by simpa using hk)]
    · have hlater : (rest.map Prod.fst).filter (· ∉ below.map Prod.fst ++ [k]) =
          (rest.map Prod.fst).filter (· ∉ below.map Prod.fst) := by
        refine List.filter_congr fun key hkey => ?_
        have hne : key ≠ k := fun heq => hnot (heq ▸ hkey)
        simp [hne]
      rw [put_eq_append hk, List.map_append, List.map_singleton, hlater,
        List.filter_cons_of_pos (by simpa using hk), List.append_assoc, List.singleton_append]

/-! ## The laws -/

/-- **The laws of merging.** A document without repeated keys stays as it is when it is laid over the
empty mapping or over itself, and laying it over the result once more changes nothing. Where both
documents have a mapping, the result has the keys of the lower one and behind them the new ones of the
upper one. Every other value of the upper document is in the result. So is every value of the lower one,
unless the upper one has a value there or something other than a mapping on the way. -/
theorem merge_laws (hs : s.distinct = true) (d : Json) :
    s.merge .empty = s ∧ s.merge (s.merge d) = s.merge d ∧ s.merge s = s ∧
    (∀ path upper lower, s.under? path = some (.object upper) →
      d.under? path = some (.object lower) →
        ∃ members, (s.merge d).under? path = some (.object members) ∧
          members.map Prod.fst =
            lower.map Prod.fst ++ (upper.map Prod.fst).filter (· ∉ lower.map Prod.fst)) ∧
    (∀ path a, s.under? path = some a → a.isMapping = false →
      (s.merge d).under? path = some a) ∧
    ∀ path b, d.under? path = some b → s.under? path = none →
      (∀ front a, front <+: path → front ≠ path → s.under? front = some a →
        a.isMapping = true) → (s.merge d).under? path = some b := by
  have hempty : s.merge .empty = s := merge_empty hs
  have htwice : s.merge s = s := by
    have h := merge_merge s hs .empty
    rwa [hempty] at h
  refine ⟨hempty, merge_merge s hs d, htwice, fun path upper lower hupper hlower => ?_,
    fun path a ha hleaf => ?_, fun path b hb hnone hway => ?_⟩
  · refine ⟨mergeMembers upper lower, ?_, ?_⟩
    · rw [under?_merge hs hupper d, hlower, Option.elim_some, merge]
    · exact keys_mergeMembers (distinct_object (distinct_under? hs hupper)).1 lower
  · rw [under?_merge hs ha d]
    cases d.under? path with
    | none => rfl
    | some b => rw [Option.elim_some, merge_of_not_mapping hleaf]
  · rw [under?_merge_of_none hs hnone hway, hb]

namespace Sample

/-- A mapping over a text, a text over a mapping, and a mapping over a mapping. -/
def upper : Json := .object [
  ("info", .object [("name", .string "new")]),
  ("note", .string "none"),
  ("types", .object [("b", .object [("type", .string "bool")]),
    ("a", .object [("min", .nat 1), ("type", .null)])])]

/-- What they are laid over. -/
def lower : Json := .object [
  ("types", .object [("a", .object [("type", .string "int"), ("max", .nat 9)])]),
  ("info", .string "old"),
  ("note", .object [("by", .string "me")])]

end Sample

/-- The new type stands behind the old one, and inside the old one the bound that is not set stays. -/
theorem merge_laws_upper :
    Sample.upper.distinct = true ∧
    (∃ members, (Sample.upper.merge Sample.lower).under? ["types"] = some (.object members) ∧
      members.map Prod.fst = ["a", "b"]) ∧
    (Sample.upper.merge Sample.lower).under? ["types", "a", "type"] = some .null ∧
    (Sample.upper.merge Sample.lower).under? ["types", "a", "max"] = some (.nat 9) := by
  have hs : Sample.upper.distinct = true := by decide
  obtain ⟨-, -, -, hkeys, hupper, hlower⟩ := merge_laws hs Sample.lower
  obtain ⟨members, hmembers, horder⟩ := hkeys ["types"] _ _ rfl rfl
  refine ⟨hs, ⟨members, hmembers, horder⟩, hupper _ .null rfl rfl, ?_⟩
  refine hlower _ (.nat 9) rfl rfl fun front a hfront hne ha => ?_
  simp only [List.prefix_cons_iff, List.prefix_nil] at hfront
  rcases hfront with rfl | ⟨_, rfl, rfl | ⟨_, rfl, rfl | ⟨_, rfl, rfl⟩⟩⟩
  · exact Option.some.inj ha ▸ rfl
  · exact Option.some.inj ha ▸ rfl
  · exact Option.some.inj ha ▸ rfl
  · exact absurd rfl hne

end Json

end Schemata

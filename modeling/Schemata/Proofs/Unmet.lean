import Mathlib.Data.List.Basic

/-!
# What a walk has not met yet

A walk through a finite graph keeps what it has met. What is left bounds how deep it can go: it gets
shorter with every new vertex.

Results:
* `length_unmet_le`, `length_unmet_cons_lt`, `length_unmet_append_lt`: what is left while a walk goes
  on.
-/

namespace Schemata

variable {α : Type} [DecidableEq α] {names seen more : List α} {a : α}

/-- The names that have not been met. -/
def unmet (names seen : List α) : List α := names.filter fun n => n ∉ seen

theorem length_unmet_le (hsub : ∀ n ∈ seen, n ∈ more) :
    (unmet names more).length ≤ (unmet names seen).length := by
  refine (List.monotone_filter_right names fun n hn => ?_).length_le
  simp only [decide_eq_true_eq] at hn ⊢
  exact fun hs => hn (hsub n hs)

/-- Meeting a name leaves fewer to be met. -/
theorem length_unmet_cons_lt (ha : a ∈ names) (hnot : a ∉ seen) :
    (unmet names (a :: seen)).length < (unmet names seen).length := by
  have hfilter : unmet names (a :: seen) = (unmet names seen).filter (· ≠ a) := by
    unfold unmet
    rw [List.filter_filter]
    exact List.filter_congr fun n _ => by simp
  rw [hfilter, List.length_filter_lt_length_iff_exists]
  exact ⟨a, List.mem_filter.mpr ⟨ha, by simpa using hnot⟩, by simp⟩

theorem length_unmet_append_lt (ha : a ∈ names) (hnot : a ∉ seen) :
    (unmet names (seen ++ [a])).length < (unmet names seen).length := by
  have hle : (unmet names (seen ++ [a])).length ≤ (unmet names (a :: seen)).length :=
    length_unmet_le (by simp [or_comm])
  exact Nat.lt_of_le_of_lt hle (length_unmet_cons_lt ha hnot)

end Schemata

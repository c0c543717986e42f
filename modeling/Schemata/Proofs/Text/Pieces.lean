import Schemata.Text.Split
import Mathlib.Data.List.Basic

/-!
# Pieces of a text

A text is cut at every occurrence of a separator, so it is its pieces with separators between them.
The first piece ends at the first separator, and the others are the pieces of what stands behind it.

Results:
* `Text.splitBy_of_not_mem`, `Text.splitBy_append_cons`: the pieces of a text from its first
  separator on.
* `Text.splitAt_of_not_mem`, `Text.splitAt_append`: the same of texts cut at slashes.
-/

namespace Schemata

namespace Text

variable {sep : Char} {word : List Char}

theorem splitBy_of_not_mem (h : sep ∉ word) : splitBy (· = sep) word = [word] := by
  induction word with
  | nil => rfl
  | cons c rest ih =>
    obtain ⟨hc, hrest⟩ := not_or.mp (mt List.mem_cons.mpr h)
    rw [splitBy, if_neg (by simpa using Ne.symm hc), ih hrest]

/-- The first piece of a text stands before the first separator. -/
theorem splitBy_append_cons (h : sep ∉ word) (rest : List Char) :
    splitBy (· = sep) (word ++ sep :: rest) = word :: splitBy (· = sep) rest := by
  induction word with
  | nil => rw [List.nil_append, splitBy, if_pos (decide_eq_true rfl)]
  | cons c word ih =>
    obtain ⟨hc, hword⟩ := not_or.mp (mt List.mem_cons.mpr h)
    rw [List.cons_append, splitBy, if_neg (by simpa using Ne.symm hc), ih hword]

theorem splitBy_ne_nil (cut : Char → Bool) (cs : List Char) : splitBy cut cs ≠ [] := by
  cases cs with
  | nil => simp [splitBy]
  | cons c rest =>
    rw [splitBy]
    split
    · simp
    · split <;> simp

theorem splitAt_of_not_mem {text : String} (h : '/' ∉ text.toList) :
    splitAt '/' text = [text] := by
  unfold splitAt
  rw [splitBy_of_not_mem h, List.map_singleton, String.ofList_toList]

theorem splitAt_append {first : String} (h : '/' ∉ first.toList) (rest : String) :
    splitAt '/' (first ++ "/" ++ rest) = first :: splitAt '/' rest := by
  have htext : (first ++ "/" ++ rest).toList = first.toList ++ '/' :: rest.toList := by simp
  unfold splitAt
  rw [htext, splitBy_append_cons h, List.map_cons, String.ofList_toList]

/-- A text with a slash is cut at the first one. -/
theorem exists_first_slash {text : String} (h : '/' ∈ text.toList) :
    ∃ first rest : String, text = first ++ "/" ++ rest ∧ '/' ∉ first.toList := by
  obtain ⟨front, behind, htext, hfront⟩ := List.eq_append_cons_of_mem h
  refine ⟨String.ofList front, String.ofList behind, String.toList_inj.mp ?_, ?_⟩
  · simpa using htext
  · rwa [String.toList_ofList]

end Text

end Schemata

import Schemata.Proofs.Build.Pointers

/-!
# Every place of a document has a reference

A place of a document is reached step by step, by a key in a mapping and by an index in a sequence.
A reference writes the steps down, each behind a slash. Slashes and tildes in a key are escaped, so
that a slash in a reference always stands in front of a step. Reading undoes the escapes in two
passes over a step; neither of them makes or breaks an escape of the other, whatever the key is made
of.

Results:
* `Pointer.unescape_escape`: a key is what its written step stands for.
* `Pointer.index?_decimal`: an index is what its decimal digits stand for.
* `Json.at?_of_follow`: a path of keys and indices leads where their texts lead.
* `Pointer.resolve_reference`: the reference to a place resolves to what stands there.
-/

namespace Schemata

namespace Pointer

/-! ## Writing a path -/

/-- A step down a document. -/
inductive Step where
  /-- To the member of a mapping under a key. -/
  | key (key : String)
  /-- To the item of a sequence at an index. An index into memory is a 64-bit word. -/
  | index (index : UInt64)

namespace Step

/-- The key, or the index in decimal. -/
def text : Step → String
  | .key k => k
  | .index i => toString i.toNat

/-- A step as it is written in a reference. -/
def written : Step → List Char
  | .key k => escape k
  | .index i => (toString i.toNat).toList

end Step

/-- The reference to the place at the end of a path. -/
def reference (path : List Step) : String :=
  String.ofList ('#' :: path.flatMap fun step => '/' :: step.written)

end Pointer

namespace Json

/-- The value one step down. -/
def down? : Json → Pointer.Step → Option Json
  | .object members, .key key => members.lookup key
  | .array items, .index index => items[index.toNat]?
  | _, _ => none

/-- The value at the end of a path. -/
def follow? (v : Json) : List Pointer.Step → Option Json
  | [] => some v
  | step :: rest => (v.down? step).bind fun next => next.follow? rest

end Json

namespace Pointer

/-! ## Escapes -/

/-- What reading the slashes leaves of a character: a tilde is still escaped. -/
def halfEscaped (c : Char) : List Char := if c = '~' then ['~', '0'] else [c]

theorem readSlashes_cons {c : Char} (h : c ≠ '~') (cs : List Char) :
    readSlashes (c :: cs) = c :: readSlashes cs := by
  rw [readSlashes]
  rintro _ rfl
  exact absurd rfl h

theorem readTildes_cons {c : Char} (h : c ≠ '~') (cs : List Char) :
    readTildes (c :: cs) = c :: readTildes cs := by
  rw [readTildes]
  rintro _ rfl
  exact absurd rfl h

/-- **Reading the slashes first leaves the tildes escaped.** A `~0` is no `~1`, whatever follows. -/
theorem readSlashes_escaped (cs : List Char) :
    readSlashes (cs.flatMap escapeChar) = cs.flatMap halfEscaped := by
  induction cs with
  | nil => rfl
  | cons c cs ih =>
    rw [List.flatMap_cons, List.flatMap_cons, ← ih]
    by_cases htilde : c = '~'
    · subst htilde
      exact congrArg ('~' :: ·) (readSlashes_cons (by decide) _)
    · by_cases hslash : c = '/'
      · subst hslash
        rfl
      · rw [show escapeChar c = [c] by simp [escapeChar, htilde, hslash],
          show halfEscaped c = [c] by simp [halfEscaped, htilde]]
        exact readSlashes_cons htilde _

theorem readTildes_halfEscaped (cs : List Char) : readTildes (cs.flatMap halfEscaped) = cs := by
  induction cs with
  | nil => rfl
  | cons c cs ih =>
    rw [List.flatMap_cons]
    by_cases htilde : c = '~'
    · subst htilde
      exact congrArg ('~' :: ·) ih
    · rw [show halfEscaped c = [c] by simp [halfEscaped, htilde], List.singleton_append,
        readTildes_cons htilde, ih]

/-- **A key is what its written step stands for.** -/
theorem unescape_escape (key : String) : unescape (escape key) = key := by
  rw [unescape, escape, readSlashes_escaped, readTildes_halfEscaped, String.ofList_toList]

theorem slash_not_mem_escape (key : String) : '/' ∉ escape key := by
  rw [escape, List.mem_flatMap]
  rintro ⟨c, -, hc⟩
  unfold escapeChar at hc
  split at hc
  · simp at hc
  · split at hc
    · simp at hc
    · rename_i hslash
      exact hslash (List.mem_singleton.mp hc).symm

/-! ## Indices -/

theorem toList_decimal (n : Nat) : (toString n).toList = Nat.toDigits 10 n := by
  rw [Nat.toString_eq_ofList_toDigits, String.toList_ofList]

theorem isDigit_of_mem_decimal {n : Nat} {c : Char} (h : c ∈ (toString n).toList) :
    c.isDigit = true := by
  rw [toList_decimal] at h
  exact Nat.isDigit_of_mem_toDigits (by decide) (by decide) h

/-- Nothing in a decimal number is escaped. -/
theorem escape_decimal (n : Nat) : escape (toString n) = (toString n).toList := by
  have hself : ∀ cs : List Char, (∀ c ∈ cs, c.isDigit = true) → cs.flatMap escapeChar = cs := by
    intro cs
    induction cs with
    | nil => exact fun _ => rfl
    | cons c cs ih =>
      intro hdigits
      obtain ⟨hc, hcs⟩ := List.forall_mem_cons.mp hdigits
      have htilde : c ≠ '~' := by rintro rfl; exact absurd hc (by decide)
      have hslash : c ≠ '/' := by rintro rfl; exact absurd hc (by decide)
      rw [List.flatMap_cons, ih hcs, escapeChar, if_neg htilde, if_neg hslash,
        List.singleton_append]
  exact hself _ fun _ => isDigit_of_mem_decimal

/-- **An index is what its decimal digits stand for.** -/
theorem index?_decimal {n : Nat} (h : n < UInt64.size) : index? (toString n) = some n := by
  have hdigits : ∀ c ∈ Nat.toDigits 10 n, c.isDigit = true := fun c hc =>
    isDigit_of_mem_decimal (by rwa [toList_decimal])
  have hvalue : (Nat.toDigits 10 n).foldl (fun n c => 10 * n + (c.toNat - '0'.toNat)) 0 = n :=
    Nat.ofDigitChars_ten_toDigits
  unfold index?
  rw [toList_decimal]
  simp only
  split
  · rename_i rest heq
    have hplus := hdigits '+' (heq ▸ List.mem_cons_self)
    exact absurd hplus (by decide)
  · rw [if_neg (by simpa [Nat.toDigits_ne_nil] using hdigits), hvalue, if_pos h]

/-! ## Steps -/

namespace Step

theorem written_eq (step : Step) : step.written = escape step.text := by
  cases step with
  | key k => rfl
  | index i => exact (escape_decimal _).symm

theorem unescape_written (step : Step) : unescape step.written = step.text := by
  rw [written_eq, unescape_escape]

theorem slash_not_mem_written (step : Step) : '/' ∉ step.written := by
  rw [written_eq]
  exact slash_not_mem_escape _

end Step

/-- A reference is cut into its steps. -/
theorem splitBy_written (path : List Step) {word : List Char} (h : '/' ∉ word) :
    Text.splitBy (· = '/') (word ++ path.flatMap fun step => '/' :: step.written) =
      word :: path.map Step.written := by
  induction path generalizing word with
  | nil =>
    rw [List.flatMap_nil, List.append_nil]
    exact Text.splitBy_of_not_mem h
  | cons step path ih =>
    rw [List.flatMap_cons, List.cons_append, Text.splitBy_append_cons h,
      ih step.slash_not_mem_written, List.map_cons]

end Pointer

/-! ## Places -/

namespace Json

theorem step?_of_down {v w : Json} {step : Pointer.Step} (h : v.down? step = some w) :
    v.step? step.text = some w := by
  cases v with
  | object members =>
    cases step with
    | key key => exact h
    | index index => cases h
  | array items =>
    cases step with
    | key key => cases h
    | index index =>
      have hword : index.toNat < UInt64.size := index.toNat_lt
      rw [step?, Pointer.Step.text, Pointer.index?_decimal hword]
      exact h
  | _ => cases h

/-- **A path of keys and indices leads where their texts lead.** -/
theorem at?_of_follow {path : List Pointer.Step} {v w : Json} (h : v.follow? path = some w) :
    v.at? (path.map Pointer.Step.text) = some w := by
  induction path generalizing v with
  | nil => exact h
  | cons step path ih =>
    obtain ⟨next, hstep, hrest⟩ := Option.bind_eq_some_iff.mp h
    rw [List.map_cons, at?, step?_of_down hstep, Option.bind_some, ih hrest]

end Json

/-- **Every place of a document has a reference.** The reference that is written for a path resolves
to the value at its end, with the key or the index of the last step as text. -/
theorem Pointer.resolve_reference {document v : Json} {path : List Step} (hpath : path ≠ [])
    (hv : document.follow? path = some v) :
    resolve document (reference path) = .ok ((path.getLast hpath).text, v) := by
  have hsplit :
      Text.splitBy (· = '/') (reference path).toList = ['#'] :: path.map Step.written := by
    have hsharp : '/' ∉ ['#'] := by decide
    rw [reference, String.toList_ofList]
    exact splitBy_written path hsharp
  have htexts : (path.map Step.written).map unescape = path.map Step.text := by
    rw [List.map_map]
    exact List.map_congr_left fun step _ => step.unescape_written
  have hlast : (path.map Step.text).getLast? = some (path.getLast hpath).text := by
    rw [List.getLast?_map, List.getLast?_eq_some_getLast hpath, Option.map_some]
  unfold resolve
  rw [hsplit]
  simp only [htexts, hlast, Json.at?_of_follow hv]

namespace Sample

/-- A mapping with keys that have to be escaped, with a sequence below one of them. -/
def odd : Json :=
  .object [("~01", .null), ("a/b", .array [.null, .object [("", .bool true), ("~1#", .nat 7)]])]

end Sample

/-- Keys with tildes, slashes and digits that look like escapes, an index, and the empty key. -/
theorem Pointer.resolve_reference_odd :
    reference [.key "~01"] = "#/~001" ∧
    resolve Sample.odd (reference [.key "~01"]) = .ok ("~01", .null) ∧
    reference [.key "a/b", .index 1, .key "~1#"] = "#/a~1b/1/~01#" ∧
    resolve Sample.odd (reference [.key "a/b", .index 1, .key "~1#"]) = .ok ("~1#", .nat 7) ∧
    resolve Sample.odd (reference [.key "a/b", .index 1, .key ""]) = .ok ("", .bool true) ∧
    resolve Sample.odd (reference [.key "a/b", .index 1]) =
      .ok ("1", .object [("", .bool true), ("~1#", .nat 7)]) :=
  ⟨by cbv, resolve_reference (List.cons_ne_nil _ _) rfl, by cbv,
    resolve_reference (List.cons_ne_nil _ _) rfl, resolve_reference (List.cons_ne_nil _ _) rfl,
    resolve_reference (List.cons_ne_nil _ _) rfl⟩

end Schemata

import Schemata.Build.Builder
import Schemata.Compile
import Schemata.Proofs.Build.Levels
import Schemata.Proofs.Steps

/-!
# A builder has no memory

A builder keeps the references that it is resolving from one step to the next, and a step that forgot
to take its own away again would make later requests fail. No step does: whatever a step comes to, the
references are afterwards what they were before, and what it recorded stands behind what was there.
So a step of a builder is a load that is told the references, and a builder between two requests is as
good as a new one.

Results:
* `Builder.load_follows`, `Builder.resolver_follows`: walking down a document with a builder is loading
  with the references that it is resolving.
* `Builder.resolver_levels`: a builder never runs out of levels.
* `Builder.answer_follows`: what a builder that is resolving nothing does with a request.
* `Builder.answers_fresh`: requests to one builder are requests to a new one each.
* `Builder.loadForest_follows`: types and elements loaded by one builder.
-/

namespace Schemata

namespace Builder

variable {α β : Type}

/-! ## Steps that leave references as they are -/

/-- A step of a builder that is resolving some references does what a load does that knows of them: it
leaves them as they are, and records behind what is there. -/
def Follows (resolving : List String) (x : Building α) (y : Loaded α) : Prop :=
  ∀ recorded : Diagnostics,
    x.run ⟨resolving, recorded⟩ = (y.result, ⟨resolving, recorded ++ y.diagnostics⟩)

section
variable {resolving : List String}

theorem Follows.value (a : α) : Follows resolving (pure a) (Loaded.value a) := by
  intro recorded
  change (Except.ok a, (⟨resolving, recorded⟩ : Builder)) = (.ok a, ⟨resolving, recorded ++ []⟩)
  rw [List.append_nil]

theorem Follows.fail (e : SchemaError) :
    Follows resolving (throw e : Building α) (Loaded.fail e) := by
  intro recorded
  change (Except.error e, (⟨resolving, recorded⟩ : Builder)) =
    (.error e, ⟨resolving, recorded ++ []⟩)
  rw [List.append_nil]

/-- Nothing happens behind a failure. -/
theorem Follows.fail_bind {e : SchemaError} {f : α → Building β} :
    Follows resolving (throw e >>= f) (Loaded.fail e) :=
  fun recorded => Follows.fail e recorded

theorem Follows.lift (r : Except SchemaError α) :
    Follows resolving (liftM r : Building α) (Loaded.lift r) := by
  cases r with
  | error e => exact Follows.fail e
  | ok a => exact Follows.value a

theorem Follows.record (d : Diagnostic) :
    Follows resolving (Builder.record d) (Loaded.record d) :=
  fun _ => rfl

/-- Two steps in a row: the second one finds the references that the first one found. -/
theorem Follows.bind {x : Building α} {y : Loaded α} {f : α → Building β} {g : α → Loaded β}
    (h : Follows resolving x y) (hstep : ∀ a, Follows resolving (f a) (g a)) :
    Follows resolving (x >>= f) (y >>= g) := by
  intro recorded
  rw [run_bind, h recorded]
  obtain ⟨r, d⟩ := y
  cases r with
  | error e => rfl
  | ok a =>
    have hnext := hstep a (recorded ++ d)
    rw [List.append_assoc] at hnext
    exact hnext

/-- A step that looks at the builder first. -/
theorem Follows.look {f : Builder → Building α} {y : Loaded α}
    (h : ∀ recorded, Follows resolving (f ⟨resolving, recorded⟩) y) :
    Follows resolving (get >>= f) y :=
  fun recorded => h recorded recorded

/-- Holding back a failure changes nothing about what happens. -/
theorem run_attempt (x : Building α) (b : Builder) :
    (attempt x).run b = (.ok (x.run b).1, (x.run b).2) := rfl

theorem run_whileResolving (reference : String) (x : Building α) (b : Builder) :
    (whileResolving reference x).run b =
      let (outcome, next) := x.run { b with resolving := b.resolving ++ [reference] }
      (outcome, { next with resolving := next.resolving.dropLast }) := by
  unfold whileResolving
  rw [run_bind]
  change (attempt x >>= _).run { b with resolving := b.resolving ++ [reference] } = _
  rw [run_bind, run_attempt]
  cases x.run { b with resolving := b.resolving ++ [reference] } with | mk outcome next =>
  cases outcome <;> rfl

/-- **A reference is taken away again**, whatever a step made while it was being resolved came to. -/
theorem Follows.whileResolving {reference : String} {x : Building α} {y : Loaded α}
    (h : Follows (resolving ++ [reference]) x y) :
    Follows resolving (Builder.whileResolving reference x) y := by
  intro recorded
  rw [run_whileResolving]
  simp only
  rw [h recorded]
  simp only [List.dropLast_concat]

end

/-! ## Walking down the document -/

/-- A resolver of a builder does at every site what a resolver of loads does there. -/
def Resolver.Follows (resolving : List String) (R : Resolver) (S : Entry.Resolver) : Prop :=
  ∀ name site, Builder.Follows resolving (R name site) (S name site)

section
variable {resolving : List String} {R : Resolver} {S : Entry.Resolver}

theorem memberOr_follows (h : R.Follows resolving S) (props : Props) (key : String)
    {x : Building (Option Node)} {y : Loaded (Option Node)} (hxy : Follows resolving x y) :
    Follows resolving (memberOr R props key x) (Entry.memberOr S props key y) := by
  unfold memberOr Entry.memberOr
  by_cases hkey : props.has key = true
  · simp only [if_pos hkey]
    exact hxy
  · simp only [if_neg hkey]
    by_cases href : props.has "$ref" = true
    · simp only [if_pos href]
      exact h key props.referenceOnly
    · simp only [if_neg href]
      exact Follows.value none

mutual
/-- **Walking down a document with a builder is loading it.** -/
theorem load_follows (h : R.Follows resolving S) (name : String) : ∀ v : Json,
    Follows resolving (load R name v) (Entry.load S name v)
  | .object props => by
    simp only [load, Entry.load]
    cases Entry.declaration name props with
    | nothing => exact Follows.value none
    | reference => exact (h name props).bind fun node => Follows.value _
    | unrecognized found => exact Follows.fail _
    | leaf tag spec => exact (Follows.lift spec).bind fun _ => Follows.lift _
    | array =>
      exact (memberOr_follows h props "items" (loadMember_follows h "items" props)).bind
        fun _ => (Follows.lift _).bind fun _ => Follows.lift _
    | dictionary =>
      refine (loadMember_follows h "keys" props).bind fun key => ?_
      cases key with
      | none => exact Follows.fail _
      | some key =>
        refine (memberOr_follows h props "values" (loadMember_follows h "values" props)).bind
          fun value => ?_
        cases value with
        | none => exact Follows.fail _
        | some value => exact Follows.lift _
    | object =>
      exact (loadProperties_follows h name (Props.requiredNames props) props).bind
        fun _ => Follows.lift _
  | .null | .bool _ | .number _ | .string _ | .array _ => by
    simp only [load, Entry.load]
    exact Follows.value none
theorem loadMember_follows (h : R.Follows resolving S) (key : String) :
    ∀ members : List (String × Json), Follows resolving (loadMember R key members)
      (Entry.loadMember S key members)
  | [] => by
    simp only [loadMember, Entry.loadMember]
    exact Follows.value none
  | (k, v) :: rest => by
    simp only [loadMember, Entry.loadMember]
    by_cases hk : k = key
    · simp only [if_pos hk]
      exact load_follows h key v
    · simp only [if_neg hk]
      exact loadMember_follows h key rest
theorem loadProperties_follows (h : R.Follows resolving S) (name : String) (required : List String) :
    ∀ members : List (String × Json), Follows resolving (loadProperties R name required members)
      (Entry.loadProperties S name required members)
  | [] => by
    simp only [loadProperties, Entry.loadProperties]
    exact Follows.value []
  | (k, .object entries) :: rest => by
    simp only [loadProperties, Entry.loadProperties]
    by_cases hk : k = "properties"
    · simp only [if_pos hk]
      exact loadFields_follows h name required entries
    · simp only [if_neg hk]
      exact loadProperties_follows h name required rest
  | (k, .null) :: rest => by
    simp only [loadProperties, Entry.loadProperties]
    by_cases hk : k = "properties"
    · simp only [if_pos hk]
      exact Follows.value []
    · simp only [if_neg hk]
      exact loadProperties_follows h name required rest
  | (k, .bool _) :: rest | (k, .number _) :: rest | (k, .string _) :: rest
  | (k, .array _) :: rest => by
    simp only [loadProperties, Entry.loadProperties]
    by_cases hk : k = "properties"
    · simp only [if_pos hk]
      exact Follows.fail _
    · simp only [if_neg hk]
      exact loadProperties_follows h name required rest
theorem loadFields_follows (h : R.Follows resolving S) (name : String) (required : List String) :
    ∀ members : List (String × Json), Follows resolving (loadFields R name required members)
      (Entry.loadFields S name required members)
  | [] => by
    simp only [loadFields, Entry.loadFields]
    exact Follows.value []
  | (k, v) :: rest => by
    have hrest := loadFields_follows h name required rest
    simp only [loadFields, Entry.loadFields]
    refine (load_follows h k v).bind fun node => ?_
    cases node with
    | none => exact (Follows.record _).bind fun _ => hrest
    | some type => exact hrest.bind fun _ => Follows.value _
end

end

/-! ## References -/

/-- **Resolving a reference is loading what it refers to.** -/
theorem resolver_follows (document : Json) : ∀ (levels : Nat) (resolving : List String),
    (resolver document levels).Follows resolving (Entry.resolver document levels resolving)
  | 0, _, _, _ => Follows.look fun _ => Follows.fail _
  | levels + 1, resolving, name, site => by
    simp only [resolver, Entry.resolver]
    cases List.lookup "$ref" site with
    | none => exact Follows.fail _
    | some value =>
      cases value with
      | string reference =>
        refine (Follows.lift _).bind fun found => Follows.look fun recorded => ?_
        by_cases hin : resolving.contains reference = true
        · simp only [if_pos hin]
          exact Follows.fail_bind
        · simp only [if_neg hin]
          have htarget := load_follows (resolver_follows document levels (resolving ++ [reference]))
            found.1 found.2
          refine htarget.whileResolving.bind fun node => ?_
          cases node with
          | none => exact Follows.value none
          | some node => exact Follows.lift _
      | _ => exact Follows.fail _

/-- **More levels than a builder starts with make no difference** while nothing is being resolved. -/
theorem resolver_levels {document : Json} {more : Nat} (hmore : Entry.levels document ≤ more)
    (name : String) (site : Props) (recorded : Diagnostics) :
    (resolver document more name site).run ⟨[], recorded⟩ =
      (resolveIn document name site).run ⟨[], recorded⟩ := by
  have hmost := resolver_follows document more [] name site recorded
  have henough := resolver_follows document (Entry.levels document) [] name site recorded
  rw [Entry.resolveIn_levels hmore] at hmost
  exact hmost.trans henough.symm

/-! ## Sections -/

theorem loadEntries_follows (document : Json) (name : String) : ∀ entries : List (String × Json),
    Follows [] (loadEntries document name entries) (Entry.loadEntries document name entries)
  | [] => Follows.value []
  | (k, v) :: rest => by
    have hrest := loadEntries_follows document name rest
    have hentry := load_follows (resolver_follows document (Entry.levels document) []) k v
    rw [loadEntries, Entry.loadEntries]
    refine hentry.bind fun node => ?_
    cases node with
    | none => exact (Follows.record _).bind fun _ => hrest
    | some node => exact hrest.bind fun _ => Follows.value _

theorem loadSection_follows (document : Json) (name : String) :
    Follows [] (loadSection document name) (Entry.loadSection document name) := by
  unfold loadSection Entry.loadSection
  cases document.get? name with
  | none => exact Follows.value []
  | some value =>
    cases value with
    | null => exact Follows.value []
    | object entries => exact loadEntries_follows document name entries
    | _ => exact Follows.fail _

/-- **Types and elements loaded by one builder** are those that a compilation loads. -/
theorem loadForest_follows (document : Json) :
    Follows [] (do
      let types ← loadSection document "types"
      let elements ← loadSection document "elements"
      return ⟨types, elements⟩) (Compile.loadForest document) :=
  (loadSection_follows document "types").bind fun _ =>
    (loadSection_follows document "elements").bind fun _ => Follows.value _

/-! ## Requests -/

/-- What a request comes to when nothing is being resolved. -/
def Request.loaded (document : Json) : Request → Loaded Answer
  | .nodes name => .nodes <$> Entry.loadSection document name
  | .entry name value => .node <$> Entry.loadIn document name value
  | .reference name site => .node <$> Entry.resolveIn document name site

/-- **A request leaves a builder that is resolving nothing in such a state.** -/
theorem answer_follows (document : Json) (request : Request) :
    Follows [] (answer document request) (request.loaded document) := by
  cases request with
  | nodes name =>
    simp only [answer, map_eq_pure_bind]
    exact (loadSection_follows document name).bind fun _ => Follows.value _
  | entry name value =>
    simp only [answer, map_eq_pure_bind]
    exact (load_follows (resolver_follows document _ []) name value).bind fun _ => Follows.value _
  | reference name site =>
    simp only [answer, map_eq_pure_bind]
    exact (resolver_follows document _ [] name site).bind fun _ => Follows.value _

/-- Requests one after the other are answered each by itself. -/
theorem run_answers (document : Json) (requests : List Request) (recorded : Diagnostics) :
    (answers document requests).run ⟨[], recorded⟩ =
      (requests.map fun request => (request.loaded document).result,
        ⟨[], recorded ++ requests.flatMap fun request => (request.loaded document).diagnostics⟩) := by
  induction requests generalizing recorded with
  | nil =>
    change (([] : List (Except SchemaError Answer)), (⟨[], recorded⟩ : Builder)) =
      ([], ⟨[], recorded ++ []⟩)
    rw [List.append_nil]
  | cons request rest ih =>
    have hfirst := answer_follows document request recorded
    have hrest := ih (recorded ++ (request.loaded document).diagnostics)
    rw [answers, StateT.run_bind, show StateT.run (answer document request).run _ = _ from hfirst]
    change ((answers document rest >>= _).run _) = _
    rw [StateT.run_bind, hrest, List.map_cons, List.flatMap_cons, ← List.append_assoc]
    rfl

/-- **A builder has no memory.** Each of several requests to one builder is answered as a new builder
would answer it, whatever the requests before it came to, and what has been recorded at the end is what
the new builders would have recorded, one after the other. -/
theorem answers_fresh (document : Json) (requests : List Request) :
    (answers document requests).run fresh =
      (requests.map fun request => ((answer document request).run fresh).1,
        ⟨[], requests.flatMap fun request => ((answer document request).run fresh).2.diagnostics⟩) := by
  have hfresh : ∀ request, (answer document request).run fresh =
      ((request.loaded document).result, ⟨[], (request.loaded document).diagnostics⟩) :=
    fun request => answer_follows document request []
  simp only [hfresh]
  exact run_answers document requests []

end Builder

end Schemata

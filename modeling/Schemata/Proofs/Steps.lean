import Mathlib.Control.Monad.Basic

/-!
# Steps with a state that can fail

Loading files and building nodes are steps that change a state and can fail; what they did to the
state before a failure stays.

Results:
* `run_bind`, `lift_ok_bind`: a step after another one, run.
* `run_forM_cons`: one step for each item of a list, run.
* `Keeps.forM`, `AgreeOn.forM`: what such steps keep, and where they do the same.
-/

namespace Schemata

/-- A step after another one: nothing happens after a failure. -/
theorem run_bind {σ ε α β : Type} (x : ExceptT ε (StateM σ) α) (f : α → ExceptT ε (StateM σ) β)
    (s : σ) : (x >>= f).run s = match x.run s with
      | (.ok a, next) => (f a).run next
      | (.error e, next) => (.error e, next) := by
  cases h : x.run s with | mk r next =>
  rw [ExceptT.run_bind]
  refine (StateT.run_bind x.run _ s).trans ?_
  rw [show StateT.run x.run s = (r, next) from h]
  cases r <;> rfl

theorem lift_ok_bind {σ ε α β : Type} (a : α) (f : α → ExceptT ε (StateM σ) β) :
    (liftM (Except.ok a : Except ε α) >>= f) = f a := rfl

theorem run_lift_error_bind {σ ε α β : Type} (e : ε) (f : α → ExceptT ε (StateM σ) β) (s : σ) :
    (liftM (Except.error e : Except ε α) >>= f).run s = (.error e, s) := rfl

/-- One step for each item of a list: those behind a failure are not made. -/
theorem run_forM_cons {σ ε γ : Type} (f : γ → ExceptT ε (StateM σ) Unit) (c : γ) (cs : List γ)
    (s : σ) : ((c :: cs).forM f).run s = match (f c).run s with
      | (.ok _, next) => (cs.forM f).run next
      | (.error e, next) => (.error e, next) := by
  change (f c >>= fun _ => cs.forM f).run s = _
  rw [run_bind]
  rcases (f c).run s with ⟨⟨e⟩ | ⟨a⟩, next⟩ <;> rfl

section
variable {σ ε γ : Type} {P : σ → Prop} {f g : γ → ExceptT ε (StateM σ) Unit}

/-- A step keeps a property of the state, whether it succeeds or fails. -/
def Keeps (P : σ → Prop) (x : ExceptT ε (StateM σ) Unit) : Prop := ∀ s, P s → P (x.run s).2

/-- Two steps do the same wherever a property of the state holds. -/
def AgreeOn (P : σ → Prop) (x y : ExceptT ε (StateM σ) Unit) : Prop :=
  ∀ s, P s → x.run s = y.run s

theorem Keeps.forM (h : ∀ c, Keeps P (f c)) (cs : List γ) : Keeps P (cs.forM f) := by
  induction cs with
  | nil => exact fun s hs => hs
  | cons c cs ih =>
    intro s hs
    have hfirst := h c s hs
    rw [run_forM_cons]
    cases hrun : (f c).run s with | mk r next =>
    rw [hrun] at hfirst
    cases r with
    | error e => exact hfirst
    | ok _ => exact ih next hfirst

/-- Steps that keep the property do the same one after the other if each of them does. -/
theorem AgreeOn.forM (hkeeps : ∀ c, Keeps P (f c)) (h : ∀ c, AgreeOn P (f c) (g c))
    (cs : List γ) : AgreeOn P (cs.forM f) (cs.forM g) := by
  induction cs with
  | nil => exact fun _ _ => rfl
  | cons c cs ih =>
    intro s hs
    have hnext := hkeeps c s hs
    rw [run_forM_cons, run_forM_cons, ← h c s hs]
    cases hrun : (f c).run s with | mk r next =>
    rw [hrun] at hnext
    cases r with
    | error e => rfl
    | ok _ => exact ih next hnext

end

end Schemata

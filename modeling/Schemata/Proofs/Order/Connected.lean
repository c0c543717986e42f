import Schemata.Proofs.Order.Components
import Schemata.Proofs.Unmet
import Mathlib.Data.List.Nodup
import Mathlib.Logic.Relation

/-!
# Components are the classes of mutual dependency

A walk that starts with some names met lists the names it comes to on paths between names that have
not been met. The list is closed (`Listed.closed`), and its order tells which names reach each other
(`Listed.late`): if `y` reaches `x`, then `x` or a name behind it in the list is in one class with
`y`. The second pass goes through the list of the first from its end, against the edges. All that it
collects from a name reaches that name, and what it has met is closed; so the name that `late` speaks
of can only be the name itself.

Results:
* `walk_visits`: what a walk lists.
* `collect_classes`, `components_classes`: components are disjoint, and each is the class of the names
  that reach one name and are reached by it.
-/

namespace Schemata

namespace TypeGraph

open Relation

/-! ## Paths between names that have not been met -/

/-- A step between two names that have not been met. -/
def Fresh (next : String → List String) (seen : List String) (a b : String) : Prop :=
  b ∈ next a ∧ a ∉ seen ∧ b ∉ seen

section
variable {next : String → List String} {seen more found front back : List String}
  {a b x y : String}

/-- A path that avoids more names avoids fewer. -/
theorem Fresh.mono (hsub : ∀ n ∈ seen, n ∈ more) (h : ReflTransGen (Fresh next more) a b) :
    ReflTransGen (Fresh next seen) a b :=
  ReflTransGen.mono
    (fun _ _ ⟨hstep, ha, hb⟩ => ⟨hstep, fun hs => ha (hsub _ hs), fun hs => hb (hsub _ hs)⟩) _ _ h

/-- A path from a name that has not been met leads to one. -/
theorem Fresh.not_seen (ha : a ∉ seen) (h : ReflTransGen (Fresh next seen) a b) : b ∉ seen := by
  cases h with
  | refl => exact ha
  | tail _ hstep => exact hstep.2.2

/-- A path avoids names that are on none of the paths between its ends. -/
theorem Fresh.avoid (h : ReflTransGen (Fresh next seen) y x)
    (hoff : ∀ n, ReflTransGen (Fresh next seen) y n → ReflTransGen (Fresh next seen) n x →
      n ∉ more) : ReflTransGen (Fresh next more) y x := by
  induction h with
  | refl => exact .refl
  | tail hbefore hstep ih =>
    refine (ih fun n hn hnb => hoff n hn (hnb.tail hstep)).tail ⟨hstep.1, ?_, ?_⟩
    · exact hoff _ hbefore (.single hstep)
    · exact hoff _ (hbefore.tail hstep) .refl

/-! ## What a walk lists -/

/-- Names that a walk lists when it starts with the names `seen` met. -/
structure Listed (next : String → List String) (seen found : List String) : Prop where
  /-- No name is listed that has been met. -/
  fresh : ∀ n ∈ found, n ∉ seen
  /-- No name is listed twice. -/
  nodup : found.Nodup
  /-- What can be reached in a step has been met or is listed. -/
  closed : ∀ n ∈ found, ∀ m ∈ next n, m ∈ seen ∨ m ∈ found
  /-- A name that reaches `x` is in one class with `x` or a name behind it. -/
  late : ∀ front x back, found = front ++ x :: back → ∀ y ∈ found,
    ReflTransGen (Fresh next seen) y x → ∃ z ∈ x :: back,
      ReflTransGen (Fresh next seen) y z ∧ ReflTransGen (Fresh next seen) z y

theorem Listed.nil (next : String → List String) (seen : List String) : Listed next seen [] where
  fresh := by simp
  nodup := List.nodup_nil
  closed := by simp
  late _ _ _ _ _ hy := absurd hy List.not_mem_nil

/-- A path from a listed name stays among the listed names. -/
theorem Listed.mem_of_path (h : Listed next seen found) (ha : a ∈ found)
    (hpath : ReflTransGen (Fresh next seen) a b) : b ∈ found := by
  induction hpath with
  | refl => exact ha
  | tail _ hstep ih => exact (h.closed _ ih _ hstep.1).resolve_left hstep.2.2

/-- Two lists one after the other. -/
theorem Listed.append (hfront : Listed next seen front)
    (hmore : ∀ n, n ∈ more ↔ n ∈ seen ∨ n ∈ front) (hback : Listed next more back) :
    Listed next seen (front ++ back) where
  fresh := List.forall_mem_append.mpr
    ⟨hfront.fresh, fun n hn hs => hback.fresh n hn ((hmore n).mpr (Or.inl hs))⟩
  nodup := by
    refine List.nodup_append'.mpr ⟨hfront.nodup, hback.nodup, fun n hn hb => ?_⟩
    exact hback.fresh n hb ((hmore n).mpr (Or.inr hn))
  closed n hn m hm := by
    rw [List.mem_append, ← or_assoc, ← hmore]
    rcases List.mem_append.mp hn with hn | hn
    · exact Or.inl ((hmore m).mpr (hfront.closed n hn m hm))
    · exact hback.closed n hn m hm
  late pre x post heq y hy hpath := by
    -- a path that ends in the second list never came to the first, which is closed
    have hsecond : ∀ mid, back = mid ++ x :: post → ∃ z ∈ x :: post,
        ReflTransGen (Fresh next seen) y z ∧ ReflTransGen (Fresh next seen) z y := by
      intro mid hmid
      have hx : x ∉ front := fun hin => hback.fresh x (hmid ▸ by simp) ((hmore x).mpr (Or.inr hin))
      have hyback : y ∈ back := (List.mem_append.mp hy).resolve_left fun hin =>
        hx (hfront.mem_of_path hin hpath)
      have hyseen : y ∉ seen := fun hs => hback.fresh y hyback ((hmore y).mpr (Or.inl hs))
      have hpath' : ReflTransGen (Fresh next more) y x := Fresh.avoid hpath fun n hyn hnx hin =>
        ((hmore n).mp hin).elim (Fresh.not_seen hyseen hyn) fun hf => hx (hfront.mem_of_path hf hnx)
      obtain ⟨z, hz, hyz, hzy⟩ := hback.late mid x post hmid y hyback hpath'
      have hsub : ∀ n ∈ seen, n ∈ more := fun n hn => (hmore n).mpr (Or.inl hn)
      exact ⟨z, hz, Fresh.mono hsub hyz, Fresh.mono hsub hzy⟩
    rcases List.append_eq_append_iff.mp heq with ⟨mid, -, hmid⟩ | ⟨mid, hpre, hmid⟩
    · exact hsecond mid hmid
    · cases mid with
      | nil => exact hsecond [] hmid.symm
      | cons c mid =>
        rw [List.cons_append, List.cons.injEq] at hmid
        obtain ⟨rfl, rfl⟩ := hmid
        rcases List.mem_append.mp hy with hy | hy
        · obtain ⟨z, hz, hyz, hzy⟩ := hfront.late pre x mid hpre y hy hpath
          refine ⟨z, ?_, hyz, hzy⟩
          rw [← List.cons_append]
          exact List.mem_append_left _ hz
        · -- `y` itself stands behind `x`
          exact ⟨y, List.mem_cons_of_mem _ (List.mem_append_right _ hy), .refl, .refl⟩

/-- A name behind everything that it leads to. -/
theorem Listed.snoc (ha : a ∉ seen) (h : Listed next (a :: seen) found)
    (hnext : ∀ m ∈ next a, m ∈ a :: seen ∨ m ∈ found)
    (hreached : ∀ n ∈ found, ReflTransGen (Fresh next seen) a n) :
    Listed next seen (found ++ [a]) where
  fresh := List.forall_mem_append.mpr
    ⟨fun n hn hs => h.fresh n hn (List.mem_cons_of_mem _ hs), by simpa using ha⟩
  nodup := by
    refine List.nodup_append'.mpr ⟨h.nodup, List.nodup_singleton a, ?_⟩
    rw [List.disjoint_singleton]
    exact fun hin => h.fresh a hin List.mem_cons_self
  closed n hn m hm := by
    have hcases : m ∈ a :: seen ∨ m ∈ found := by
      rcases List.mem_append.mp hn with hn | hn
      · exact h.closed n hn m hm
      · obtain rfl := List.mem_singleton.mp hn
        exact hnext m hm
    rw [List.mem_append, List.mem_singleton]
    rw [List.mem_cons, or_assoc] at hcases
    rcases hcases with heq | hs | hf
    · exact Or.inr (Or.inr heq)
    · exact Or.inl hs
    · exact Or.inr (Or.inl hf)
  late pre x post heq y hy hpath := by
    have hreach : ReflTransGen (Fresh next seen) a y := by
      rcases List.mem_append.mp hy with hy | hy
      · exact hreached y hy
      · obtain rfl := List.mem_singleton.mp hy
        exact .refl
    rcases List.eq_nil_or_concat post with rfl | ⟨mid, c, rfl⟩
    · obtain ⟨-, hlast⟩ := List.append_inj' heq rfl
      obtain rfl := List.singleton_inj.mp hlast
      exact ⟨a, List.mem_cons_self, hpath, hreach⟩
    · rw [List.concat_eq_append, ← List.cons_append, ← List.append_assoc] at heq
      obtain ⟨hfound, hlast⟩ := List.append_inj' heq rfl
      obtain rfl := List.singleton_inj.mp hlast
      by_cases hthrough : ReflTransGen (Fresh next seen) y a
      · exact ⟨a, by simp, hthrough, hreach⟩
      · -- no path from `y` comes to `a`, so this one belongs to the walk below `a`
        have hya : y ≠ a := fun h => hthrough (h ▸ .refl)
        have hyfound : y ∈ found := (List.mem_append.mp hy).resolve_right (by simpa using hya)
        have hyseen : y ∉ seen := fun hs => h.fresh y hyfound (List.mem_cons_of_mem _ hs)
        have hpath' : ReflTransGen (Fresh next (a :: seen)) y x :=
          Fresh.avoid hpath fun n hyn _ hin => (List.mem_cons.mp hin).elim
            (fun heq => hthrough (heq ▸ hyn)) (Fresh.not_seen hyseen hyn)
        obtain ⟨z, hz, hyz, hzy⟩ := h.late pre x mid hfound y hyfound hpath'
        have hsub : ∀ n ∈ seen, n ∈ a :: seen := fun n hn => List.mem_cons_of_mem _ hn
        refine ⟨z, ?_, Fresh.mono hsub hyz, Fresh.mono hsub hzy⟩
        rw [List.concat_eq_append, ← List.cons_append]
        exact List.mem_append_left _ hz

/-! ## What a walk does -/

/-- From `w` to `v` a walk has started from the names `starts` and has listed `found`. -/
structure Visits (next : String → List String) (starts : List String) (w v : Walk)
    (found : List String) : Prop where
  /-- What is listed has been finished since. -/
  finished : v.finished = w.finished ++ found
  /-- What is listed has been met since. -/
  seen : ∀ n, n ∈ v.seen ↔ n ∈ w.seen ∨ n ∈ found
  /-- Every start has been met. -/
  met : ∀ n ∈ starts, n ∈ v.seen
  /-- What is listed can be reached from a start. -/
  reached : ∀ n ∈ found, ∃ s ∈ starts, ReflTransGen (Fresh next w.seen) s n
  /-- The list is one of a walk. -/
  listed : Listed next w.seen found

theorem Visits.nil (next : String → List String) (w : Walk) : Visits next [] w w [] where
  finished := (List.append_nil _).symm
  seen := by simp
  met := by simp
  reached := by simp
  listed := Listed.nil next w.seen

/-- A start that has been met adds nothing. -/
theorem Visits.skip {w : Walk} (h : a ∈ w.seen) : Visits next [a] w w [] where
  finished := (List.append_nil _).symm
  seen := by simp
  met := by simpa using h
  reached := by simp
  listed := Listed.nil next w.seen

theorem Visits.append {u v w : Walk} {as bs : List String} (huv : Visits next as u v front)
    (hvw : Visits next bs v w back) : Visits next (as ++ bs) u w (front ++ back) where
  finished := by rw [hvw.finished, huv.finished, List.append_assoc]
  seen n := by rw [hvw.seen, huv.seen, List.mem_append, or_assoc]
  met := List.forall_mem_append.mpr
    ⟨fun n hn => (hvw.seen n).mpr (Or.inl (huv.met n hn)), hvw.met⟩
  reached n hn := by
    rcases List.mem_append.mp hn with hn | hn
    · obtain ⟨s, hs, hpath⟩ := huv.reached n hn
      exact ⟨s, List.mem_append_left _ hs, hpath⟩
    · obtain ⟨s, hs, hpath⟩ := hvw.reached n hn
      exact ⟨s, List.mem_append_right _ hs,
        Fresh.mono (fun m hm => (huv.seen m).mpr (Or.inl hm)) hpath⟩
  listed := huv.listed.append huv.seen hvw.listed

/-- A start that has not been met, visited behind all its neighbours. -/
theorem Visits.visit {w v : Walk} (ha : a ∉ w.seen) {starts : List String}
    (hstarts : ∀ n, n ∈ starts ↔ n ∈ next a)
    (h : Visits next starts ⟨a :: w.seen, w.finished⟩ v found) :
    Visits next [a] w ⟨v.seen, v.finished ++ [a]⟩ (found ++ [a]) := by
  have hfirst : ∀ n ∈ next a, n ∉ a :: w.seen → Fresh next w.seen a n := fun n hn hnot =>
    ⟨hn, ha, fun hs => hnot (List.mem_cons_of_mem _ hs)⟩
  have hreached : ∀ n ∈ found, ReflTransGen (Fresh next w.seen) a n := by
    intro n hn
    obtain ⟨s, hs, hpath⟩ := h.reached n hn
    have hsnot : s ∉ a :: w.seen := by
      cases hpath using ReflTransGen.head_induction_on with
      | refl => exact h.listed.fresh _ hn
      | head hstep _ => exact hstep.2.1
    exact .head (hfirst s ((hstarts s).mp hs) hsnot)
      (Fresh.mono (fun m hm => List.mem_cons_of_mem _ hm) hpath)
  refine ⟨?_, fun n => ?_, ?_, fun n hn => ⟨a, List.mem_singleton.mpr rfl, ?_⟩, ?_⟩
  · rw [h.finished, List.append_assoc]
  · rw [h.seen, List.mem_cons, List.mem_append, List.mem_singleton]
    tauto
  · simpa using (h.seen a).mpr (Or.inl List.mem_cons_self)
  · rcases List.mem_append.mp hn with hn | hn
    · exact hreached n hn
    · obtain rfl := List.mem_singleton.mp hn
      exact .refl
  · exact h.listed.snoc ha
      (fun m hm => (h.seen m).mp (h.met m ((hstarts m).mpr hm))) hreached

/-! ## Enough depth -/

variable {names : List String}

/-- Walks from one name after the other, each deep enough. -/
theorem foldl_visits {f : Walk → String → Walk} {fuel : Nat}
    (hf : ∀ w, ∀ n ∈ names, (unmet names w.seen).length < fuel →
      ∃ found, Visits next [n] w (f w n) found) :
    ∀ (starts : List String) (w : Walk), (∀ n ∈ starts, n ∈ names) →
      (unmet names w.seen).length < fuel → ∃ found, Visits next starts w (starts.foldl f w) found
  | [], w, _, _ => ⟨[], Visits.nil next w⟩
  | n :: rest, w, hstarts, hfuel => by
    obtain ⟨front, hfront⟩ := hf w n (hstarts n List.mem_cons_self) hfuel
    have hless : (unmet names (f w n).seen).length ≤ (unmet names w.seen).length :=
      length_unmet_le fun m hm => (hfront.seen m).mpr (Or.inl hm)
    obtain ⟨back, hback⟩ := foldl_visits hf rest (f w n)
      (fun m hm => hstarts m (List.mem_cons_of_mem _ hm)) (Nat.lt_of_le_of_lt hless hfuel)
    exact ⟨front ++ back, hfront.append hback⟩

/-- **What a walk lists**, if its depth exceeds the number of names that it may meet. -/
theorem walk_visits (hnext : ∀ n ∈ names, ∀ m ∈ next n, m ∈ names) :
    ∀ (fuel : Nat) (w : Walk), ∀ n ∈ names, (unmet names w.seen).length < fuel →
      ∃ found, Visits next [n] w (walk next fuel w n) found
  | 0, _, _, _, hfuel => absurd hfuel (Nat.not_lt_zero _)
  | fuel + 1, w, n, hn, hfuel => by
    rw [walk]
    split
    · rename_i hmet
      exact ⟨[], Visits.skip (List.contains_iff_mem.mp hmet)⟩
    · rename_i hmet
      have hnot : n ∉ w.seen := fun h => hmet (List.contains_iff_mem.mpr h)
      have hless := length_unmet_cons_lt hn hnot
      obtain ⟨found, hfound⟩ := foldl_visits (walk_visits hnext fuel) (next n).reverse
        ⟨n :: w.seen, w.finished⟩ (fun m hm => hnext n hn m (List.mem_reverse.mp hm))
        (Nat.lt_of_lt_of_le hless (Nat.lt_succ_iff.mp hfuel))
      exact ⟨found ++ [n], hfound.visit hnot fun m => List.mem_reverse⟩

end

/-! ## The relation of a graph -/

/-- One name depends on another. -/
def Depends (g : TypeGraph) (a b : String) : Prop := (b, a) ∈ g.edges

/-- Two names depend on each other, directly or not, or are the same. -/
def Mutual (g : TypeGraph) (a b : String) : Prop :=
  ReflTransGen g.Depends a b ∧ ReflTransGen g.Depends b a

/-- Every edge joins names of the graph. -/
def WellFormed (g : TypeGraph) : Prop := ∀ e ∈ g.edges, e.1 ∈ g.names ∧ e.2 ∈ g.names

variable {g : TypeGraph} {a b n m : String}

theorem mem_dependencies : b ∈ g.dependencies a ↔ g.Depends a b := by
  simp [dependencies, Depends]

theorem mem_dependents : a ∈ g.dependents b ↔ g.Depends a b := by
  simp [dependents, Depends]

theorem wellFormed_ofTypes (types : List Node) : (ofTypes types).WellFormed := by
  rintro ⟨a, b⟩ he
  obtain ⟨t, ht, rfl, d, hd, rfl, hin⟩ := mem_edges_ofTypes.mp he
  exact ⟨mem_names_ofTypes.mpr hin, mem_names_ofTypes.mpr (List.mem_map_of_mem ht)⟩

/-- Paths of a walk along the dependencies are paths of the relation. -/
theorem path_dependencies {seen : List String} (h : ReflTransGen (Fresh g.dependencies seen) a b) :
    ReflTransGen g.Depends a b :=
  ReflTransGen.mono (fun _ _ hstep => mem_dependencies.mp hstep.1) _ _ h

/-- Paths of a walk along the dependents lead back along the relation. -/
theorem path_dependents {seen : List String} (h : ReflTransGen (Fresh g.dependents seen) a b) :
    ReflTransGen g.Depends b a := by
  induction h with
  | refl => exact .refl
  | tail _ hstep ih => exact .head (mem_dependents.mp hstep.1) ih

/-! ## The first pass -/

/-- The first pass visits every name. -/
theorem finishOrder_visits (hg : g.WellFormed) :
    ∃ v, Visits g.dependencies g.names ⟨[], []⟩ v g.finishOrder := by
  have hnext : ∀ n ∈ g.names, ∀ m ∈ g.dependencies n, m ∈ g.names :=
    fun n _ m hm => (hg _ (mem_dependencies.mp hm)).1
  obtain ⟨found, hfound⟩ := foldl_visits (walk_visits hnext (g.names.length + 1)) g.names ⟨[], []⟩
    (fun _ h => h) (Nat.lt_succ_of_le (List.length_filter_le _ _))
  have hlist : g.finishOrder = found := hfound.finished
  exact ⟨_, hlist ▸ hfound⟩

/-- The first pass finishes nothing but names of the graph. -/
theorem names_of_mem_finishOrder (hg : g.WellFormed) (h : n ∈ g.finishOrder) : n ∈ g.names := by
  obtain ⟨v, hv⟩ := finishOrder_visits hg
  obtain ⟨s, hs, hpath⟩ := hv.reached n h
  cases path_dependencies hpath with
  | refl => exact hs
  | tail _ hstep => exact (hg _ hstep).1

/-- A name that depends on another, directly or not, is in one class with the other or with a name
that the first pass finishes after it. -/
theorem exists_later (hg : g.WellFormed) {front back : List String} {x y : String}
    (h : g.finishOrder = front ++ x :: back) (hy : y ∈ g.names)
    (hpath : ReflTransGen g.Depends y x) : ∃ z ∈ x :: back, g.Mutual y z := by
  have hfresh : ReflTransGen (Fresh g.dependencies []) y x :=
    ReflTransGen.mono (fun _ _ hstep => ⟨mem_dependencies.mpr hstep, by simp, by simp⟩) _ _ hpath
  obtain ⟨v, hv⟩ := finishOrder_visits hg
  obtain ⟨z, hz, hyz, hzy⟩ := hv.listed.late front x back h y (mem_finishOrder hy) hfresh
  exact ⟨z, hz, path_dependencies hyz, path_dependencies hzy⟩

/-! ## The second pass -/

/-- Whatever depends on a name that has been met has been met. -/
def Closed (g : TypeGraph) (seen : List String) : Prop :=
  ∀ n ∈ seen, ∀ m, g.Depends m n → m ∈ seen

theorem Closed.path {seen : List String} (h : g.Closed seen) (hb : b ∈ seen)
    (hpath : ReflTransGen g.Depends a b) : a ∈ seen := by
  induction hpath using ReflTransGen.head_induction_on with
  | refl => exact hb
  | head hstep _ ih => exact h _ ih _ hstep

/-- What is collected from a name: all that depends on it, except what had been met. -/
theorem collected_iff {seen found : List String} {v : Walk} (hseen : g.Closed seen)
    (h : Visits g.dependents [a] ⟨seen, []⟩ v found) :
    g.Closed v.seen ∧ ∀ n, n ∈ found ↔ n ∉ seen ∧ ReflTransGen g.Depends n a := by
  have hclosed : g.Closed v.seen := by
    intro n hn m hm
    rw [h.seen] at hn ⊢
    rcases hn with hn | hn
    · exact Or.inl (hseen n hn m hm)
    · exact h.listed.closed n hn m (mem_dependents.mpr hm)
  refine ⟨hclosed, fun n => ⟨fun hn => ⟨h.listed.fresh n hn, ?_⟩, fun ⟨hnot, hpath⟩ => ?_⟩⟩
  · obtain ⟨s, hs, hpath⟩ := h.reached n hn
    obtain rfl := List.mem_singleton.mp hs
    exact path_dependents hpath
  · have hin := hclosed.path (h.met a List.mem_cons_self) hpath
    exact ((h.seen n).mp hin).resolve_left hnot

/-- **What the second pass collects** from the rest of the order, when all that stands behind the rest
in the order of the first pass has been met. -/
theorem collect_classes (hg : g.WellFormed) : ∀ (rest done seen : List String),
    g.finishOrder = rest.reverse ++ done → g.Closed seen → (∀ n ∈ done, n ∈ seen) →
      (g.collect seen rest).Pairwise List.Disjoint ∧ ∀ c ∈ g.collect seen rest,
        c.Nodup ∧ (∀ n ∈ c, n ∉ seen) ∧ ∃ n ∈ g.names, ∀ m, m ∈ c ↔ g.Mutual n m
  | [], _, _, _, _, _ => ⟨List.Pairwise.nil, by simp [collect]⟩
  | a :: rest, done, seen, horder, hseen, hdone => by
    rw [List.reverse_cons, List.append_assoc, List.singleton_append] at horder
    rw [collect]
    split
    · rename_i hmet
      exact collect_classes hg rest (a :: done) seen horder hseen
        (List.forall_mem_cons.mpr ⟨List.contains_iff_mem.mp hmet, hdone⟩)
    · rename_i hmet
      have ha : a ∉ seen := fun h => hmet (List.contains_iff_mem.mpr h)
      have haname : a ∈ g.names := names_of_mem_finishOrder hg (by simp [horder])
      have hnext : ∀ n ∈ g.names, ∀ m ∈ g.dependents n, m ∈ g.names :=
        fun n _ m hm => (hg _ (mem_dependents.mp hm)).2
      obtain ⟨found, hfound⟩ := walk_visits hnext (g.names.length + 1) ⟨seen, []⟩ a haname
        (Nat.lt_succ_of_le (List.length_filter_le _ _))
      have hlist : (walk g.dependents (g.names.length + 1) ⟨seen, []⟩ a).finished = found :=
        hfound.finished
      obtain ⟨hclosed, hmem⟩ := collected_iff hseen hfound
      obtain ⟨hdisjoint, hclasses⟩ := collect_classes hg rest (a :: done) _ horder hclosed
        (List.forall_mem_cons.mpr ⟨hfound.met a List.mem_cons_self,
          fun n hn => (hfound.seen n).mpr (Or.inl (hdone n hn))⟩)
      have hclass : ∀ m, m ∈ found ↔ g.Mutual a m := by
        intro m
        rw [hmem]
        constructor
        · rintro ⟨hnot, hpath⟩
          -- the later name of the class of `m` has not been met, so it is `a`
          have hm : m ∈ g.names := by
            cases hpath using ReflTransGen.head_induction_on with
            | refl => exact haname
            | head hstep _ => exact (hg _ hstep).2
          obtain ⟨z, hz, hmz, hzm⟩ := exists_later hg horder hm hpath
          rcases List.mem_cons.mp hz with rfl | hz
          · exact ⟨hzm, hmz⟩
          · exact absurd (hseen.path (hdone z hz) hmz) hnot
        · rintro ⟨ham, hma⟩
          exact ⟨fun hm => ha (hseen.path hm ham), hma⟩
      simp only [hlist]
      refine ⟨List.pairwise_cons.mpr ⟨fun c hc n hn hnc => ?_, hdisjoint⟩,
        List.forall_mem_cons.mpr ⟨⟨hfound.listed.nodup, hfound.listed.fresh, a, haname, hclass⟩,
          fun c hc => ?_⟩⟩
      · exact (hclasses c hc).2.1 n hnc ((hfound.seen n).mpr (Or.inr hn))
      · obtain ⟨hnodup, hfresh, hroot⟩ := hclasses c hc
        exact ⟨hnodup, fun n hn hs => hfresh n hn ((hfound.seen n).mpr (Or.inl hs)), hroot⟩

/-- **Components are disjoint, and each is the class of names that depend on one name and on which it
depends.** -/
theorem components_classes (hg : g.WellFormed) : g.components.Pairwise List.Disjoint ∧
    ∀ c ∈ g.components, c.Nodup ∧ ∃ n ∈ g.names, ∀ m, m ∈ c ↔ g.Mutual n m := by
  obtain ⟨hdisjoint, hclasses⟩ := collect_classes hg g.finishOrder.reverse [] []
    (by simp) (fun _ h => absurd h List.not_mem_nil) (by simp)
  refine ⟨hdisjoint, fun c hc => ?_⟩
  obtain ⟨hnodup, -, hroot⟩ := hclasses c hc
  exact ⟨hnodup, hroot⟩

end TypeGraph

end Schemata

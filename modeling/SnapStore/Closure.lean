import Mathlib.Data.Set.Basic

/-!
# Chains and their closure

Items of type `ι` name resources of type `κ` and at most one parent item.  The closure of an item
is complete when every item on its chain, down to one without a parent, is stored and every
resource they name is present.
-/

namespace Closure

variable {ι κ : Type*}

/-- `At i ks p`: item `i` names the resources `ks` and the parent `p`. -/
abbrev Naming (ι κ : Type*) := ι → List κ → Option ι → Prop

variable (At : Naming ι κ)

inductive Grounded : ι → Prop where
  | full {i : ι} {ks : List κ} (h : At i ks none) : Grounded i
  | delta {i p : ι} {ks : List κ} (h : At i ks (some p)) (hp : Grounded p) : Grounded i

inductive Complete (stored : ι → Prop) (present : κ → Prop) : ι → Prop where
  | full {i : ι} {ks : List κ} (h : At i ks none) (hi : stored i) (hk : ∀ k ∈ ks, present k) :
      Complete stored present i
  | delta {i p : ι} {ks : List κ} (h : At i ks (some p)) (hi : stored i)
      (hk : ∀ k ∈ ks, present k) (hp : Complete stored present p) : Complete stored present i

def Local (stored : ι → Prop) (present : κ → Prop) (i : ι) : Prop :=
  ∀ ks p, At i ks p → (∀ k ∈ ks, present k) ∧ ∀ q, p = some q → stored q

def Functional : Prop := ∀ i ks p ks' p', At i ks p → At i ks' p' → ks = ks' ∧ p = p'

/-- A set of items that contains the parents of its members, and a set of resources that contains
what they name. -/
structure ClosedUnder (items : ι → Prop) (resources : κ → Prop) : Prop where
  named : ∀ i ks p, items i → At i ks p → ∀ k ∈ ks, resources k
  parent : ∀ i ks p, items i → At i ks (some p) → items p

/-- As `ClosedUnder`, but for the items of `pending`, which members may have as parents. -/
structure ClosedUpTo (pending items : ι → Prop) (resources : κ → Prop) : Prop where
  named : ∀ i ks p, items i → At i ks p → ∀ k ∈ ks, resources k
  parent : ∀ i ks p, items i → At i ks (some p) → items p ∨ pending p

variable {At} {stored stored' : ι → Prop} {present present' : κ → Prop} {i : ι}

theorem Complete.root_stored (h : Complete At stored present i) : stored i := by
  cases h <;> assumption

theorem Complete.named (hf : Functional At) (h : Complete At stored present i) {ks : List κ}
    {p : Option ι} (ha : At i ks p) : ∀ k ∈ ks, present k := by
  cases h with
  | full h _ hk => exact (hf _ _ _ _ _ h ha).1 ▸ hk
  | delta h _ hk _ => exact (hf _ _ _ _ _ h ha).1 ▸ hk

theorem Complete.parent (hf : Functional At) (h : Complete At stored present i) {ks : List κ}
    {p : ι} (ha : At i ks (some p)) : Complete At stored present p := by
  cases h with
  | full h _ _ => exact absurd (hf _ _ _ _ _ h ha).2 (by simp)
  | delta h _ _ hp => exact Option.some.inj (hf _ _ _ _ _ h ha).2 ▸ hp

theorem Complete.local (hf : Functional At) (h : Complete At stored present i) :
    Local At stored present i := by
  intro ks p ha
  refine ⟨h.named hf ha, ?_⟩
  rintro q rfl
  exact (h.parent hf ha).root_stored

theorem Complete.mono (hs : ∀ i, stored i → stored' i) (hk : ∀ k, present k → present' k)
    (h : Complete At stored present i) : Complete At stored' present' i := by
  induction h with
  | full h hi hks => exact .full h (hs _ hi) fun k hm => hk k (hks k hm)
  | delta h hi hks _ ih => exact .delta h (hs _ hi) (fun k hm => hk k (hks k hm)) ih

theorem Complete.of_closedUnder {items : ι → Prop} {resources : κ → Prop}
    (hc : ClosedUnder At items resources) (hs : ∀ i, items i → stored i → stored' i)
    (hk : ∀ k, resources k → present k → present' k) (h : Complete At stored present i)
    (hi : items i) : Complete At stored' present' i := by
  induction h with
  | full h hst hks =>
    exact .full h (hs _ hi hst) fun k hm => hk k (hc.named _ _ _ hi h k hm) (hks k hm)
  | delta h hst hks _ ih =>
    exact .delta h (hs _ hi hst) (fun k hm => hk k (hc.named _ _ _ hi h k hm) (hks k hm))
      (ih (hc.parent _ _ _ hi h))

section ClosedUpTo

variable {pending items items' : ι → Prop} {resources resources' : κ → Prop}

theorem ClosedUnder.upTo (h : ClosedUnder At items resources) :
    ClosedUpTo At pending items resources :=
  ⟨h.named, fun i ks p hi ha => .inl (h.parent i ks p hi ha)⟩

theorem ClosedUpTo.closed (h : ClosedUpTo At pending items resources)
    (hp : ∀ p, pending p → items p) : ClosedUnder At items resources :=
  ⟨h.named, fun i ks p hi ha => (h.parent i ks p hi ha).elim id (hp p)⟩

theorem ClosedUpTo.insert (hf : Functional At) (h : ClosedUpTo At pending items resources)
    (hp : ∀ p, pending p → p = i) {ks : List κ} {q : Option ι} (ha : At i ks q)
    (hitems : ∀ j, items' j ↔ j = i ∨ items j)
    (hres : ∀ k, resources' k ↔ k ∈ ks ∨ resources k) :
    ClosedUpTo At (fun p => q = some p) items' resources' where
  named j ks' p hj hat k hk := by
    rcases (hitems j).mp hj with rfl | hj
    · exact (hres k).mpr (.inl ((hf _ _ _ _ _ ha hat).1 ▸ hk))
    · exact (hres k).mpr (.inr (h.named j ks' p hj hat k hk))
  parent j ks' p hj hat := by
    rcases (hitems j).mp hj with rfl | hj
    · exact .inr (hf _ _ _ _ _ ha hat).2
    · rcases h.parent j ks' p hj hat with hp' | hp'
      · exact .inl ((hitems p).mpr (.inr hp'))
      · exact .inl ((hitems p).mpr (.inl (hp p hp')))

end ClosedUpTo

theorem Grounded.complete (hl : ∀ i, stored i → Local At stored present i)
    (h : Grounded At i) (hi : stored i) : Complete At stored present i := by
  induction h with
  | full h => exact .full h hi (hl _ hi _ _ h).1
  | delta h _ ih =>
    obtain ⟨hks, hp⟩ := hl _ hi _ _ h
    exact .delta h hi hks (ih (hp _ rfl))

end Closure

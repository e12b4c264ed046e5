import Mathlib.Logic.Relation
import Mathlib.Data.List.Basic

/-!
# Forests given by parent links

A forest is a list of links from a child to its parent, the newest first.  It was grown leaf by leaf
if the child of a link is not mentioned in any older link.  Then the levels below a node, one after
the other, end after at most as many levels as there are links.
-/

namespace Forest

open Relation

variable {α : Type} {links : List (α × α)}

def Child (links : List (α × α)) (p c : α) : Prop := (c, p) ∈ links

abbrev Descends (links : List (α × α)) : α → α → Prop := ReflTransGen (Child links)

/-- The child of a link is its own parent nowhere, and no older link mentions it as a parent. -/
structure Grown (links : List (α × α)) : Prop where
  older : links.Pairwise fun e e' => e.1 ≠ e'.2
  irrefl : ∀ e ∈ links, e.1 ≠ e.2

theorem Grown.tail {e : α × α} (h : Grown (e :: links)) : Grown links :=
  ⟨h.older.of_cons, fun e' he' => h.irrefl e' (List.mem_cons_of_mem _ he')⟩

inductive Path (links : List (α × α)) (r : α) : Nat → α → Prop where
  | nil : Path links r 0 r
  | snoc {j : Nat} {p c : α} (h : Path links r j p) (hc : (c, p) ∈ links) : Path links r (j + 1) c

theorem descends_iff_path {r x : α} : Descends links r x ↔ ∃ j, Path links r j x := by
  constructor
  · intro h
    induction h with
    | refl => exact ⟨0, .nil⟩
    | tail _ hc ih =>
      obtain ⟨j, hj⟩ := ih
      exact ⟨j + 1, hj.snoc hc⟩
  · rintro ⟨j, hj⟩
    induction hj with
    | nil => exact .refl
    | snoc _ hc ih => exact ih.tail hc

theorem Path.cases_cons {e : α × α} (hg : Grown (e :: links)) {r x : α} {j : Nat}
    (h : Path (e :: links) r j x) :
    Path links r j x ∨ ∃ i, j = i + 1 ∧ x = e.1 ∧ Path links r i e.2 := by
  induction h with
  | nil => exact .inl .nil
  | @snoc j p c _ hc ih =>
    have hp : Path links r j p := by
      rcases ih with hp | ⟨i, -, rfl, -⟩
      · exact hp
      · rcases List.mem_cons.mp hc with he | hc
        · exact absurd (congrArg Prod.snd he) (hg.irrefl _ List.mem_cons_self)
        · exact absurd rfl (List.rel_of_pairwise_cons hg.older hc)
    rcases List.mem_cons.mp hc with rfl | hc
    · exact .inr ⟨j, rfl, rfl, hp⟩
    · exact .inl (hp.snoc hc)

theorem Path.length_le (hg : Grown links) {r x : α} {j : Nat} (h : Path links r j x) :
    j ≤ links.length := by
  induction links generalizing j x with
  | nil =>
    cases h with
    | nil => exact Nat.le_refl _
    | snoc _ hc => cases hc
  | cons e links ih =>
    rw [List.length_cons]
    rcases h.cases_cons hg with h | ⟨i, rfl, -, h⟩
    · exact Nat.le_succ_of_le (ih hg.tail h)
    · exact Nat.succ_le_succ (ih hg.tail h)

theorem Path.cons {r c x : α} {j : Nat} (hc : (c, r) ∈ links) (h : Path links c j x) :
    Path links r (j + 1) x := by
  induction h with
  | nil => exact Path.nil.snoc hc
  | snoc _ hd ih => exact ih.snoc hd

theorem Path.first {r x : α} {j : Nat} (h : Path links r (j + 1) x) :
    ∃ c, (c, r) ∈ links ∧ Path links c j x := by
  induction j generalizing x with
  | zero =>
    cases h with
    | snoc h hc =>
      cases h
      exact ⟨x, hc, .nil⟩
  | succ j ih =>
    cases h with
    | snoc h hd =>
      obtain ⟨c, hc, hcx⟩ := ih h
      exact ⟨c, hc, hcx.snoc hd⟩

/-! ## Levels -/

variable [DecidableEq α]

def children (links : List (α × α)) (level : List α) : List α :=
  (links.filter fun e => e.2 ∈ level).map (·.1)

def levels (links : List (α × α)) : Nat → List α → List α
  | 0, level => level
  | k + 1, level => level ++ levels links k (children links level)

theorem mem_children {level : List α} {c : α} :
    c ∈ children links level ↔ ∃ p ∈ level, (c, p) ∈ links := by
  simp only [children, List.mem_map, List.mem_filter, decide_eq_true_eq, Prod.exists]
  constructor
  · rintro ⟨c, p, ⟨hl, hp⟩, rfl⟩
    exact ⟨p, hp, hl⟩
  · rintro ⟨p, hp, hl⟩
    exact ⟨c, p, ⟨hl, hp⟩, rfl⟩

theorem mem_levels {k : Nat} {level : List α} {x : α} :
    x ∈ levels links k level ↔ ∃ r ∈ level, ∃ j ≤ k, Path links r j x := by
  induction k generalizing level with
  | zero =>
    constructor
    · exact fun hx => ⟨x, hx, 0, Nat.le_refl _, .nil⟩
    · rintro ⟨r, hr, j, hj, h⟩
      obtain rfl : j = 0 := Nat.le_zero.mp hj
      cases h
      exact hr
  | succ k ih =>
    rw [levels, List.mem_append, ih]
    constructor
    · rintro (hx | ⟨c, hc, j, hj, h⟩)
      · exact ⟨x, hx, 0, Nat.zero_le _, .nil⟩
      · obtain ⟨r, hr, hl⟩ := mem_children.mp hc
        exact ⟨r, hr, j + 1, Nat.succ_le_succ hj, h.cons hl⟩
    · rintro ⟨r, hr, j, hj, h⟩
      cases j with
      | zero =>
        cases h
        exact .inl hr
      | succ j =>
        obtain ⟨c, hc, hcx⟩ := h.first
        exact .inr ⟨c, mem_children.mpr ⟨r, hr, hc⟩, j, Nat.le_of_succ_le_succ hj, hcx⟩

theorem mem_levels_iff_descends (hg : Grown links) {k : Nat} (hk : links.length ≤ k) {r x : α} :
    x ∈ levels links k [r] ↔ Descends links r x := by
  rw [mem_levels, descends_iff_path]
  constructor
  · rintro ⟨r', hr', j, -, hj⟩
    rw [List.mem_singleton] at hr'
    exact ⟨j, hr' ▸ hj⟩
  · rintro ⟨j, hj⟩
    exact ⟨r, List.mem_singleton_self r, j, Nat.le_trans (hj.length_le hg) hk, hj⟩

end Forest

import SnapStore.Conc.Sequential
import SnapStore.Gc.Protocol
import SnapStore.Pagestore.Batch

/-!
# The loops of ingest

Ingest probes the index for each page of the batch, writes the misses under the lock of the active
pack, and looks up the location of every repeated page at the end.
-/

namespace SnapStore

open Disk Conc

def Repeated [Primitives] (pages : List Page) (h : PageHash) : Prop :=
  2 ≤ (pages.map fun p => blake3 p.bytes).count h

namespace PageStore

variable [Primitives]

structure IngestRules (ρ : Rules Oracle World) (bad bad' : PageStoreError → World → Prop)
    (opts : StoreOptions) (t : Tid) (pages : List Page) (A L : List PageHash → World → Prop)
    (N R : List PageHash → PageHash → World → Prop) : Prop where
  stable : ∀ K, Stable ρ (A K)
  stable_locked : ∀ K, Stable ρ (L K)
  stable_miss : ∀ K h, Stable ρ (N K h)
  guar_refl : ∀ s, ρ.guar s s
  hit : ∀ K h s, ρ.inv s → A K s → Indexed s h → A (h :: K) s
  hit_locked : ∀ K h s, ρ.inv s → L K s → Indexed s h → L (h :: K) s
  miss : ∀ K h s, ρ.inv s → L K s → s.index.get h = none → N K h s
  room : ∀ K h s, ρ.inv s → N K h s → s.active.writer.wouldExceedCap = false → R K h s
  rotate : ∀ K h s, N K h s → wpOr ρ bad' (rotateLocked opts) (fun _ u => R K h u) s
  write : ∀ K h page s, R K h s → blake3 page.bytes = h →
    wpOr ρ bad' (writePage h page) (fun _ u => L (h :: K) u) s
  lock : ∀ (body : PE (List (Option IngestOutcome)))
    (I : List (Option IngestOutcome) → List PageHash → Prop) (K : List PageHash) (s : World),
    A K s → (∀ u, L K u → wpOr ρ bad' body (fun out v => ∃ K', I out K' ∧ L K' v) u) →
    wpOr ρ bad (withActive t body) (fun out v => ∃ K', I out K' ∧ A K' v) s
  found : ∀ K h s, ρ.inv s → A K s → h ∈ K → Repeated pages h → Indexed s h

section Outcomes

variable {outcomes : List (Option IngestOutcome)} {e : PageHash × Nat} {n : Nat}
  {order todo : List (PageHash × Nat)} {K : List PageHash}

structure Filled (n : Nat) (done : List (PageHash × Nat))
    (outcomes : List (Option IngestOutcome)) : Prop where
  length : outcomes.length = n
  outcome : ∀ e ∈ done, ∃ oc, outcomes[e.2]? = some (some oc)

omit [Primitives] in
theorem Filled.record {done : List (PageHash × Nat)} (h : Filled n done outcomes) (he : e.2 < n)
    (oc : IngestOutcome) : Filled n (e :: done) (outcomes.set e.2 (some oc)) := by
  have hlen : e.2 < outcomes.length := h.length ▸ he
  refine ⟨by rw [List.length_set, h.length], fun e' he' => ?_⟩
  by_cases heq : e'.2 = e.2
  · exact ⟨oc, by rw [heq, List.getElem?_set_self hlen]⟩
  · rcases List.mem_cons.mp he' with rfl | he'
    · exact absurd rfl heq
    · rw [List.getElem?_set_ne (Ne.symm heq)]
      exact h.outcome e' he'

def Awaiting (n : Nat) (order todo : List (PageHash × Nat))
    (outcomes : List (Option IngestOutcome)) (K : List PageHash) : Prop :=
  ∃ done, K = done.map (·.1) ∧ Filled n done outcomes ∧ ∀ e ∈ order, e ∈ done ∨ e ∈ todo

omit [Primitives] in
theorem Awaiting.start (n : Nat) (order : List (PageHash × Nat)) :
    Awaiting n order order (List.replicate n none) [] :=
  ⟨[], rfl, ⟨List.length_replicate, by simp⟩, fun _ => .inr⟩

omit [Primitives] in
theorem Awaiting.record {todo' : List (PageHash × Nat)} (h : Awaiting n order todo outcomes K)
    (he : e.2 < n) (htodo : ∀ e' ∈ todo, e' = e ∨ e' ∈ todo') (oc : IngestOutcome) :
    Awaiting n order todo' (outcomes.set e.2 (some oc)) (e.1 :: K) := by
  obtain ⟨done, hK, hfilled, hall⟩ := h
  refine ⟨e :: done, by rw [hK, List.map_cons], hfilled.record he oc, fun e' he' => ?_⟩
  rcases hall e' he' with hdone | hrest
  · exact .inl (List.mem_cons_of_mem _ hdone)
  · rcases htodo e' hrest with rfl | htodo'
    · exact .inl List.mem_cons_self
    · exact .inr htodo'

omit [Primitives] in
theorem Awaiting.done (h : Awaiting n order [] outcomes K) :
    Filled n order outcomes ∧ ∀ e ∈ order, e.1 ∈ K := by
  obtain ⟨done, rfl, hfilled, hall⟩ := h
  have hdone : ∀ e ∈ order, e ∈ done := fun e he => (hall e he).resolve_right List.not_mem_nil
  exact ⟨⟨hfilled.length, fun e he => hfilled.outcome e (hdone e he)⟩,
    fun e he => List.mem_map_of_mem (hdone e he)⟩

theorem Filled.repeated {pages : List Page}
    (horder : ∀ e, e ∈ order ↔ e ∈ batchDedup (pages.map fun p => blake3 p.bytes))
    (h : Filled pages.length order outcomes) {k : PageHash} {i : Nat}
    (hi : (pages.map fun p => blake3 p.bytes)[i]? = some k) (hnone : outcomes[i]? = some none) :
    Repeated pages k ∧ ∃ j, (k, j) ∈ order := by
  obtain ⟨j, hj⟩ := exists_mem_batchDedup hi
  have hmem := (horder _).mpr hj
  obtain ⟨oc, hoc⟩ := h.outcome _ hmem
  refine ⟨two_le_count ?_ hi (getElem?_of_mem_batchDedup hj), j, hmem⟩
  intro heq
  subst heq
  rw [hnone] at hoc
  cases hoc

end Outcomes

section Loops

variable {ρ : Rules Oracle World} {bad bad' : PageStoreError → World → Prop} {opts : StoreOptions}
  {t : Tid} {pages : List Page} {A L : List PageHash → World → Prop}
  {N R : List PageHash → PageHash → World → Prop} {K : List PageHash} {s : World}
  {outcomes : List (Option IngestOutcome)} {e : PageHash × Nat} {n : Nat}
  {order todo : List (PageHash × Nat)}

omit [Primitives] in
theorem wpOr_action {E α : Type} {bad : E → World → Prop} {f : Oracle → World → Except E α × World}
    {P : World → Prop} {Q : α → World → Prop} (hP : Stable ρ P) (hs : P s)
    (h : ∀ o u, ρ.may o u (f o u).2 → ρ.inv u → P u → ρ.inv (f o u).2 ∧ ρ.guar u (f o u).2 ∧
      okOr bad Q (f o u).1 (f o u).2) : wpOr ρ bad (action f) Q s :=
  wp_atomic hP hs fun o u hi hu ho => h o u ho hi hu

omit [Primitives] in
theorem wpOr_attempt {E α : Type} {bad : E → World → Prop}
    {f : Oracle → World → Except E (α × World)} {P : World → Prop} {Q : α → World → Prop}
    (hP : Stable ρ P) (hg : ∀ s, ρ.guar s s) (hs : P s)
    (hok : ∀ o u a v, ρ.may o u v → ρ.inv u → P u → f o u = .ok (a, v) →
      ρ.inv v ∧ ρ.guar u v ∧ Q a v)
    (herr : ∀ e u, ρ.inv u → P u → bad e u) : wpOr ρ bad (attempt f) Q s := by
  refine wpOr_action hP hs fun o u ho hi hu => ?_
  cases hf : f o u with
  | ok x =>
    rw [hf] at ho
    exact hok o u x.1 x.2 ho hi hu hf
  | error e => exact ⟨hi, hg u, herr e u hi hu⟩

omit [Primitives] in
theorem wpOr_look {E α : Type} {bad : E → World → Prop} {f : World → α} {P : World → Prop}
    {Q : α → World → Prop} (hP : Stable ρ P) (hg : ∀ s, ρ.guar s s) (hs : P s)
    (h : ∀ u, ρ.inv u → P u → Q (f u) u) : wpOr ρ bad (look f) Q s :=
  wp_atomic hP hs fun _ u hi hu _ => ⟨hi, hg u, h u hi hu⟩

omit [Primitives] in
theorem wpOr_withError {E E' α : Type} {bad : E' → World → Prop} {g : E → E'} {x : ExceptT E P α}
    {Q : α → World → Prop} (h : wpOr ρ (fun e u => bad (g e) u) x Q s) :
    wpOr ρ bad (withError g x) Q s := by
  refine wp_bind (wp_mono (fun r u hr => ?_) h)
  cases r with
  | ok a => exact hr
  | error e => exact hr

def Stands (pages : List Page) (e : PageHash × Nat) : Prop :=
  ∃ page, pages[e.2]? = some page ∧ blake3 page.bytes = e.1

theorem Stands.lt (h : Stands pages e) : e.2 < pages.length := by
  obtain ⟨page, hp, -⟩ := h
  exact (List.getElem?_eq_some_iff.mp hp).1

theorem stands_of_mem_batchDedup (h : e ∈ batchDedup (pages.map fun p => blake3 p.bytes)) :
    Stands pages e := by
  have hget := getElem?_of_mem_batchDedup h
  rw [List.getElem?_map, Option.map_eq_some_iff] at hget
  exact hget

theorem wpOr_probe (hI : IngestRules ρ bad bad' opts t pages A L N R)
    {acc : List (Option IngestOutcome) × List (PageHash × Nat)} (he : e.2 < n)
    (h : Awaiting n order (acc.2 ++ e :: todo) acc.1 K) (hA : A K s) :
    wpOr ρ bad (probe acc e) (fun acc' u => (∃ K', Awaiting n order (acc'.2 ++ todo) acc'.1 K' ∧
      A K' u) ∧ ∀ e' ∈ acc'.2, e' ∈ acc.2 ∨ e' = e) s := by
  refine wpOr_bind (R := fun found u => (found = none ∧ A K u) ∨ (found.isSome = true ∧
    A (e.1 :: K) u)) (wpOr_look (hI.stable K) hI.guar_refl hA fun u hi hu => ?_)
    fun found u hu => ?_
  · cases hfound : u.index.get e.1 with
    | none => exact .inl ⟨rfl, hu⟩
    | some loc => exact .inr ⟨rfl, hI.hit K e.1 u hi hu (by rw [Indexed, hfound]; rfl)⟩
  · cases found with
    | some loc =>
      have hu' : A (e.1 :: K) u := by simpa using hu
      refine ⟨⟨e.1 :: K, h.record he (fun e' he' => ?_) _, hu'⟩, fun e' => .inl⟩
      simp only [List.mem_append, List.mem_cons] at he' ⊢
      tauto
    | none =>
      have hu' : A K u := by simpa using hu
      refine ⟨⟨K, ?_, hu'⟩, fun e' he' => (List.mem_append.mp he').imp id List.mem_singleton.mp⟩
      simpa [List.append_assoc] using h

theorem wpOr_foldlM_probe (hI : IngestRules ρ bad bad' opts t pages A L N R)
    (horder : ∀ e ∈ order, Stands pages e) (hA : A [] s) :
    wpOr ρ bad (order.foldlM probe (List.replicate pages.length none, []))
      (fun acc u => (∃ K, Awaiting pages.length order acc.2 acc.1 K ∧ A K u) ∧
        ∀ e ∈ acc.2, Stands pages e) s := by
  refine wpOr_mono (wpOr_foldlM (fun acc rest u =>
    (∃ K, Awaiting pages.length order (acc.2 ++ rest) acc.1 K ∧ A K u) ∧
      ∀ e ∈ acc.2 ++ rest, Stands pages e) (fun acc e rest u h => ?_) order _ s
    ⟨⟨[], Awaiting.start _ order, hA⟩, horder⟩) fun acc u h => by simpa using h
  obtain ⟨⟨K, hwait, hK⟩, hstands⟩ := h
  have he : Stands pages e := hstands e (by simp)
  refine wpOr_mono (wpOr_probe hI he.lt hwait hK) fun acc' v hv => ⟨hv.1, fun e' he' => ?_⟩
  rcases List.mem_append.mp he' with hacc | hrest
  · rcases hv.2 e' hacc with hold | rfl
    · exact hstands e' (by simp [hold])
    · exact he
  · exact hstands e' (by simp [hrest])

theorem wpOr_writeEntry (hI : IngestRules ρ bad bad' opts t pages A L N R) (he : Stands pages e)
    (h : Awaiting pages.length order (e :: todo) outcomes K) (hR : R K e.1 s) :
    wpOr ρ bad' (writeEntry pages outcomes e)
      (fun out u => ∃ K', Awaiting pages.length order todo out K' ∧ L K' u) s := by
  obtain ⟨page, hpage, hhash⟩ := id he
  unfold writeEntry
  rw [hpage]
  refine wpOr_bind (hI.write K e.1 page s hR hhash) fun loc u hu => ?_
  exact ⟨e.1 :: K, h.record he.lt (fun e' => List.mem_cons.mp) _, hu⟩

theorem wpOr_ingestOne (hI : IngestRules ρ bad bad' opts t pages A L N R) (he : Stands pages e)
    (h : Awaiting pages.length order (e :: todo) outcomes K) (hL : L K s) :
    wpOr ρ bad' (ingestOne opts pages outcomes e)
      (fun out u => ∃ K', Awaiting pages.length order todo out K' ∧ L K' u) s := by
  refine wpOr_bind (R := fun found u => (found = none ∧ N K e.1 u) ∨ (found.isSome = true ∧
    L (e.1 :: K) u)) (wpOr_look (hI.stable_locked K) hI.guar_refl hL fun u hi hu => ?_)
    fun found u hu => ?_
  · cases hfound : u.index.get e.1 with
    | none => exact .inl ⟨rfl, hI.miss K e.1 u hi hu hfound⟩
    | some loc => exact .inr ⟨rfl, hI.hit_locked K e.1 u hi hu (by rw [Indexed, hfound]; rfl)⟩
  · cases found with
    | some loc =>
      have hu' : L (e.1 :: K) u := by simpa using hu
      exact ⟨e.1 :: K, h.record he.lt (fun e' => List.mem_cons.mp) _, hu'⟩
    | none =>
      have hu' : N K e.1 u := by simpa using hu
      refine wpOr_bind (R := fun full v => if full = true then N K e.1 v else R K e.1 v)
        (wpOr_look (hI.stable_miss K e.1) hI.guar_refl hu' fun v hi hv => ?_) fun full v hv => ?_
      · split
        · exact hv
        · next hfull => exact hI.room K e.1 v hi hv (Bool.not_eq_true _ ▸ hfull)
      · dsimp only
        split at hv
        · next hfull =>
          rw [if_pos hfull]
          exact wpOr_bind (hI.rotate K e.1 v hv) fun _ w hw => wpOr_writeEntry hI he h hw
        · next hfull =>
          rw [if_neg hfull]
          exact wpOr_writeEntry hI he h hv

theorem wpOr_writeMissing (hI : IngestRules ρ bad bad' opts t pages A L N R)
    (htodo : ∀ e ∈ todo, Stands pages e) (h : Awaiting pages.length order todo outcomes K)
    (hA : A K s) :
    wpOr ρ bad (writeMissing opts t pages outcomes todo)
      (fun out u => ∃ K', Awaiting pages.length order [] out K' ∧ A K' u) s := by
  unfold writeMissing
  split
  · next hnil =>
    subst hnil
    exact ⟨K, h, hA⟩
  · refine hI.lock _ (Awaiting pages.length order []) K s hA fun u hu => ?_
    refine wpOr_mono (wpOr_foldlM (fun out rest v => (∀ e ∈ rest, Stands pages e) ∧
      ∃ K', Awaiting pages.length order rest out K' ∧ L K' v) (fun out e rest v hv => ?_)
      todo outcomes u ⟨htodo, K, h, hu⟩) fun _ _ => And.right
    obtain ⟨hstands, K', hwait, hK'⟩ := hv
    obtain ⟨he, hrest⟩ := List.forall_mem_cons.mp hstands
    exact wpOr_mono (wpOr_ingestOne hI he hwait hK') fun _ _ hw => ⟨hrest, hw⟩

theorem wpOr_fillOutcome (hI : IngestRules ρ bad bad' opts t pages A L N R) {out : List IngestOutcome}
    {k : PageHash} {oc : Option IngestOutcome} (hk : oc = none → Repeated pages k ∧ k ∈ K)
    (hA : A K s) : wpOr ρ bad (fillOutcome out (k, oc)) (fun _ u => A K u) s := by
  unfold fillOutcome
  cases oc with
  | some oc => exact hA
  | none =>
    refine wpOr_bind (R := fun found u => found.isSome = true ∧ A K u)
      (wpOr_look (hI.stable K) hI.guar_refl hA fun u hi hu => ?_) fun found u hu => ?_
    · exact ⟨hI.found K k u hi hu (hk rfl).2 (hk rfl).1, hu⟩
    · cases found with
      | some loc => exact hu.2
      | none => exact absurd hu.1 (by simp)

theorem wpOr_ingest (hI : IngestRules ρ bad bad' opts t pages A L N R) (hA : A [] s) :
    wpOr ρ bad (ingest opts t pages)
      (fun _ u => ∃ K, A K u ∧ ∀ p ∈ pages, blake3 p.bytes ∈ K) s := by
  unfold ingest
  split
  · next hnil => exact ⟨[], hA, by simp [hnil]⟩
  dsimp only
  refine wpOr_bind (R := fun order u => (∀ e, e ∈ order ↔
    e ∈ batchDedup (pages.map fun p => blake3 p.bytes)) ∧ A [] u)
    (wp_atomic (hI.stable []) hA fun o u hi hu _ => ⟨hi, hI.guar_refl u, fun e => Oracle.mem_walk,
      hu⟩) fun order u hu => ?_
  obtain ⟨horder, hu⟩ := hu
  refine wpOr_bind (wpOr_foldlM_probe hI (fun e he =>
    stands_of_mem_batchDedup ((horder e).mp he)) hu) fun acc v hv => ?_
  obtain ⟨⟨K, hwait, hK⟩, hstands⟩ := hv
  refine wpOr_bind (wpOr_writeMissing hI hstands hwait hK) fun outcomes w hw => ?_
  obtain ⟨K', hwait', hK'⟩ := hw
  obtain ⟨hfilled, hin⟩ := hwait'.done
  refine wpOr_mono (wpOr_foldlM (fun _ rest x => (∀ e ∈ rest, e.2 = none → Repeated pages e.1 ∧
    e.1 ∈ K') ∧ A K' x) (fun out e rest x hx => ?_) _ [] w ⟨fun e he hnone => ?_, hK'⟩)
    fun _ _ hx => ⟨K', hx.2, fun p hp => ?_⟩
  · obtain ⟨he, hrest⟩ := List.forall_mem_cons.mp hx.1
    exact wpOr_mono (wpOr_fillOutcome hI he hx.2) fun _ _ hk => ⟨hrest, hk⟩
  · obtain ⟨i, hi⟩ := List.mem_iff_getElem?.mp he
    obtain ⟨hh, ho⟩ := List.getElem?_zip_eq_some.mp hi
    obtain ⟨hrep, j, hj⟩ := hfilled.repeated horder hh (hnone ▸ ho)
    exact ⟨hrep, hin _ hj⟩
  · obtain ⟨i, hi⟩ := List.mem_iff_getElem?.mp hp
    have hhash : (pages.map fun p => blake3 p.bytes)[i]? = some (blake3 p.bytes) := by
      rw [List.getElem?_map, hi]
      rfl
    obtain ⟨j, hj⟩ := exists_mem_batchDedup hhash
    exact hin _ ((horder _).mpr hj)

end Loops

end PageStore

end SnapStore

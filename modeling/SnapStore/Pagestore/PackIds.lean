import SnapStore.Conc.Sequential
import SnapStore.Gc.Frames

/-!
# The ids of packs

`PageStore::open` seeds the allocator of pack ids from a listing of the directory: once the runt
files are gone, the next id is above every pack file.
-/

namespace SnapStore

open Disk Conc

def PacksBelow (n : PackId) (s : World) : Prop := ∀ p, n ≤ p → s.pages.lookup (.spk p) = none

def SamePacks (s s' : World) : Prop := ∀ p, s'.pages.lookup (.spk p) = s.pages.lookup (.spk p)

def Listed (ids : List PackId) (s : World) : Prop :=
  ∀ p, (s.pages.lookup (.spk p)).isSome = true → p ∈ ids

theorem PagesMove.samePacks (s s' : World) (h : PagesMove s s') : SamePacks s s' := by
  obtain ⟨_, rfl, hsame⟩ := h
  exact hsame

theorem SamePacks.of_lookup {s s' : World} (h : s'.pages.lookup = s.pages.lookup) :
    SamePacks s s' := fun _ => by rw [h]

theorem SamePacks.below {s s' : World} {n : PackId} (h : SamePacks s s') (hs : PacksBelow n s) :
    PacksBelow n s' := fun p hp => (h p).trans (hs p hp)

theorem SamePacks.listed {s s' : World} {ids : List PackId} (h : SamePacks s s')
    (hs : Listed ids s) : Listed ids s' := fun p hp => hs p (h p ▸ hp)

theorem Listed.below {s : World} {ids : List PackId} (h : Listed ids s)
    (hsort : ids.Pairwise (· ≤ ·)) {last : PackId} (hlast : ids.getLast? = some last) :
    PacksBelow (last + 1) s := by
  intro p hp
  rw [← Option.not_isSome_iff_eq_none]
  intro hsome
  have hle : p ≤ last := by
    obtain ⟨init, rfl⟩ := List.getLast?_eq_some_iff.mp hlast
    rcases List.mem_append.mp (h p hsome) with hinit | hself
    · exact (List.pairwise_append.mp hsort).2.2 p hinit last (List.mem_singleton_self _)
    · exact Nat.le_of_eq (List.mem_singleton.mp hself)
  exact absurd (Nat.lt_of_lt_of_le (Nat.lt_succ_self last) hp) (Nat.not_lt.mpr hle)

namespace PageStore

variable [Primitives]

/-! ## Recovery -/

section Recovery

variable {α : Type} {may : Oracle → World → Prop} {s : World}

abbrev Recovers (may : Oracle → World → Prop) (x : PE α) (Q : α → World → Prop) (s : World) : Prop :=
  wpOr (alone may) (fun _ _ => True) x Q s

section Rules

omit [Primitives]

theorem recovers_action {f : Oracle → World → Except PageStoreError α × World}
    {Q : α → World → Prop} (h : ∀ o, may o s → ∀ a, (f o s).1 = .ok a → Q a (f o s).2) :
    Recovers may (action f) Q s := by
  refine wp_alone_atomic fun o ho => ?_
  cases hres : (f o s).1 with
  | ok a => exact h o ho a hres
  | error e => exact trivial

theorem recovers_attempt {f : Oracle → World → Except PageStoreError (α × World)}
    {Q : α → World → Prop} (h : ∀ o, may o s → ∀ a u, f o s = .ok (a, u) → Q a u) :
    Recovers may (attempt f) Q s := by
  refine wp_alone_atomic fun o ho => ?_
  cases hres : f o s with
  | ok x => exact h o ho x.1 x.2 hres
  | error e => exact trivial

theorem recovers_within {x : PE α} {R : World → World → Prop} {P : World → Prop}
    (hx : Within R x.run) (hP : ∀ s s', R s s' → P s → P s') (h : P s) :
    Recovers may x (fun _ t => P t) s := by
  refine wp_mono (fun r t ht => ?_) (hx.wp (stable_alone P) h
    fun _ s u _ hs _ hR => ⟨trivial, trivial, hP s u hR hs⟩)
  cases r with
  | ok a => exact ht
  | error e => exact trivial

theorem recovers_look {f : World → α} {Q : α → World → Prop} (h : Q (f s) s) :
    Recovers may (look f) Q s := wp_alone_atomic fun _ _ => h

theorem recovers_discoverPacks :
    Recovers may discoverPacks (fun ids t => ids.Pairwise (· ≤ ·) ∧ Listed ids t) s := by
  refine recovers_action fun o _ ids hids => ?_
  dsimp only at hids
  split at hids
  · cases hids
  · cases hids
    refine ⟨List.pairwise_insertionSort _ _, fun p hp => ?_⟩
    rw [List.mem_insertionSort, List.mem_filterMap]
    exact ⟨.spk p, FileSys.mem_names.mpr hp, rfl⟩

theorem recovers_removeRunt (hmay : ∀ o s, may o s → o.fault .pack .unlink = none)
    {kept rest : List PackId} {id : PackId} (hsort : (kept ++ id :: rest).Pairwise (· ≤ ·))
    (h : Listed (kept ++ id :: rest) s) :
    Recovers may (removeRunt kept id)
      (fun kept' t => (kept' ++ rest).Pairwise (· ≤ ·) ∧ Listed (kept' ++ rest) t) s := by
  have hkeep : (kept ++ [id] ++ rest).Pairwise (· ≤ ·) ∧ Listed (kept ++ [id] ++ rest) s := by
    rw [List.append_assoc, List.singleton_append]
    exact ⟨hsort, h⟩
  refine recovers_attempt fun o ho kept' u hkept => ?_
  split at hkept
  · cases hkept
    exact hkeep
  · split at hkept
    · rw [hmay o s ho] at hkept
      cases hkept
      refine ⟨hsort.sublist (by simp), fun p hp => ?_⟩
      simp only [FileSys.lookup_unlink, PageFile.spk.injEq] at hp
      split at hp
      · cases hp
      · next hne =>
        have hmem := h p hp
        simp only [List.mem_append, List.mem_cons] at hmem ⊢
        tauto
    · cases hkept
      exact hkeep

theorem recovers_createActive {opts : StoreOptions} {id : PackId} (h : PacksBelow id s) :
    Recovers may (createActive opts id)
      (fun w t => w.sealed = false ∧ PacksBelow (id + 1) t) s := by
  refine wpOr_bind (R := fun _ t => PacksBelow (id + 1) t) (recovers_attempt fun o _ f u hf => ?_)
    fun f t ht => wpOr_bind (R := fun _ t => PacksBelow (id + 1) t)
      (recovers_action fun o _ _ _ => ?_) fun _ u hu => ⟨rfl, hu⟩
  · split at hf <;> cases hf
    intro p hp
    rw [FileSys.lookup_create, if_neg, h p (Nat.le_of_succ_le hp)]
    intro heq
    cases heq
    exact absurd hp (Nat.not_succ_le_self _)
  · dsimp only
    split <;> exact ht

theorem recovers_succPackId {id : PackId} {Q : PackId → World → Prop}
    (h : id + 1 < 2 ^ 32 → Q (id + 1) s) : Recovers may (succPackId id) Q s := by
  unfold succPackId
  split
  · next hlt => exact h hlt
  · exact trivial

theorem recovers_freshPackId {ids : List PackId} (hsort : ids.Pairwise (· ≤ ·)) (h : Listed ids s) :
    Recovers may (freshPackId ids) (fun id t => PacksBelow id t) s := by
  unfold freshPackId
  cases hlast : ids.getLast? with
  | some last => exact recovers_succPackId fun _ => h.below hsort hlast
  | none =>
    have hnil : ids = [] := List.getLast?_eq_none_iff.mp hlast
    intro p _
    rw [← Option.not_isSome_iff_eq_none]
    intro hsome
    exact absurd (h p hsome) (by simp [hnil])

end Rules

structure Seeded (a : ActiveState) (s : World) : Prop where
  unsealed : a.writer.sealed = false
  below : PacksBelow a.nextPackId s
  active : a.packId < a.nextPackId
  next : a.nextPackId < 2 ^ 32

theorem recovers_reopenPackForAppend {ix : Index} {id : PackId} {ids : List PackId}
    (h : Listed ids s) :
    Recovers may (reopenPackForAppend ix id) (fun r t => r.1.sealed = false ∧ Listed ids t) s := by
  refine wpOr_bind (recovers_within (P := Listed ids) ((pagesMove_openUnsealed id).mono PagesMove.samePacks).within
    (fun _ _ => SamePacks.listed) h) fun bodyEnd t ht => ?_
  refine wpOr_bind (R := fun _ u => Listed ids u) (recovers_action fun _ _ _ _ => ht)
    fun records u hu => ?_
  refine wpOr_bind (R := fun (w : PackWriter) v => w.sealed = false ∧ Listed ids v)
    (recovers_action fun o _ w hw => ⟨?_, hu⟩) fun w v hv => wpOr_pure hv
  dsimp only at hw
  split at hw
  · cases hw
  · cases hw
  · unfold PackWriter.reopen at hw
    dsimp only at hw
    split at hw
    · cases hw
    · split at hw
      · cases hw
      · cases hw
        rfl

theorem recovers_openActive {opts : StoreOptions} {ids unsealed : List PackId} {ix : Index}
    (hsort : ids.Pairwise (· ≤ ·)) (hsub : ∀ id ∈ unsealed, id ∈ ids) (h : Listed ids s) :
    Recovers may (openActive opts ids unsealed ix) (fun r t => Seeded r.2 t) s := by
  unfold openActive
  cases hopen : unsealed.getLast? with
  | some id =>
    have hmem : id ∈ ids := hsub id (List.mem_of_getLast? hopen)
    refine wpOr_bind (recovers_reopenPackForAppend h) fun r t ht => ?_
    obtain ⟨last, hlast⟩ : ∃ last, ids.getLast? = some last := by
      rw [← Option.isSome_iff_exists, List.getLast?_isSome]
      exact List.ne_nil_of_mem hmem
    have hle : id ≤ last := by
      obtain ⟨init, rfl⟩ := List.getLast?_eq_some_iff.mp hlast
      rcases List.mem_append.mp hmem with hinit | hself
      · exact (List.pairwise_append.mp hsort).2.2 id hinit last (List.mem_singleton_self _)
      · exact Nat.le_of_eq (List.mem_singleton.mp hself)
    refine wpOr_bind (R := fun next u => u = t ∧ next = last + 1 ∧ next < 2 ^ 32) ?_
      fun next u hu => ?_
    · rw [hlast]
      exact recovers_succPackId fun hlt => ⟨rfl, rfl, hlt⟩
    · obtain ⟨rfl, rfl, hlt⟩ := hu
      exact ⟨ht.1, ht.2.below hsort hlast, Nat.lt_succ_of_le hle, hlt⟩
  | none =>
    refine wpOr_bind (recovers_freshPackId hsort h) fun id t ht => ?_
    refine wpOr_bind (recovers_createActive ht) fun w u hu => ?_
    refine wpOr_bind (R := fun next v => v = u ∧ next = id + 1 ∧ next < 2 ^ 32)
      (recovers_succPackId fun hlt => ⟨rfl, rfl, hlt⟩) fun next v hv => ?_
    obtain ⟨rfl, rfl, hlt⟩ := hv
    exact ⟨hu.1, hu.2, Nat.lt_succ_self id, hlt⟩

theorem recovers_openPages (hmay : ∀ o s, may o s → o.fault .pack .unlink = none)
    (opts : StoreOptions) (s : World) :
    Recovers may (openPages opts) (fun r t => Seeded r.2 t) s := by
  refine wpOr_bind recovers_discoverPacks fun discovered t ht => ?_
  refine wpOr_bind (wpOr_foldlM (fun kept rest u => (kept ++ rest).Pairwise (· ≤ ·) ∧
    Listed (kept ++ rest) u) (fun kept id rest u hu => recovers_removeRunt hmay hu.1 hu.2)
    discovered [] t ht) fun ids u hu => ?_
  rw [List.append_nil] at hu
  refine wpOr_bind (wpOr_foldlM (fun marks rest v => (∀ m ∈ marks, m.1 ∈ ids) ∧
    (∀ id ∈ rest, id ∈ ids) ∧ Listed ids v) (fun marks id rest v hv => ?_)
    ids [] u ⟨by simp, fun _ => id, hu.2⟩) fun marks v hv => ?_
  · refine wpOr_bind (R := fun _ w => w = v) (recovers_look rfl) fun mark w hw => ?_
    subst hw
    obtain ⟨hid, hrest⟩ := List.forall_mem_cons.mp hv.2.1
    refine ⟨fun m hm => ?_, hrest, hv.2.2⟩
    rcases List.mem_append.mp hm with hm | hm
    · exact hv.1 m hm
    · rw [List.mem_singleton.mp hm]
      exact hid
  · refine wpOr_bind (recovers_within (P := Listed ids) ((Prompt.foldlME pagesMove_sealOld _ _).mono PagesMove.samePacks).within
      (fun _ _ => SamePacks.listed) hv.2.2) fun ix w hw => ?_
    refine wpOr_bind (recovers_within (P := Listed ids) ((Prompt.foldlME pagesMove_loadSealed _ _).mono PagesMove.samePacks).within
      (fun _ _ => SamePacks.listed) hw) fun ix x hx => ?_
    refine recovers_openActive hu.1 (fun id hid => ?_) hx
    obtain ⟨m, hm, rfl⟩ := List.mem_map.mp hid
    exact hv.1 m (List.mem_of_mem_filter hm)

end Recovery

end PageStore

open PageStore in
theorem wp_openStore_seeded [Primitives] (may : Oracle → World → Prop)
    (hmay : ∀ o s, may o s → o.fault .pack .unlink = none) (opts : StoreOptions) (s : World) :
    wp (alone may) (SnapshotStore.openStore opts)
      (fun b t => b = true → Seeded t.active t ∧ t.activeLock = none) s := by
  have hopen : Recovers may (do SnapshotStore.cleanTmpDir; openPages opts : PE _)
      (fun r t => Seeded r.2 t) s := by
    refine wpOr_bind (R := fun _ _ => True) ?_ fun _ t _ => recovers_openPages hmay opts t
    exact recovers_within (Within.any _) (fun _ _ _ => id) trivial
  refine wp_bind (wp_mono (fun r t hr => ?_) hopen)
  cases r with
  | error e => exact nofun
  | ok r =>
    refine wp_bind (wp_mono (fun counters u hu => ?_)
      ((SnapshotStore.within_walkManifestCounters (R := Eq) fun _ => rfl).wp (stable_alone (· = t)) rfl
        fun _ u v _ hu _ heq => ⟨trivial, trivial, heq ▸ hu⟩))
    subst hu
    exact wp_bind (wp_alone_atomic fun _ _ => fun _ =>
      ⟨⟨hr.unsealed, hr.below, hr.active, hr.next⟩, rfl⟩)

end SnapStore

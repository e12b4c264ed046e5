import SnapStore.Conc.Watch
import SnapStore.Pagestore.Ingest
import SnapStore.Store.Locks

/-!
# The panics of ingest

After the misses of a batch are written, ingest looks up the location of every repeated page and
expects to find it.  It holds no lock then, so a sweep may remove the entry first.
-/

namespace SnapStore

open Disk Conc

namespace PageStore

variable {α β E : Type} {dup : PageHash → Prop} {K : List PageHash} {s : World}

def keptRules (dup : PageHash → Prop) : Rules Oracle World where
  may _ s s' := s.active.nextPackId + 1 < 2 ^ 32 ∧ ∀ h, dup h → Indexed s h → Indexed s' h
  inv _ := True
  rely s s' := ∀ h, dup h → Indexed s h → Indexed s' h
  guar _ _ := True
  rely_refl _ _ _ := id
  rely_trans _ _ _ h h' k hk hs := h' k hk (h k hk hs)

def Kept (dup : PageHash → Prop) (K : List PageHash) (s : World) : Prop :=
  ∀ h ∈ K, dup h → Indexed s h

theorem Kept.step {s' : World} (h : Kept dup K s) (hr : ∀ k, dup k → Indexed s k → Indexed s' k) :
    Kept dup K s' := fun k hk hd => hr k hd (h k hk hd)

theorem stable_kept : Stable (keptRules dup) (Kept dup K) := fun _ _ h hr _ => h.step hr

abbrev Calm (dup : PageHash → Prop) (x : PE α) (Q : α → World → Prop) (s : World) : Prop :=
  wpOr (keptRules dup) (fun e _ => e ≠ .panicked) x Q s

theorem calm_action {f : Oracle → World → Except PageStoreError α × World}
    {Q : α → World → Prop} (h : Kept dup K s)
    (hf : ∀ o t, t.active.nextPackId + 1 < 2 ^ 32 → Kept dup K (f o t).2 →
      okOr (fun e _ => e ≠ .panicked) Q (f o t).1 (f o t).2) : Calm dup (action f) Q s := by
  refine wp_atomic stable_kept h fun o t _ ht hm => ⟨trivial, trivial, ?_⟩
  exact hf o t hm.1 (ht.step hm.2)

def Tame (x : PE α) : Prop :=
  ∀ (dup : PageHash → Prop) (K : List PageHash) (s : World), Kept dup K s →
    Calm dup x (fun _ t => Kept dup K t) s

theorem Tame.bind {x : PE α} {k : α → PE β} (hx : Tame x) (hk : ∀ a, Tame (k a)) :
    Tame (x >>= k) := fun dup K s h => wpOr_bind (hx dup K s h) fun a t => hk a dup K t

theorem Tame.pure (a : α) : Tame (pure a : PE α) := fun _ _ _ h => h

theorem Tame.foldlM {f : β → α → PE β} (hf : ∀ b a, Tame (f b a)) (l : List α) (b : β) :
    Tame (l.foldlM f b) := fun dup K s h =>
  wpOr_foldlM (fun _ _ t => Kept dup K t) (fun b a _ t => hf b a dup K t) l b s h

theorem tame_action {f : Oracle → World → Except PageStoreError α × World}
    (hf : ∀ o t, t.active.nextPackId + 1 < 2 ^ 32 → (f o t).1 ≠ .error .panicked) :
    Tame (action f) := by
  intro dup K s h
  refine calm_action h fun o t hid ht => ?_
  have hne := hf o t hid
  cases hres : (f o t).1 with
  | ok a => exact ht
  | error e =>
    rw [hres] at hne
    exact fun heq => hne (heq ▸ rfl)

theorem tame_attempt {f : Oracle → World → Except PageStoreError (α × World)}
    (hf : ∀ o t, t.active.nextPackId + 1 < 2 ^ 32 → f o t ≠ .error .panicked) :
    Tame (attempt f) := by
  refine tame_action fun o t hid => ?_
  have hne := hf o t hid
  cases hres : f o t with
  | ok x => simp
  | error e =>
    rw [hres] at hne
    exact fun heq => hne (by rw [Except.error.inj heq])

theorem tame_look (f : World → α) : Tame (look f) := tame_action fun _ _ _ => by simp

theorem tame_change (f : World → World) : Tame (change f) := tame_action fun _ _ _ => by simp

theorem wp_kept (p : P α) (h : Kept dup K s) : wp (keptRules dup) p (fun _ t => Kept dup K t) s := by
  induction p generalizing s with
  | ret a => exact h
  | act f k ih => exact fun t hr _ o b u _ hm => ⟨trivial, trivial, ih b ((h.step hr).step hm.2)⟩

theorem tame_withError (x : ExceptT E P α) {f : E → PageStoreError} (hf : ∀ e, f e ≠ .panicked) :
    Tame (withError f x) := by
  intro dup K s h
  refine wp_bind (wp_mono (fun res t hres => ?_) (wp_kept x.run h))
  cases res with
  | ok a => exact hres
  | error e => exact hf e

theorem tame_onWriter
    (f : Oracle → PackWriter → PagesFs → Except PackError α × PackWriter × PagesFs) :
    Tame (onWriter f) := by
  refine tame_action fun o t _ => ?_
  dsimp only
  generalize f o t.active.writer t.pages = res
  obtain ⟨r, w, fs⟩ := res
  cases r with
  | ok a => simp [Except.mapError]
  | error e => simp [Except.mapError]

/-! ## Rotation -/

theorem tame_packEntries (p : PackId) : Tame (packEntries p) :=
  Tame.foldlM (fun _ _ => (tame_look _).bind fun _ => Tame.pure _) _ _

theorem tame_allocPackId (note : PackId → Ghost → Ghost) : Tame (allocPackId note) := by
  refine tame_attempt fun o t hid => ?_
  rw [if_pos hid]
  simp

theorem tame_createPackFile (id : PackId) : Tame (createPackFile id) := by
  refine tame_attempt fun o t _ => ?_
  split <;> simp

theorem tame_writePackHeader (f : Ino) (id : PackId) : Tame (writePackHeader f id) := by
  refine tame_action fun o t _ => ?_
  dsimp only
  split <;> simp

theorem tame_sealActiveNoSync [Primitives] : Tame sealActiveNoSync := by
  refine (tame_look _).bind fun isSealed => ?_
  split
  · exact fun _ _ _ _ => nofun
  · exact (tame_onWriter _).bind fun _ => tame_onWriter _

theorem tame_rotateLocked [Primitives] (opts : StoreOptions) : Tame (rotateLocked opts) := by
  refine (tame_look _).bind fun old => (tame_change _).bind fun _ => ?_
  refine tame_sealActiveNoSync.bind fun _ => (tame_packEntries old).bind fun es => ?_
  refine (tame_withError _ nofun).bind fun _ => (tame_allocPackId _).bind fun new => ?_
  refine (tame_createPackFile new).bind fun f => (tame_writePackHeader f new).bind fun _ => ?_
  exact (tame_change _).bind fun _ => Tame.pure _

/-! ## The batch -/

section Ingest

variable [Primitives] {opts : StoreOptions}

omit [Primitives] in
theorem Kept.cons {h : PageHash} (hh : Indexed s h) (hk : Kept dup K s) : Kept dup (h :: K) s :=
  List.forall_mem_cons.mpr ⟨fun _ => hh, hk⟩

omit [Primitives] in
theorem calm_writePage {h : PageHash} {page : Page} (hk : Kept dup K s) :
    Calm dup (writePage h page) (fun _ t => Kept dup (h :: K) t) s := by
  refine wpOr_bind (tame_onWriter _ dup K s hk) fun offset t ht => calm_action ht fun o u _ hu => ?_
  refine hu.cons ?_
  rw [Indexed]
  dsimp only
  rw [Index.get_insert]
  split
  · rfl
  · next hne => exact Option.isSome_iff_ne_none.mpr fun hnone => hne ⟨rfl, hnone⟩

omit [Primitives] in
theorem calm_withActive {t : Tid} {body : PE α} {A : World → Prop} {Q : α → World → Prop}
    (hA : Stable (keptRules dup) A) (hQ : ∀ a, Stable (keptRules dup) (Q a)) (h : A s)
    (hbody : ∀ u, A u → Calm dup body Q u) : Calm dup (withActive t body) Q s := by
  refine wp_bind (wp_await hA h fun o v b u _ hv _ hm => ⟨trivial, trivial, ?_⟩)
  refine wp_bind (wp_mono (fun res v hres => ?_) (hbody u (hA v u hv hm.2 trivial)))
  cases res with
  | ok a => exact wp_bind (wp_atomic (hQ a) hres fun o w _ hw hm =>
      ⟨trivial, trivial, hQ a _ _ hw hm.2 trivial⟩)
  | error x => exact wp_bind (wp_atomic (Stable.const True) trivial fun _ _ _ _ _ =>
      ⟨trivial, trivial, hres⟩)

theorem calmRules (opts : StoreOptions) (t : Tid) (pages : List Page) :
    IngestRules (keptRules (Repeated pages)) (fun e _ => e ≠ .panicked)
      (fun e _ => e ≠ .panicked) opts t pages
      (Kept (Repeated pages)) (Kept (Repeated pages)) (fun K _ => Kept (Repeated pages) K)
      (fun K _ => Kept (Repeated pages) K) where
  stable _ := stable_kept
  stable_locked _ := stable_kept
  stable_miss _ _ := stable_kept
  guar_refl _ := trivial
  hit _ _ _ _ hk hh := hk.cons hh
  hit_locked _ _ _ _ hk hh := hk.cons hh
  miss _ _ _ _ hk _ := hk
  room _ _ _ _ hk _ := hk
  rotate K _ s hk := tame_rotateLocked opts _ K s hk
  write _ _ _ _ hk _ := calm_writePage hk
  lock body I K s hk hbody := by
    refine calm_withActive stable_kept (fun out => ?_) hk hbody
    exact Stable.exist fun K' => (Stable.const _).and stable_kept
  found _ h _ _ hk hmem hrep := hk h hmem hrep

theorem calm_ingest (opts : StoreOptions) (t : Tid) (pages : List Page) (s : World) :
    Calm (Repeated pages) (ingest opts t pages) (fun _ _ => True) s :=
  wpOr_mono (wpOr_ingest (calmRules opts t pages) (by simp [Kept])) fun _ _ _ => trivial

end Ingest

end PageStore

/-! ## Runs of the store -/

section Store

variable [Primitives]

/-- The pages that an ingest looks up without a lock when it fills in its outcomes. -/
def Call.looksUp : Call → PageHash → Prop
  | .ingest pages, h => Repeated pages h
  | _, _ => False

/-- An action takes no entry from the index that a running ingest will look up, and there are pack
ids left. -/
def SparesRepeated {opts : StoreOptions} {allowed : Call → Prop} {crash : World → World → Prop}
    (a : Config (concurrentStore opts allowed crash)) :
    Label (concurrentStore opts allowed crash) → Config (concurrentStore opts allowed crash) → Prop
  | .act _ _, b => a.store.active.nextPackId + 1 < 2 ^ 32 ∧
      ∀ th ∈ a.threads, th.prog.isDone = false → ∀ h, th.call.1.looksUp h →
        Indexed a.store h → Indexed b.store h
  | _, _ => True

def Call.Unpanicked : Call → Reply → Prop
  | .ingest _, .ingest out => out ≠ .error .panicked
  | .ingest _, _ => False
  | _, _ => True

theorem wp_unpanicked (opts : StoreOptions) (t : Tid) (c : Call) (s : World) :
    wp (PageStore.keptRules c.looksUp) (c.run opts t) (fun r _ => c.Unpanicked r) s := by
  by_cases hc : ∃ pages, c = .ingest pages
  · obtain ⟨pages, rfl⟩ := hc
    refine wp_bind (wp_mono (fun res u hres => ?_) (PageStore.calm_ingest opts t pages s))
    cases res with
    | ok out => exact nofun
    | error e => exact fun heq => hres (Except.error.inj heq)
  · refine wp_mono (fun r u _ => ?_) (PageStore.wp_kept (K := []) _ (by simp [PageStore.Kept]))
    cases c with
    | ingest pages => exact absurd ⟨pages, rfl⟩ hc
    | _ => exact trivial

theorem waitsOnce_call {opts : StoreOptions} {t : Tid} {c : Call} {pages : List Page}
    (hc : c = .ingest pages) :
    WaitsOnce (fun s : World => s.activeLock = none) (c.run opts t) := by
  subst hc
  exact (PageStore.waitsOnce_ingest opts t pages).bind (R := fun _ _ => True) fun _ => Prompt.ret _

/-- No ingest panics while the entries of its repeated pages stay in the index: it waits at most
once, for the lock of the active pack, and returns its outcomes or an error. -/
theorem ingest_returns_without_panic (opts : StoreOptions) (crash : World → World → Prop)
    {c₀ c : Config (concurrentStore opts (fun _ => True) crash)} (hnone : c₀.threads = [])
    (h : (concurrentStore opts (fun _ => True) crash).ReachBy SparesRepeated c₀ c) {t : Tid}
    {call : { _c : Call // True }} {pages : List Page} {p : P Reply}
    (ht : c.threads[t]? = some ⟨call, p⟩) (hcall : call.1 = .ingest pages) :
    WaitsOnce (fun s : World => s.activeLock = none) p ∧
    ∀ r, p = .ret r → ∃ out, r = .ingest out ∧ out ≠ .error .panicked := by
  constructor
  · refine Machine.ReachBy.threads (M := concurrentStore opts (fun _ => True) crash)
      (I := fun d _ q => ∀ pages, d.1 = .ingest pages →
        WaitsOnce (fun s : World => s.activeLock = none) q) ?_ ?_ hnone h t call p ht pages hcall
    · exact fun d u pages hd => waitsOnce_call hd
    · exact fun d u q e s q' s' hq hs pages hd => (hq pages hd).step hs
  · intro r hp
    subst hp
    have hpost : call.1.Unpanicked r := by
      refine Machine.ReachBy.followed (M := concurrentStore opts (fun _ => True) crash)
        (ρ := fun d _ => PageStore.keptRules d.1.looksUp) (Q := fun d _ r => d.1.Unpanicked r)
        ?_ ?_ ?_ ?_ hnone h t call _ ht
      · exact fun d u s => trivial
      · exact fun d u s => wp_unpanicked opts u d.1 s
      · intro a b u e d q hs hok hu hq
        exact ⟨hok.1, hok.2 _ (List.mem_of_getElem? hu) hq⟩
      · intro a b u e v d q hs hok hv hq
        exact hok.2 _ (List.mem_of_getElem? hv) hq
    rw [hcall] at hpost
    cases r with
    | ingest out => exact ⟨out, rfl, hpost⟩
    | _ => exact hpost.elim

end Store

/-! ## Samples -/

namespace Sample

attribute [local instance] primitives

def probed : List (Cmd sharedStore) :=
  [.boot quiet 100, .ready, .start ⟨.ingest [page 7], trivial⟩, .run 0 quiet 1000,
    .start ⟨.rotate, trivial⟩, .run 1 quiet 1000,
    .start ⟨.ingest [page 7, page 7], trivial⟩, .run 2 quiet 2]

def panics (c : sharedStore.Call) (r : sharedStore.Reply) : Bool :=
  match c.1, r with
  | .ingest _, .ingest (.error .panicked) => true
  | _, _ => false

theorem ingest_of_panics {c : sharedStore.Call} {r : sharedStore.Reply} (h : panics c r = true) :
    (∃ pages, c.1 = .ingest pages) ∧ r = .ingest (.error .panicked) := by
  unfold panics at h
  split at h
  · next pages hc => exact ⟨⟨pages, hc⟩, rfl⟩
  · cases h

/-- A sweep runs between the probe and the last lookup. -/
theorem repeated_page_panics : ∃ c : Config sharedStore,
    sharedStore.Reach (fun _ _ _ => True) (sharedStore.initial World.empty) c ∧
    ∃ call pages, call.1 = .ingest pages ∧
      c.threads[2]? = some ⟨call, .ret (.ingest (.error .panicked))⟩ := by
  have hcomp : (sharedStore.execAll (fun _ _ => true) (probed ++
      [.start ⟨.gcCycle cycle, trivial⟩, .run 3 quiet 1000, .run 2 quiet 1000])
      (sharedStore.initial World.empty)).any (Machine.replied 2 panics) = true := by
    decide +kernel
  obtain ⟨c, hc, hrep⟩ := Option.any_eq_true _ _ |>.mp hcomp
  obtain ⟨call, r, hth, hpanics⟩ := Machine.exists_of_replied hrep
  obtain ⟨⟨pages, hcall⟩, rfl⟩ := ingest_of_panics hpanics
  have hreach : sharedStore.Reach (fun _ _ _ => True) (sharedStore.initial World.empty) c :=
    Machine.reach_of_execAll (by simp [probed, Machine.Meets]) hc
  exact ⟨c, hreach, call, pages, hcall, hth⟩

def keepsIndex (s s' : World) : Bool :=
  decide (s.active.nextPackId + 1 < 2 ^ 32 ∧ ∀ h ∈ s.index.keys, Indexed s' h)

theorem spares_of_keepsIndex {a b : Config sharedStore} {l : Label sharedStore}
    (h : keepsIndex a.store b.store = true) : SparesRepeated a l b := by
  obtain ⟨hid, hkeys⟩ := of_decide_eq_true h
  cases l with
  | act t e => exact ⟨hid, fun _ _ _ k _ hk => hkeys k (AList.mem_keys.mp (AList.lookup_isSome.mp hk))⟩
  | _ => exact trivial

def ingested (c : sharedStore.Call) (_ : sharedStore.Reply) : Bool :=
  match c.1 with
  | .ingest _ => true
  | _ => false

/-- A whole cycle runs between the probe and the write of the misses. -/
theorem repeated_page_ingested : ∃ c : Config sharedStore,
    sharedStore.ReachBy SparesRepeated (sharedStore.initial World.empty) c ∧
    ∃ call out, c.threads[0]? = some ⟨call, .ret (.ingest out)⟩ ∧ out ≠ .error .panicked := by
  have hcomp : (sharedStore.execAll keepsIndex
      [.boot quiet 100, .ready, .start ⟨.ingest [page 7, page 7], trivial⟩, .run 0 quiet 2,
        .start ⟨.gcCycle cycle, trivial⟩, .run 1 quiet 1000, .run 0 quiet 1000]
      (sharedStore.initial World.empty)).any (Machine.replied 0 ingested) = true := by
    decide +kernel
  obtain ⟨c, hc, hrep⟩ := Option.any_eq_true _ _ |>.mp hcomp
  obtain ⟨call, r, hth, hingest⟩ := Machine.exists_of_replied hrep
  have hreach : sharedStore.Reach (fun _ s s' => keepsIndex s s' = true)
      (sharedStore.initial World.empty) c := Machine.reach_of_execAll (by simp [Machine.Meets]) hc
  have hspares : sharedStore.ReachBy SparesRepeated (sharedStore.initial World.empty) c :=
    .of_reach (fun _ _ _ => spares_of_keepsIndex) hreach
  cases hcall : call.1 with
  | ingest pages =>
    obtain ⟨out, rfl, hout⟩ :=
      (ingest_returns_without_panic options _ rfl hspares hth hcall).2 r rfl
    exact ⟨c, hspares, call, out, hth, hout⟩
  | _ => simp [ingested, hcall] at hingest

end Sample

end SnapStore

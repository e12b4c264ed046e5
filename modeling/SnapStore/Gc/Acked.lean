import SnapStore.Gc.Roots

/-!
# Acknowledged snapshots

`put_snapshot` looks at the pages of its own manifest and at one parent.  The rest of the chain is
complete because the store keeps it so, as long as no cycle stops between its first removal and the
end of its manifest sweep.
-/

namespace SnapStore

open Disk Conc SnapshotStore

section Store

variable [Primitives] {opts : StoreOptions} {S : Set Bytes} (hS : CollisionFree S)

def tidyProtocol (S : Set Bytes) (hS : CollisionFree S) : Protocol :=
  { indexProtocol S hS with tidy := True }

def TidySteps (opts : StoreOptions) (S : Set Bytes) (hS : CollisionFree S) :
    Label (gcStore opts S) → World → World → Prop
  | .act _ _, s, s' => Tidy (tidyProtocol S hS) s s'
  | _, _, _ => True

theorem admissible_tidy {s s' : World} (h : Tidy (tidyProtocol S hS) s s') :
    Admissible (tidyProtocol S hS) s s' :=
  ⟨fun _ _ h => h, fun _ _ _ _ _ _ _ _ h => h, fun _ => h⟩

theorem protocolInv_opened {s : World} (hm : ManifestsOk S s.manifests)
    (hnone : ∀ r, ¬ Stored s r) (ho : Opened s) : ProtocolInv (tidyProtocol S hS) s := by
  obtain ⟨acked, files, hghost⟩ := ho.ghost
  refine ⟨by simp [ho.gate], hm, by simp [hghost, Ghost.initial], by simp [hghost, Ghost.initial],
    fun _ => ?_⟩
  exact ⟨fun r hr => absurd hr (hnone r), fun r hr => absurd hr (hnone r),
    by simp [hghost, Ghost.initial], fun _ r hr => absurd hr (hnone r),
    fun r _ hr => absurd hr (hnone r), by simp [Publishing, hghost, Ghost.initial]⟩

def tidyOutline (opts : StoreOptions) : Outline (gcStore opts S) (TidySteps opts S hS) where
  inv := ProtocolInv (tidyProtocol S hS)
  down s := ManifestsOk S s.manifests ∧ ∀ r, ¬ Stored s r
  rely c := ProtocolRely (tidyProtocol S hS) c.1
  guar c t s s' := Admissible (tidyProtocol S hS) s s' ∧ ProtocolMove (tidyProtocol S hS) c.1 t s s'
  post c _ := ClientPost (tidyProtocol S hS) c.1
  idle _ _ := True
  rely_refl _ _ := ProtocolRely.refl
  rely_trans _ _ _ _ _ := ProtocolRely.trans
  guar_rely _ _ _ _ _ _ htu hcd hi _ hg := hg.2.rely htu hcd hg.1 hi
  guar_idle _ _ _ _ _ _ _ _ _ := trivial
  body c t s _ _ _ _ := wp_conseq (ρ := protocolRules (tidyProtocol S hS) c.1 t)
    (fun _ _ _ h => admissible_tidy hS h) (fun _ => Iff.rfl) (fun _ _ h => h) (fun _ _ h => h)
    (wp_call opts c.2 s)
  boot s hs := by
    refine wp_mono ?_ (wp_openStore opts
      (D := fun s => ManifestsOk S s.manifests ∧ ∀ r, ¬ Stored s r)
      (fun _ _ hb h => ⟨hb.manifests S h.1, fun r hr => h.2 r ((hb.stored r).mp hr)⟩)
      (fun _ => Iff.rfl) (fun _ _ h => h) (fun _ _ => trivial) hs)
    intro b w h hb
    obtain ⟨hd, ho⟩ := h hb
    exact ⟨protocolInv_opened hS hd.1 hd.2 ho, fun _ => trivial, fun _ => trivial⟩
  crash_up _ _ _ hc := hc.elim
  crash_down _ _ _ hc := hc.elim

end Store

namespace Sample

attribute [local instance] primitives

def tidyCheck (s s' : World) : Bool :=
  decide (s.epoch = none ∨ s'.ghost.publishing = s.ghost.publishing ∧
    (s.ghost.sweeping = true → s'.epoch ≠ none) ∧
    (s'.epoch = s.epoch ∨ s'.epoch = none ∨ s'.epoch = some []))

theorem tidy_of_check {π : Protocol} {s s' : World} (h : tidyCheck s s' = true) : Tidy π s s' := by
  rcases of_decide_eq_true h with hnone | ⟨hpub, hsweep, hepoch⟩
  · exact ⟨fun _ h => absurd hnone h, fun l r h => (by rw [hnone] at h; cases h),
      fun t r _ h => absurd hnone h, fun t r _ _ h => absurd hnone h⟩
  · refine ⟨fun h _ => hsweep h, fun l r hl hl' => ?_, fun t r h => ?_, fun t r h h' => ?_⟩
    · rw [hl, hl'] at hepoch
      simp at hepoch
    · rw [hpub] at h
      exact absurd h.symm (List.cons_ne_self _ _)
    · rw [hpub] at h'
      exact absurd h h'

/-- A cycle removes page 7; it is ingested again, and the put does all but its last action. -/
def putAfterCycle : List (Cmd rootStore) :=
  [.boot quiet 100, .ready, .start ⟨.ingest [page 7], trivial⟩, .run 0 quiet 1000,
    .start ⟨.gcCycle cycle, trivial⟩, .run 1 quiet 1000,
    .start ⟨.ingest [page 7], trivial⟩, .run 2 quiet 1000,
    .start ⟨.putSnapshot container, Set.mem_singleton container⟩, .run 3 quiet 25]

def acked (c : rootStore.Call) (r : rootStore.Reply) : Bool :=
  match c.1, r with
  | .putSnapshot _, .putSnapshot (.ok q) => q = ref
  | _, _ => false

theorem put_of_acked {c : rootStore.Call} {r : rootStore.Reply} (h : acked c r = true) :
    (∃ b, c.1 = .putSnapshot b) ∧ r = .putSnapshot (.ok ref) := by
  unfold acked at h
  split at h
  · next hc => exact ⟨⟨_, hc⟩, by rw [of_decide_eq_true h]⟩
  · cases h

end Sample

end SnapStore

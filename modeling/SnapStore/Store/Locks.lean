import SnapStore.Gc.Outside
import SnapStore.System

/-!
# The order of the locks of the store

The commit gate comes before the group-commit flag, and that before the lock of the active pack.
`put_snapshot` takes them in this order and gives them back.
-/

namespace SnapStore

open Disk Conc

inductive StoreLock where
  | gate
  | flush
  | active

def storeLocks : Locks StoreLock World where
  rank
    | .gate => 0
    | .flush => 1
    | .active => 2
  size := 3
  rank_lt l := by cases l <;> decide
  owner
    | .gate, s => s.gate.writer
    | .flush, s => s.ghost.flusher
    | .active, s => s.activeLock
  inv s := s.ghost.flusher.isSome = s.commit.flushing

theorem still_of_part {s s' : World} (h : s'.lockPart = s.lockPart) : storeLocks.Still s s' := by
  simp only [World.lockPart, Prod.mk.injEq] at h
  obtain ⟨hgate, hflush, hactive, hflag⟩ := h
  refine ⟨fun hi => ?_, fun l => ?_⟩
  · change s'.ghost.flusher.isSome = s'.commit.flushing
    rw [hflush, hflag]
    exact hi
  · cases l with
    | gate => exact hgate
    | flush => exact hflush
    | active => exact hactive

section Combinators

variable {E E' α : Type} {t : Tid} {held : List StoreLock}

def Unlocked (p : P α) : Prop := Prompt storeLocks.Still p

def Balanced (t : Tid) (held : List StoreLock) (p : P α) : Prop :=
  storeLocks.Orderly t p held fun _ => held

theorem balanced_of {R : World → World → Prop} {p : P α}
    (hR : ∀ s u, R s u → u.lockPart = s.lockPart) (h : Prompt R p) : Balanced t held p :=
  have hunlocked : Unlocked p := h.mono fun s u hu => still_of_part (hR s u hu)
  hunlocked.orderly

theorem balanced_of_reads {p : P α} (h : Prompt Eq p) : Balanced t held p :=
  balanced_of (fun s u (heq : s = u) => by rw [heq]) h

theorem waitsOnce_withActive {R : World → World → Prop} {body : ExceptT E P α}
    (h : Prompt R body.run) :
    WaitsOnce (fun s : World => s.activeLock = none) (withActive t body).run := by
  refine WaitsOnce.bind (R := fun _ _ => True) (WaitsOnce.await fun o s hfree => ?_) fun _ => ?_
  · rw [hfree]
    rfl
  · exact Prompt.bind (h.mono fun _ _ _ => trivial) fun _ =>
      Prompt.bind (Prompt.atomic fun _ _ => trivial) fun _ => Prompt.ret _

theorem balanced_withError {g : E → E'} {x : ExceptT E P α} (h : Balanced t held x.run) :
    Balanced t held (withError g x).run := Locks.Orderly.bind h fun _ => rfl

theorem orderly_lockActive (hlow : ∀ l ∈ held, storeLocks.rank l < storeLocks.rank .active) :
    storeLocks.Orderly t (lockActive t) held fun _ => StoreLock.active :: held := by
  refine Locks.Orderly.acquire StoreLock.active hlow (fun o s _ hf => ?_) fun o s b s' hi hf => ?_
  · cases hl : s.activeLock with
    | none => simp [hl] at hf
    | some u => exact ⟨u, hl⟩
  · cases hl : s.activeLock with
    | some u => simp [hl] at hf
    | none =>
      simp only [hl, Option.some.injEq, Prod.mk.injEq] at hf
      obtain ⟨-, rfl⟩ := hf
      refine ⟨hi, hl, rfl, fun l hne => ?_⟩
      cases l with
      | gate => rfl
      | flush => rfl
      | active => exact absurd rfl hne

theorem orderly_unlockActive (hfresh : StoreLock.active ∉ held) :
    storeLocks.Orderly t unlockActive (StoreLock.active :: held) fun _ => held := by
  refine Locks.Orderly.release hfresh fun s hi => ⟨hi, rfl, fun l hne => ?_⟩
  cases l with
  | gate => rfl
  | flush => rfl
  | active => exact absurd rfl hne

theorem balanced_withActive {body : ExceptT E P α}
    (hlow : ∀ l ∈ held, storeLocks.rank l < storeLocks.rank .active)
    (h : Balanced t (StoreLock.active :: held) body.run) :
    Balanced t held (withActive t body).run := by
  refine Locks.Orderly.bind (orderly_lockActive hlow) fun _ => Locks.Orderly.bind h fun r => ?_
  exact Locks.Orderly.bind
    (orderly_unlockActive fun hmem => Nat.lt_irrefl _ (hlow _ hmem)) fun _ => rfl

theorem balanced_withCommitGate {body : ExceptT E P α} (h : Balanced t [] body.run) :
    Balanced t [] (withCommitGate t body).run := by
  refine Locks.Orderly.bind (Q := fun _ => []) ?_ fun _ => Locks.Orderly.bind h fun r =>
    Locks.Orderly.bind (Locks.Orderly.atomic fun _ _ => still_of_part rfl) fun _ => rfl
  refine Locks.Orderly.await (fun o s _ hf => ?_) fun o s b s' hi ho hf => ?_
  · cases hw : s.gate.writer with
    | none => simp [hw] at hf
    | some u => exact ⟨.gate, u, hw, by simp⟩
  · split at hf <;> cases hf
    have hstill : storeLocks.Still s { s with
        gate := { s.gate with readers := t :: s.gate.readers } } := still_of_part rfl
    exact ⟨hstill.1 hi, ho.still hstill.2⟩

end Combinators

variable {t : Tid} {held : List StoreLock}

namespace PageStore

theorem balanced_sync (hlow : ∀ l ∈ held, storeLocks.rank l < storeLocks.rank .active) :
    Balanced t held (sync t).run :=
  balanced_withActive hlow (balanced_of (R := PackMove) (fun _ _ h => h.locks)
    (Prompt.bindE (packMove_onWriter _) fun _ => syncStep_afterFlush.mono SyncStep.packMove))

section Rotation

variable [Primitives]

theorem waitsOnce_ingest (opts : StoreOptions) (t : Tid) (pages : List Page) :
    WaitsOnce (fun s : World => s.activeLock = none) (ingest opts t pages).run := by
  unfold ingest
  split
  · exact True.intro
  · refine WaitsOnce.afterE (reads_observe _) fun order =>
      WaitsOnce.afterE (Prompt.foldlME reads_probe _ _) fun found =>
        WaitsOnce.bindE ?_ fun outcomes => Prompt.foldlME reads_fillOutcome _ _
    unfold writeMissing
    split
    · exact True.intro
    · exact waitsOnce_withActive (Prompt.foldlME (ingestMove_ingestOne opts pages) _ _)

end Rotation

end PageStore

namespace SnapshotStore

theorem balanced_barrier (hashes : List PageHash) {sync : PE Unit}
    (h : Balanced t [.flush] sync.run) : Balanced t [] (barrier t hashes sync).run := by
  refine Locks.Orderly.bindE (balanced_of (R := fun s u => u.lockPart = s.lockPart)
    (fun _ _ => id) (prompt_action fun o s => rfl)) fun gen => ?_
  refine Locks.Orderly.bind (Q := fun res =>
    if (res.toOption.bind id).isSome then [.flush] else []) ?_ fun res => ?_
  · refine Locks.Orderly.await (fun o s hi hf => ?_) fun o s b s' hi ho hf => ?_
    · split at hf
      · cases hf
      · split at hf
        · next hflag =>
          have hsome : s.ghost.flusher.isSome = true := Eq.trans hi hflag
          obtain ⟨u, hu⟩ := Option.isSome_iff_exists.mp hsome
          exact ⟨.flush, u, hu, by simp⟩
        · cases hf
    · split at hf
      · cases hf
        exact ⟨hi, ho.still fun _ => rfl⟩
      · split at hf <;> cases hf
        next hflag =>
        have hnone : s.ghost.flusher = none := by
          rw [← Option.not_isSome_iff_eq_none]
          exact fun hsome => hflag (Eq.trans (Eq.symm hi) hsome)
        refine ⟨rfl, ho.take (l := StoreLock.flush) hnone rfl fun l hne => ?_⟩
        cases l with
        | gate => rfl
        | flush => exact absurd rfl hne
        | active => rfl
  · rcases res with e | _ | n
    · exact rfl
    · exact rfl
    · refine Locks.Orderly.bind h fun r => Locks.Orderly.bind (Q := fun _ => []) ?_ fun _ => rfl
      refine Locks.Orderly.release (by simp) fun s _ => ⟨rfl, rfl, fun l hne => ?_⟩
      cases l with
      | gate => rfl
      | flush => exact absurd rfl hne
      | active => rfl

theorem CommitMove.locks (s u : World) (h : CommitMove s u) : u.lockPart = s.lockPart := by
  obtain ⟨_, _, _, _, _, _, _, _, _, rfl⟩ := h
  rfl

variable [Primitives]

theorem balanced_putSnapshot (c : Bytes) : Balanced t [] (putSnapshot t c).run := by
  refine Locks.Orderly.bindE rfl fun m => balanced_withCommitGate ?_
  refine Locks.Orderly.bindE (balanced_of_reads (reads_checkParent m)) fun _ =>
    Locks.Orderly.bindE (balanced_of_reads (reads_containsBatch _)) fun present => ?_
  dsimp only
  split
  · exact Locks.Orderly.throwE _
  · refine Locks.Orderly.bindE (balanced_withError (balanced_barrier _
      (PageStore.balanced_sync ?_))) fun _ =>
        balanced_of CommitMove.locks (commitMove_commit t c m)
    intro l hl
    cases List.mem_singleton.mp hl
    decide

end SnapshotStore

end SnapStore

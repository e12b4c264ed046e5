import SnapStore.Gc.Compaction

/-!
# The sweep of a pack

Under the sweep gate the index entries of the pack move to the copies or go away, and then the
pack is unlinked.  A whole collection keeps the invariant of the page store.
-/

namespace SnapStore

open Disk Conc

namespace Sharing

variable [Primitives] {cap : Nat} {collects : Prop} {t : Tid} {s s' : World}
  {fence p : PackId} {es copied dead : List (PageHash × PageLoc)} {E α : Type}
  {opts : StoreOptions} {R : PageHash → Prop}

/-! ## Index entries -/

theorem inv_index (hc : collects) (hi : Inv cap s) {ix : Index} {k : Ghost}
    (hk : k.gcPacks = s.ghost.gcPacks)
    (hsame : ∀ h l, Owned s l.pack → (ix.get h = some l ↔ s.index.get h = some l))
    (habsent : ∀ h, s.index.get h = none → ix.get h = none)
    (hloc : ∀ h l, ix.get h = some l → Located s h l) :
    Inv cap { s with index := ix, ghost := k } ∧
      Guar collects t s { s with index := ix, ghost := k } := by
  have hbase : Base cap { s with index := ix, ghost := k } :=
    { hi.toBase with
      gc := fun g hg => hi.gc g (hk ▸ hg)
      own := fun hg => hi.own (hk ▸ hg)
      located := hloc }
  have hund : Undisturbed s { s with index := ix, ghost := k } := by
    refine ⟨rfl, rfl, hk, fun q hq => ⟨fun _ _ => rfl, fun _ _ _ _ => rfl, fun h l hl => ?_⟩, habsent⟩
    subst hl
    exact hsame h l hq
  refine ⟨⟨hbase, fun hl => ?_⟩, ⟨fun _ _ _ => hund, fun _ _ => id, fun hn => absurd hc hn⟩⟩
  obtain ⟨rs, hrs⟩ := hi.settled hl
  exact ⟨rs, hund.settled hbase hrs⟩

structure Moving (fence p : PackId) (copied : List (PageHash × PageLoc)) (R : PageHash → Prop)
    (s : World) : Prop where
  low : p < fence
  past : fence ≤ s.active.packId
  copies : ∀ e ∈ copied, CopiedTo fence e s
  left : ∀ h l, s.index.get h = some l → l.pack = p → R h

theorem Sweep.moving (h : Sweep fence p es copied s) (hR : ∀ e ∈ es, R e.1) :
    Moving fence p copied R s :=
  ⟨h.low, h.past, h.copies, fun k l hk hl => hR (k, l) ((h.entries k l hl).mp hk)⟩

namespace Moving

theorem compatible (h : Moving fence p copied R s) (hc : Compatible s s') :
    Moving fence p copied R s' where
  low := h.low
  past := le_trans h.past hc.active
  copies e he := by
    obtain ⟨habove, hgc, b, hread, hrec⟩ := h.copies e he
    refine ⟨habove, hc.gc ▸ hgc, b, ?_, hrec⟩
    rw [(hc.packs _ (not_owned_gc hgc)).readName rfl]
    exact hread
  left k l hk hl :=
    h.left k l (((hc.packs p (not_owned_below h.low h.past)).index k l hl).mp hk) hl

theorem apart (h : Moving fence p copied R s) (ha : Apart s s') : Moving fence p copied R s' :=
  h.compatible (.of_eq ha.pages ha.index (le_of_eq (by rw [ha.active])) ha.gc)

theorem stable (hc : collects) : Stable (rules cap collects t) (Moving fence p copied R) :=
  fun _ _ hs hr _ => hs.compatible (hr.2 hc)

theorem setIndex {R' : PageHash → Prop} {ix : Index} {k : Ghost} (h : Moving fence p copied R s)
    (hk : k.gcPacks = s.ghost.gcPacks) (hleft : ∀ h l, ix.get h = some l → l.pack = p → R' h) :
    Moving fence p copied R' { s with index := ix, ghost := k } where
  low := h.low
  past := h.past
  copies e he := by
    obtain ⟨habove, hgc, hfile⟩ := h.copies e he
    exact ⟨habove, hk ▸ hgc, hfile⟩
  left := hleft

end Moving

theorem wpOr_repoint (hc : collects) {e : PageHash × PageLoc} (he : e ∈ copied)
    (hs : Moving fence p copied R s) :
    wpOr (rules cap collects t) (fun _ _ => True) (Gc.repointIfInPack p e)
      (fun _ u => Moving fence p copied (fun h => R h ∧ h ≠ e.1) u) s := by
  refine wp_atomic (Moving.stable hc) hs fun o u hi hu _ => ?_
  have hcopy := hu.copies e he
  have hnew : e.2.pack ≠ p := Nat.ne_of_gt (lt_trans hu.low hcopy.above)
  have hsame : ∀ h l, Owned u l.pack →
      ((u.index.repointIfInPack e.1 p e.2).get h = some l ↔ u.index.get h = some l) := by
    intro h l hl
    rw [Index.get_repoint]
    split
    · next hmoved =>
      obtain ⟨rfl, l₀, hl₀, hp⟩ := hmoved
      refine iff_of_false (fun heq => ?_) fun hget => ?_
      · cases heq
        exact hl.2 hcopy.gc
      · rw [hl₀] at hget
        cases hget
        exact not_owned_below hu.low hu.past (hp ▸ hl)
    · exact Iff.rfl
  have habsent : ∀ h, u.index.get h = none → (u.index.repointIfInPack e.1 p e.2).get h = none := by
    intro h hh
    rw [Index.get_repoint, if_neg]
    · exact hh
    · rintro ⟨rfl, l, hl, -⟩
      rw [hh] at hl
      cases hl
  have hloc : ∀ h l, (u.index.repointIfInPack e.1 p e.2).get h = some l → Located u h l := by
    intro h l hl
    rw [Index.get_repoint] at hl
    split at hl
    · next hmoved =>
      obtain ⟨rfl, -⟩ := hmoved
      cases hl
      exact hcopy.located hi.toBase
    · exact hi.located h l hl
  obtain ⟨hinv, hguar⟩ : _ ∧ Guar collects t u _ :=
    inv_index (k := u.ghost.swept) hc hi rfl hsame habsent hloc
  refine ⟨hinv, hguar, hu.setIndex rfl fun h l hl hlp => ?_⟩
  rw [Index.get_repoint] at hl
  split at hl
  · cases hl
    exact absurd hlp hnew
  · next hne =>
    refine ⟨hu.left h l hl hlp, fun heq => hne ⟨heq, l, ?_, hlp⟩⟩
    rw [← heq]
    exact hl

theorem wpOr_remove (hc : collects) (h : PageHash) (hs : Moving fence p copied R s) :
    wpOr (rules cap collects t) (fun _ _ => True) (Gc.removeIfInPack p h)
      (fun _ u => Moving fence p copied (fun k => R k ∧ k ≠ h) u) s := by
  refine wp_atomic (Moving.stable hc) hs fun o u hi hu _ => ?_
  dsimp only
  split
  · next loc hloc =>
    split
    · next hp =>
      have hget : ∀ k, (u.index.removeIfInPack h p).get k = if k = h then none else u.index.get k := by
        intro k
        rw [Index.get_remove]
        by_cases hk : k = h
        · rw [if_pos hk, if_pos ⟨hk, loc, hloc, hp⟩]
        · rw [if_neg hk, if_neg fun hc => hk hc.1]
      have hsame : ∀ k l, Owned u l.pack →
          ((u.index.removeIfInPack h p).get k = some l ↔ u.index.get k = some l) := by
        intro k l hl
        rw [hget]
        split
        · next heq =>
          subst heq
          refine iff_of_false (fun hn => by cases hn) fun hk => ?_
          rw [hloc] at hk
          cases hk
          exact not_owned_below hu.low hu.past (hp ▸ hl)
        · exact Iff.rfl
      have hsub : ∀ k l, (u.index.removeIfInPack h p).get k = some l →
          u.index.get k = some l ∧ k ≠ h := by
        intro k l hk
        rw [hget] at hk
        split at hk
        · cases hk
        · next hne => exact ⟨hk, hne⟩
      obtain ⟨hinv, hguar⟩ : _ ∧ Guar collects t u _ :=
        inv_index (k := u.ghost.removed h) hc hi rfl hsame
          (fun k hk => by rw [hget, hk, ite_self]) fun k l hk => hi.located k l (hsub k l hk).1
      exact ⟨hinv, hguar, hu.setIndex rfl fun k l hk hl =>
        ⟨hu.left k l (hsub k l hk).1 hl, (hsub k l hk).2⟩⟩
    · next hp =>
      refine ⟨hi, .refl u, hu.low, hu.past, hu.copies, fun k l hk hl => ⟨hu.left k l hk hl, ?_⟩⟩
      rintro rfl
      rw [hloc] at hk
      cases hk
      exact hp hl
  · next hnone =>
    refine ⟨hi, .refl u, hu.low, hu.past, hu.copies, fun k l hk hl => ⟨hu.left k l hk hl, ?_⟩⟩
    rintro rfl
    rw [hnone] at hk
    cases hk

abbrev Emptied (fence p : PackId) : World → Prop := Moving fence p [] fun _ => False

def Ready (es copied dead : List (PageHash × PageLoc)) (live : LiveSet) : Prop :=
  ∀ e ∈ es, e.1 ∈ copied.map Prod.fst ∨ e ∈ dead ∧ e.1 ∉ live.pages

theorem wpOr_applyFinalize (hc : collects) {live : LiveSet} (hs : Sweep fence p es copied s)
    (hready : Ready es copied dead live) :
    wpOr (rules cap collects t) (fun _ _ => True) (Gc.applyFinalize p copied dead live)
      (fun _ u => Emptied fence p u) s := by
  refine wpOr_bind (wpOr_foldlM (fun _ rest u => (∀ e ∈ rest, e ∈ copied) ∧
    Moving fence p copied (fun h => h ∈ rest.map Prod.fst ∨ h ∈ dead.map Prod.fst ∧
      h ∉ live.pages) u) (fun _ e rest u hu => ?_) copied () s ⟨fun _ => id, hs.moving fun e he => ?_⟩)
    fun _ u hu => ?_
  · obtain ⟨hrest, hu⟩ := hu
    obtain ⟨he, hrest⟩ := List.forall_mem_cons.mp hrest
    refine wpOr_mono (wpOr_repoint hc he hu) fun _ v hv => ⟨hrest, { hv with left := ?_ }⟩
    intro h l hl hlp
    obtain ⟨hR, hne⟩ := hv.left h l hl hlp
    refine hR.imp_left fun hmem => ?_
    rw [List.map_cons, List.mem_cons] at hmem
    exact hmem.resolve_left hne
  · exact (hready e he).imp_right fun hd => ⟨List.mem_map_of_mem hd.1, hd.2⟩
  refine wpOr_mono (wpOr_foldlM (fun _ rest u => Moving fence p [] (fun h =>
    h ∈ rest.map Prod.fst ∧ h ∉ live.pages) u) (fun _ e rest u hu => ?_) dead () u ?_)
    fun _ v hv => { hv with left := fun h l hl hlp => by simpa using (hv.left h l hl hlp).1 }
  · split
    · next hlive =>
      refine wpOr_pure { hu with left := fun h l hl hlp => ?_ }
      obtain ⟨hmem, hdead⟩ := hu.left h l hl hlp
      rw [List.map_cons, List.mem_cons] at hmem
      refine ⟨hmem.resolve_left fun heq => hdead ?_, hdead⟩
      rw [heq]
      exact hlive
    · refine wpOr_mono (wpOr_remove hc e.1 hu) fun _ v hv =>
        { hv with left := fun h l hl hlp => ?_ }
      obtain ⟨⟨hmem, hdead⟩, hne⟩ := hv.left h l hl hlp
      rw [List.map_cons, List.mem_cons] at hmem
      exact ⟨hmem.resolve_left hne, hdead⟩
  · obtain ⟨-, hu⟩ := hu
    refine ⟨hu.low, hu.past, by simp, fun h l hl hlp => ?_⟩
    exact (hu.left h l hl hlp).resolve_left (by simp)

/-! ## The straggler loop -/

theorem wpOr_withSweepGate {body : ExceptT E P α} {A : World → Prop} {Q : α → World → Prop}
    (hA : Stable (rules cap collects t) A) (hAa : ∀ u v, Apart u v → A u → A v)
    (hQ : ∀ a, Stable (rules cap collects t) (Q a)) (hQa : ∀ a u v, Apart u v → Q a u → Q a v)
    (hs : A s) (h : ∀ u, A u → wpOr (rules cap collects t) (fun _ _ => True) body Q u) :
    wpOr (rules cap collects t) (fun _ _ => True) (withSweepGate t body) Q s := by
  have hunlock := apart_gate gateMove_unlockGateWrite
  refine wp_bind (wp_mono (fun _ u hu => ?_) (wp_apart (F := A)
    (apart_gate gateMove_lockGateWrite) hA hAa hs))
  refine wp_bind (wp_mono (fun r v hr => ?_) (h u hu))
  cases r with
  | ok a => exact wp_bind (wp_mono (fun _ _ hw => hw) (wp_apart (F := Q a) hunlock (hQ a) (hQa a) hr))
  | error e => exact wp_bind (wp_mono (fun _ _ _ => trivial) (wp_apart (F := fun _ => True) hunlock
      stable_true (fun _ _ _ => id) trivial))

def Drained (fence p : PackId) (es copied : List (PageHash × PageLoc)) (late : List SnapshotRef)
    (s : World) : Prop :=
  late = [] ∧ Emptied fence p s ∨ late ≠ [] ∧ Sweep fence p es copied s

theorem wpOr_drainOrFinalize (hc : collects) {live : LiveSet} (hs : Sweep fence p es copied s)
    (hready : Ready es copied dead live) :
    wpOr (rules cap collects t) (fun _ _ => True) (Gc.drainOrFinalize t p copied dead live)
      (fun late u => Drained fence p es copied late u) s := by
  refine wpOr_withSweepGate (Sweep.stable hc) (fun _ _ ha hu => hu.apart ha)
    (fun late u v hu hr hi => ?_) (fun late u v ha hu => ?_) hs fun u hu => ?_
  · exact hu.imp (.imp_right fun h => Moving.stable hc u v h hr hi)
      (.imp_right fun h => Sweep.stable hc u v h hr hi)
  · exact hu.imp (.imp_right fun h => h.apart ha) (.imp_right fun h => h.apart ha)
  refine wpOr_bind (wpOr_apart (apart_outside Outside.drainLateRoots) (Sweep.stable hc)
    (fun _ _ ha hu => hu.apart ha) hu) fun late v hv => ?_
  split
  · exact wpOr_bind (wpOr_applyFinalize hc hv hready) fun _ w hw => wpOr_pure (.inl ⟨rfl, hw⟩)
  · next hne => exact wpOr_pure (.inr ⟨hne, hv⟩)

theorem wpOr_copyIfAny (hc : collects) (hcap : packHeaderSize ≤ cap)
    (hopts : opts.maxPackBytes ≤ cap) {records : List (PageHash × PageLoc)}
    (hs : Sweep fence p es copied s) :
    wpOr (rules cap collects t) (fun _ _ => True) (Gc.copyIfAny opts t records)
      (fun more u => Sweep fence p es (copied ++ more) u ∧
        more.map Prod.fst = records.map Prod.fst) s := by
  unfold Gc.copyIfAny
  split
  · next hnil =>
    subst hnil
    refine wpOr_pure ⟨?_, rfl⟩
    rw [List.append_nil]
    exact hs
  · exact wpOr_copyRecords hc hcap hopts hs

omit [Primitives] in
theorem Ready.more {live live' : LiveSet} {more : List (PageHash × PageLoc)}
    (h : Ready es copied dead live)
    (hmore : more.map Prod.fst = (dead.filter fun e => e.1 ∈ live'.pages ∧
      ¬ copied.any fun c => c.1 = e.1).map Prod.fst) :
    Ready es (copied ++ more) dead live' := by
  intro e he
  rw [List.map_append, List.mem_append]
  rcases h e he with hcopied | ⟨hdead, -⟩
  · exact .inl (.inl hcopied)
  · by_cases hlive : e.1 ∈ live'.pages
    · refine .inl ?_
      by_cases hany : copied.any (fun c => c.1 = e.1) = true
      · obtain ⟨c, hc, heq⟩ := List.any_eq_true.mp hany
        exact .inl (List.mem_map.mpr ⟨c, hc, of_decide_eq_true heq⟩)
      · refine .inr (hmore ▸ List.mem_map_of_mem (List.mem_filter.mpr ⟨hdead, ?_⟩))
        exact decide_eq_true ⟨hlive, hany⟩
    · exact .inr ⟨hdead, hlive⟩

theorem wpOr_finalize (hc : collects) (hcap : packHeaderSize ≤ cap)
    (hopts : opts.maxPackBytes ≤ cap) (rounds : Nat) {st : MarkState}
    (hs : Sweep fence p es copied s) (hready : Ready es copied dead st.1) :
    wpOr (rules cap collects t) (fun _ _ => True) (Gc.finalize opts t p dead rounds copied st)
      (fun _ u => Emptied fence p u) s := by
  induction rounds generalizing copied st s with
  | zero => exact wp_stuck
  | succ rounds ih =>
    obtain ⟨live, report⟩ := st
    refine wpOr_bind (wpOr_drainOrFinalize hc hs hready) fun late u hu => ?_
    rcases hu with ⟨hnil, hempty⟩ | ⟨hne, hu⟩
    · rw [if_pos hnil]
      exact wpOr_pure hempty
    · rw [if_neg hne]
      refine wpOr_bind (wpOr_apart (apart_outside (Outside.mark late _)) (Sweep.stable hc)
        (fun _ _ ha hu => hu.apart ha) hu) fun st' v hv => ?_
      obtain ⟨live', report'⟩ := st'
      exact wpOr_bind (wpOr_copyIfAny hc hcap hopts hv) fun more w hw =>
        ih hw.1 (hready.more hw.2)

/-! ## Unlinking -/

theorem owner_emptied (hc : collects) :
    Owner cap collects t p (fun n => n.pack = p) (Emptied fence p) where
  pack _ hn := hn
  mine _ _ hu := .inr ⟨hc, not_owned_below hu.low hu.past⟩
  stable G hG := by
    intro u v ⟨hu, hg⟩ hr _
    have hcompat : Compatible u v := hr.2 hc
    exact ⟨hu.compatible hcompat, hG u v (hcompat.packs p (not_owned_below hu.low hu.past)) hg⟩
  keep _ _ _ _ hu _ _ := ⟨hu.low, hu.past, by simp, hu.left⟩

theorem base_unlink {k : Ghost} (hb : Base cap s) (hs : Emptied fence p s)
    (hk : k.gcPacks = s.ghost.gcPacks) (hidx : s.pages.lookup (.idx p) = none) :
    Base cap { s with pages := s.pages.unlink (.spk p), ghost := k } := by
  have hframe := FileSys.SameBut.unlink hb.disk.unaliased (.spk p)
  have hgone : (s.pages.unlink (.spk p)).lookup (.spk p) = none := by
    rw [FileSys.lookup_unlink, if_pos rfl]
  have hne : p ≠ s.active.packId := Nat.ne_of_lt (lt_of_lt_of_le hs.low hs.past)
  have hlookup : ∀ q, q ≠ p → (s.pages.unlink (.spk p)).lookup (.spk q) = s.pages.lookup (.spk q) :=
    fun q hq => hframe.lookup _ (by simpa using hq)
  refine { hb with
    disk := ?_
    below := fun q hq => ?_
    file := (hlookup _ hne.symm).trans hb.file
    gc := fun g hg => hb.gc g (hk ▸ hg)
    own := fun hg => hb.own (hk ▸ hg)
    located := fun h l hl => ?_ }
  · refine hb.disk.setPack hframe hidx (fun b hread => ?_) fun hsome => ?_
    · rw [FileSys.readName, hgone] at hread
      cases hread
    · rw [hgone] at hsome
      cases hsome
  · by_cases hq' : q = p
    · rw [hq']
      exact hgone
    · exact (hlookup q hq').trans (hb.below q hq)
  · obtain ⟨b, hbytes, hrec⟩ := hb.located h l hl
    have hlp : l.pack ≠ p := fun heq => hs.left h l hl heq
    refine ⟨b, ?_, hrec⟩
    show ((s.pages.unlink (.spk p)).readName _).map _ = _
    rw [hframe.readName (by simpa using hlp)]
    exact hbytes

theorem wpOr_deletePack (hc : collects) (hs : Emptied fence p s) :
    wpOr (rules cap collects t) (fun _ _ => True) (PageStore.deletePack t p)
      (fun _ u => Emptied fence p u) s := by
  refine wpOr_bind (wpOr_withActive (Q := fun _ u => Emptied fence p u) (Moving.stable hc) hs
    (fun _ => Moving.stable hc) (fun _ u hu => ⟨hu.low, hu.past, by simp, hu.left⟩)
    fun u _ hu hhold => ?_) fun _ u hu => ?_
  · refine wp_atomic (P := fun v => Holding cap t v ∧ Emptied fence p v)
      (stable_order.and (Moving.stable hc)) ⟨hhold, hu.low, hu.past, by simp, hu.left⟩
      fun o v hi hv _ => ?_
    obtain ⟨⟨rs, hl, hset⟩, hv⟩ := hv
    have hbase : Base cap { v with active :=
      { v.active with dirtySinceSync := v.active.dirtySinceSync.erase p } } := { hi.toBase with }
    exact ⟨.of_locked hbase hl, .of_holder hl hl fun _ => .of_eq rfl rfl le_rfl rfl,
      ⟨rs, hl, hset.congr rfl rfl rfl rfl⟩, hv.low, hv.past, by simp, hv.left⟩
  have hO : Owner cap collects t p (fun n => n.pack = p) (Emptied fence p) := owner_emptied hc
  have hstable : Stable (rules cap collects t) fun u => Emptied fence p u ∧
      u.pages.lookup (.idx p) = none := hO.stable _ fun u v h hu => (h.lookup _ rfl).trans hu
  refine wpOr_bind (R := fun _ u => Emptied fence p u ∧ u.pages.lookup (.idx p) = none)
    (wpOr_attempt (Moving.stable hc) hu (fun o u _ v _ hi hu hf => ?_) fun _ _ _ _ => trivial)
    fun _ u hu => ?_
  · split at hf <;> cases hf
    · next hnone => exact ⟨hi, .refl u, hu, hnone⟩
    · have hframe := FileSys.SameBut.unlink hi.disk.unaliased (.idx p)
      have hsub : u.pages.SameBut (IsSidecar p) (u.pages.unlink (.idx p)) :=
        hframe.mono fun n hn => .inr hn
      have hgone : (u.pages.unlink (.idx p)).lookup (.idx p) = none := by
        rw [FileSys.lookup_unlink, if_pos rfl]
      have hd : DiskSound cap (u.pages.unlink (.idx p)) := by
        refine hi.disk.setSidecar hsub fun b hread => ?_
        rw [FileSys.readName, hgone] at hread
        cases hread
      obtain ⟨hinv, hguar, hF⟩ := hO.step (g := u.ghost) hi hu rfl
        (hframe.mono fun n hn => by rw [hn]; rfl) (base_sidecar hi.toBase rfl hsub hd)
      exact ⟨hinv, hguar, hF, hgone⟩
  refine wpOr_bind (R := fun _ u => Emptied fence p u)
    (wpOr_attempt hstable hu (fun o u _ v _ hi hu hf => ?_) fun _ _ _ _ => trivial)
    fun _ u hu => ?_
  · split at hf <;> cases hf
    · exact ⟨hi, .refl u, hu.1⟩
    · exact hO.step (g := u.ghost.swept) hi hu.1 rfl ((FileSys.SameBut.unlink hi.disk.unaliased
        (.spk p)).mono fun n hn => by rw [hn]; rfl) (base_unlink hi.toBase hu.1 rfl hu.2)
  · refine wpOr_attempt (Moving.stable hc) hu (fun o u _ v _ hi hu hf => ?_) fun _ _ _ _ => trivial
    split at hf <;> cases hf
    have hrests : Rests u { u with pages := u.pages.fsyncDir fun _ => true } :=
      ⟨fun hu => .fsyncDir hu fun _ => true, rfl, rfl, rfl, rfl, rfl, rfl⟩
    exact hO.step (g := u.ghost) hi hu rfl (.fsyncDir hi.disk.unaliased fun _ => true)
      (hrests.base hi.toBase)

/-! ## A collection -/

def Past (fence : PackId) (s : World) : Prop := fence ≤ s.active.packId

omit [Primitives] in
theorem Past.apart (u v : World) (ha : Apart u v) (h : Past fence u) : Past fence v := by
  rw [Past, ha.active]
  exact h

theorem stable_past (hc : collects) : Stable (rules cap collects t) (Past fence) :=
  fun _ _ hs hr _ => le_trans hs (hr.2 hc).active

theorem wpOr_finalizeAndUnlink (hc : collects) (hcap : packHeaderSize ≤ cap)
    (hopts : opts.maxPackBytes ≤ cap) (so : SweepOpts) {st : MarkState}
    (hs : Sweep fence p es copied s) (hready : Ready es copied dead st.1) :
    wpOr (rules cap collects t) (fun _ _ => True)
      (Gc.finalizeAndUnlink opts so t p copied dead st) (fun _ u => Past fence u) s := by
  refine wpOr_bind (wpOr_finalize hc hcap hopts so.rounds hs hready) fun st' u hu => ?_
  refine wpOr_bind (PageStore.wpOr_withError (wpOr_apart (apart_outside (Outside.of_cache (PageStore.cacheMove_invalidate p)))
    (Moving.stable hc) (fun _ _ ha hu => hu.apart ha) hu)) fun _ u hu => ?_
  exact wpOr_bind (PageStore.wpOr_withError (wpOr_deletePack hc hu)) fun _ u hu =>
    wpOr_pure hu.past

theorem wpOr_sweepOnePack (hc : collects) (hcap : packHeaderSize ≤ cap)
    (hopts : opts.maxPackBytes ≤ cap) (so : SweepOpts) (st : MarkState) (hp : p < fence)
    (hs : Past fence s) :
    wpOr (rules cap collects t) (fun _ _ => True) (Gc.sweepOnePack opts so t st p)
      (fun _ u => Past fence u) s := by
  have hstable : Stable (rules cap collects t) fun u => Past fence u ∧
      ∀ h l, l.pack = p → (u.index.get h = some l ↔ s.index.get h = some l) := by
    intro u v hu hr hi
    have hcompat : Compatible u v := hr.2 hc
    exact ⟨stable_past hc u v hu.1 hr hi, fun h l hl =>
      ((hcompat.packs p (not_owned_below hp hu.1)).index h l hl).trans (hu.2 h l hl)⟩
  refine wpOr_bind (PageStore.wpOr_withError (wpOr_packEntries
    (A := fun h l => s.index.get h = some l) hstable (fun u _ hu h l hl => hu.2 h l hl)
    ⟨hs, fun _ _ _ => Iff.rfl⟩)) fun es u hu => ?_
  have hsweep : Sweep fence p es [] u := by
    refine ⟨hp, hu.1.1, fun h l hl => ?_, by simp⟩
    rw [hu.1.2 h l hl, hu.2.1 h l]
    exact (and_iff_right hl).symm
  refine wpOr_bind (PageStore.wpOr_withError (wpOr_observe (Q := fun _ u => Sweep fence p es [] u)
    (Sweep.stable hc) hsweep (fun _ _ _ _ hu _ => hu) fun _ _ _ _ => trivial)) fun scanned u hu => ?_
  dsimp only
  split
  · next hnil =>
    refine wpOr_bind (wpOr_finalizeAndUnlink hc hcap hopts so hu ?_) fun st' v hv => wpOr_pure hv
    rw [hnil.2]
    intro e he
    cases he
  · split
    · exact wpOr_pure hu.past
    · refine wpOr_bind (wpOr_copyIfAny hc hcap hopts hu) fun copied v hv => ?_
      refine wpOr_bind (wpOr_finalizeAndUnlink hc hcap hopts so hv.1 ?_) fun st' w hw => wpOr_pure hw
      intro e he
      by_cases hlive : e.1 ∈ st.1.pages
      · refine .inl ?_
        rw [hv.2]
        exact List.mem_map_of_mem (List.mem_filter.mpr ⟨he, decide_eq_true hlive⟩)
      · exact .inr ⟨List.mem_filter.mpr ⟨he, decide_eq_true hlive⟩, hlive⟩

theorem wpOr_activePackId (hc : collects) (hs : Past fence s) :
    wpOr (rules cap collects t) (fun _ _ => True) (PageStore.activePackId t)
      (fun id u => Past fence u ∧ Past id u) s := by
  refine wpOr_withActive (stable_past hc) hs (fun id => (stable_past hc).and (stable_past hc))
    (fun _ _ => id) fun u _ hu hhold => ?_
  exact wpOr_read (P := fun v => Holding cap t v ∧ Past fence v)
    (stable_order.and (stable_past hc)) ⟨hhold, hu⟩ fun v _ hv => ⟨hv.1, hv.2, le_rfl⟩

theorem wpOr_fence (hc : collects) :
    wpOr (rules cap collects t) (fun _ _ => True) (PageStore.activePackId t)
      (fun id u => Past id u) s := by
  have hzero : Past 0 s := Nat.zero_le _
  exact wpOr_mono (wpOr_activePackId hc hzero) fun _ _ hu => hu.2

theorem wpOr_sweepPacks (hc : collects) (hcap : packHeaderSize ≤ cap)
    (hopts : opts.maxPackBytes ≤ cap) (so : SweepOpts) (st : MarkState) (hs : Past fence s) :
    wpOr (rules cap collects t) (fun _ _ => True) (Gc.sweepPacks opts so t fence st)
      (fun _ _ => True) s := by
  refine wpOr_bind (R := fun _ u => Past fence u) (PageStore.wpOr_withError ?_) fun packs u hu => ?_
  · refine wpOr_bind (wpOr_activePackId hc hs) fun id u hu => ?_
    exact wpOr_bind (R := fun _ u => Past fence u) (wpOr_observe (stable_past hc) hu.1
      (fun _ _ _ _ hu _ => hu) fun _ _ _ _ => trivial) fun _ u hu => wpOr_pure hu
  · refine wpOr_mono (wpOr_foldlM (fun _ rest u => (∀ p ∈ rest, p < fence) ∧ Past fence u)
      (fun st p rest u hu => ?_) _ st u ⟨fun p hp => ?_, hu⟩) fun _ _ _ => trivial
    · obtain ⟨hrest, hu⟩ := hu
      obtain ⟨hp, hrest⟩ := List.forall_mem_cons.mp hrest
      exact wpOr_mono (wpOr_sweepOnePack hc hcap hopts so st hp hu) fun _ _ hv => ⟨hrest, hv⟩
    · exact of_decide_eq_true (List.mem_filter.mp hp).2

theorem wpOr_safe {x : ExceptT E P α} (h : Safe cap collects t x.run) :
    wpOr (rules cap collects t) (fun _ _ => True) x (fun _ _ => True) s :=
  preserves_iff.mp h s trivial

theorem safe_of_wpOr {x : ExceptT E P α}
    (h : ∀ s, wpOr (rules cap collects t) (fun _ _ => True) x (fun _ _ => True) s) :
    Safe cap collects t x.run := preserves_iff.mpr fun s _ => h s

theorem wpOr_collect (hc : collects) (hcap : packHeaderSize ≤ cap)
    (hopts : opts.maxPackBytes ≤ cap) (so : SweepOpts) (roots : List SnapshotRef)
    (hs : Past fence s) :
    wpOr (rules cap collects t) (fun _ _ => True) (Server.collect opts so t fence roots)
      (fun _ _ => True) s := by
  refine wpOr_bind (wpOr_apart (apart_outside (Outside.mark roots _)) (stable_past hc) Past.apart hs)
    fun st u hu => wpOr_bind (wpOr_sweepPacks hc hcap hopts so st hu) fun st u _ => ?_
  exact wpOr_bind (wpOr_safe (safe_apart (apart_outside (Outside.sweepManifests so t st))))
    fun _ _ _ => wpOr_pure trivial

theorem wpOr_beginGcEpoch (hc : collects) :
    wpOr (rules cap collects t) (fun _ _ => True) (Server.beginGcEpoch t)
      (fun x u => Past x.1 u) s := by
  refine wpOr_withSweepGate (A := fun _ => True) stable_true (fun _ _ _ => id)
    (fun x => stable_past hc) (fun x => Past.apart) trivial fun u _ => ?_
  refine wpOr_bind (PageStore.wpOr_withError (wpOr_fence hc))
    fun fence u hu => wpOr_bind (wpOr_apart (within_action fun o v => ?_) (stable_past hc)
      Past.apart hu) fun _ u hu => ?_
  · split <;> exact ⟨rfl, rfl, rfl, rfl, rfl⟩
  · refine wp_bind (wp_mono (fun r v hv => ?_) (wp_apart (within_observe Apart.refl)
      (stable_past hc) Past.apart hu))
    cases r with
    | ok roots => exact wp_ret hv
    | error e => exact wp_bind (wp_mono (fun _ _ _ => trivial) (wp_apart
        (apart_outside Outside.endGcEpoch) (stable_past hc) Past.apart hv))

theorem wpOr_cycleBody (hc : collects) (hcap : packHeaderSize ≤ cap)
    (hopts : opts.maxPackBytes ≤ cap) (go : GcOpts) (cycles : Nat) (roots : List SnapshotRef)
    (hs : Past fence s) :
    wpOr (rules cap collects t) (fun _ _ => True) (Server.cycleBody opts go t cycles fence roots)
      (fun _ _ => True) s := by
  refine wpOr_bind (PageStore.wpOr_withError (wpOr_apart (within_action fun o u => ?_)
    (stable_past hc) Past.apart hs)) fun counter u hu => ?_
  · split
    · exact Apart.refl u
    · exact ⟨rfl, rfl, rfl, rfl, rfl⟩
  · refine wpOr_bind (PageStore.wpOr_withError (wpOr_collect hc hcap hopts go.sweep roots hu))
      fun sweep u _ => wpOr_safe (safe_apart ?_)
    exact Within.bindE (within_withError (within_observe Apart.refl)) fun _ =>
      Within.bindE (within_withError (within_action fun _ _ => ⟨rfl, rfl, rfl, rfl, rfl⟩)) fun _ =>
      Within.pureE _

theorem safe_runGcCycle (hc : collects) (hcap : packHeaderSize ≤ cap)
    (hopts : opts.maxPackBytes ≤ cap) (go : GcOpts) :
    Safe cap collects t (Server.runGcCycle opts go t).run := by
  refine Preserves.bind (safe_apart (Within.atomic fun _ _ => ⟨rfl, rfl, rfl, rfl, rfl⟩)) fun _ =>
    Preserves.bind ?_ fun _ => Preserves.bind (safe_apart (Within.atomic fun _ _ =>
      ⟨rfl, rfl, rfl, rfl, rfl⟩)) fun _ => Preserves.ret _
  refine Preserves.bindE (safe_apart (within_withError (within_observe Apart.refl))) fun prior =>
    Preserves.bindE (safe_apart (within_withError (within_observe Apart.refl))) fun tombstones =>
    Preserves.bindE (safe_apart (Within.foldlME (fun acc ts => ?_) _ _)) fun reaped =>
    Preserves.bindE ?_ fun _ => safe_of_wpOr fun s => wpOr_bind (wpOr_beginGcEpoch hc)
      fun x u hu => ?_
  · exact Within.bindE (within_withError (within_action fun _ _ => ⟨rfl, rfl, rfl, rfl, rfl⟩))
      fun _ => Within.pureE _
  · unfold Server.rotateFirst
    split
    · exact Preserves.bindE (safe_withError (safe_rotateActive hcap hopts)) fun _ =>
        Preserves.pureE _
    · exact Preserves.pureE _
  · obtain ⟨fence, roots⟩ := x
    refine wpOr_bind (R := fun _ _ => True) (wp_bind (wp_mono (fun r v _ => ?_)
      (wpOr_cycleBody hc hcap hopts go prior.cyclesTotal roots hu))) fun _ _ _ => wpOr_pure trivial
    refine wp_bind (wp_mono (fun _ w _ => wp_ret ?_) (safe_apart
      (apart_outside Outside.endGcEpoch) v trivial))
    cases r with
    | ok a => exact trivial
    | error e => exact trivial

theorem safe_sweepCall (hc : collects) (hcap : packHeaderSize ≤ cap)
    (hopts : opts.maxPackBytes ≤ cap) (so : SweepOpts) (live : LiveSet) :
    Safe cap collects t (sweepCall opts so t live).run := by
  refine safe_of_wpOr fun s => wpOr_bind (PageStore.wpOr_withError (wpOr_fence hc))
    fun fence u hu => ?_
  refine wpOr_bind (wpOr_apart (within_change fun _ => ⟨rfl, rfl, rfl, rfl, rfl⟩)
    (stable_past hc) Past.apart hu) fun _ u hu => wpOr_sweepPacks hc hcap hopts so _ hu

theorem safe_call (hcap : packHeaderSize ≤ cap) (hopts : opts.maxPackBytes ≤ cap) (c : Call) :
    Safe cap (c.collects = true) t (c.run opts t) := by
  cases hc : c.collects with
  | false => exact safe_client hcap hopts c hc
  | true =>
    cases c with
    | gcCycle go =>
      exact Preserves.bind (safe_runGcCycle rfl hcap hopts go) fun _ => Preserves.ret _
    | sweepPacks so live =>
      exact Preserves.bind (safe_sweepCall rfl hcap hopts so live) fun _ => Preserves.ret _
    | _ => cases hc

end Sharing

end SnapStore

import SnapStore.Pagestore.Calls

/-!
# The collector and the packs

A collection owns the packs below its fence and the packs it copies into.  Before it unlinks a pack
no index entry leads into it, and each copy stands where the index entry that replaces the old one
says.
-/

namespace SnapStore

open Disk Conc

namespace Sharing

variable [Primitives] {cap : Nat} {collects : Prop} {t : Tid} {s s' : World}
  {fence p g : PackId} {es copied : List (PageHash × PageLoc)} {rs : List Entry}
  {E α : Type} {opts : StoreOptions}

/-! ## What the collector knows while it sweeps a pack -/

structure CopiedTo (fence : PackId) (e : PageHash × PageLoc) (s : World) : Prop where
  above : fence < e.2.pack
  gc : e.2.pack ∈ s.ghost.gcPacks
  file : ∃ b, s.pages.readName (.spk e.2.pack) = some b ∧ RecordAt b e.2.offset e.1

structure Sweep (fence p : PackId) (es copied : List (PageHash × PageLoc)) (s : World) : Prop where
  low : p < fence
  past : fence ≤ s.active.packId
  entries : ∀ h l, l.pack = p → (s.index.get h = some l ↔ (h, l) ∈ es)
  copies : ∀ e ∈ copied, CopiedTo fence e s

omit [Primitives] in
theorem not_owned_below (hp : p < fence) (hs : fence ≤ s.active.packId) : ¬ Owned s p :=
  fun ho => absurd (lt_of_lt_of_le hp (le_trans hs ho.1)) (lt_irrefl p)

omit [Primitives] in
theorem not_owned_gc (hg : g ∈ s.ghost.gcPacks) : ¬ Owned s g := fun ho => ho.2 hg

theorem CopiedTo.located {e : PageHash × PageLoc} (h : CopiedTo fence e s) (hb : Base cap s) :
    Located s e.1 e.2 := by
  obtain ⟨b, hread, hrec⟩ := h.file
  have hne : e.2.pack ≠ s.active.packId := fun heq => hb.own (heq ▸ h.gc)
  refine ⟨b, ?_, hrec⟩
  rw [World.packBytes, hread, if_neg hne, Option.map_some, List.append_nil]

namespace Sweep

theorem congr (h : Sweep fence p es copied s) (ha : s.active.packId ≤ s'.active.packId)
    (hg : ∀ q ∈ s.ghost.gcPacks, q ∈ s'.ghost.gcPacks) (hp : SamePack p s s')
    (hq : ∀ e ∈ copied, SamePack e.2.pack s s') : Sweep fence p es copied s' where
  low := h.low
  past := le_trans h.past ha
  entries k l hl := (hp.index k l hl).trans (h.entries k l hl)
  copies e he := by
    obtain ⟨habove, hgc, b, hread, hrec⟩ := h.copies e he
    refine ⟨habove, hg _ hgc, b, ?_, hrec⟩
    rw [(hq e he).readName rfl]
    exact hread

theorem compatible (h : Sweep fence p es copied s) (hc : Compatible s s') :
    Sweep fence p es copied s' :=
  h.congr hc.active (fun _ hq => hc.gc ▸ hq) (hc.packs p (not_owned_below h.low h.past))
    fun e he => hc.packs _ (not_owned_gc (h.copies e he).gc)

theorem apart (h : Sweep fence p es copied s) (ha : Apart s s') : Sweep fence p es copied s' :=
  h.compatible (.of_eq ha.pages ha.index (le_of_eq (by rw [ha.active])) ha.gc)

theorem stable (hc : collects) : Stable (rules cap collects t) (Sweep fence p es copied) :=
  fun _ _ hs hr _ => hs.compatible (hr.2 hc)

end Sweep

/-! ## The pack a collection writes -/

structure Target (fence p : PackId) (es copied : List (PageHash × PageLoc)) (g : PackId)
    (s : World) : Prop extends Sweep fence p es copied s where
  mem : g ∈ s.ghost.gcPacks
  above : fence < g
  fresh : ∀ e ∈ copied, e.2.pack ≠ g

theorem owner_target (hc : collects) : Owner cap collects t g (fun n => n.pack = g)
    (Target fence p es copied g) where
  pack _ hn := hn
  mine _ _ hu := .inr ⟨hc, not_owned_gc hu.mem⟩
  stable G hG := by
    intro u v ⟨hu, hg⟩ hr _
    have hcompat : Compatible u v := hr.2 hc
    exact ⟨⟨hu.toSweep.compatible hcompat, hcompat.gc ▸ hu.mem, hu.above, hu.fresh⟩,
      hG u v (hcompat.packs g (not_owned_gc hu.mem)) hg⟩
  keep u fs k _ hu hk hf := by
    have hsame : ∀ q, q ≠ g → SamePack q u { u with pages := fs, ghost := k } := fun q hq =>
      .of_frame hf rfl fun n hn hng => hq (hn.symm.trans hng)
    refine ⟨hu.toSweep.congr le_rfl (fun q hq => hk ▸ hq) (hsame p ?_) fun e he =>
      hsame _ (hu.fresh e he), hk ▸ hu.mem, hu.above, hu.fresh⟩
    exact Nat.ne_of_lt (lt_trans hu.low hu.above)

theorem target_id (u : World) (hb : Base cap u) (hu : Target fence p es copied g u) :
    g < u.active.nextPackId ∧ g ≠ u.active.packId :=
  ⟨hb.gc g hu.mem, fun heq => hb.own (heq ▸ hu.mem)⟩

theorem wpOr_allocGc (hc : collects) (hs : Sweep fence p es copied s) :
    wpOr (rules cap collects t) (fun _ _ => True)
      (withActive t (PageStore.allocPackId fun id k => { k with gcPacks := id :: k.gcPacks }))
      (fun g u => Target fence p es copied g u ∧ u.pages.lookup (.spk g) = none) s := by
  refine wpOr_withActive (Sweep.stable hc) hs (fun g => (owner_target hc).stable _
    fun u v h hu => (h.lookup _ rfl).trans hu) (fun g u hu => ?_) fun u hi hu hhold => ?_
  · refine ⟨⟨hu.1.toSweep.congr le_rfl (fun _ => id) (.of_eq rfl rfl) fun _ _ => .of_eq rfl rfl,
      hu.1.mem, hu.1.above, hu.1.fresh⟩, hu.2⟩
  have hu' : Sweep fence p es copied { u with activeLock := some t } :=
    hu.congr le_rfl (fun _ => id) (.of_eq rfl rfl) fun _ _ => .of_eq rfl rfl
  refine wpOr_attempt (P := fun v => Holding cap t v ∧ Sweep fence p es copied v)
    (stable_order.and (Sweep.stable hc)) ⟨hhold, hu'⟩ (fun o v g w _ hi hv hf => ?_)
    fun _ v _ hv => hv.1
  obtain ⟨⟨rs, hl, hset⟩, hv⟩ := hv
  split at hf <;> cases hf
  next hlt =>
  have hbase : Base cap { v with
      active := { v.active with nextPackId := v.active.nextPackId + 1 }
      ghost := { v.ghost with gcPacks := v.active.nextPackId :: v.ghost.gcPacks } } :=
    { hi.toBase with
      below := fun q hq => hi.below q (Nat.le_of_succ_le hq)
      active := Nat.lt_succ_of_lt hi.active
      next := hlt
      gc := fun q hq => by
        rcases List.mem_cons.mp hq with rfl | hq
        · exact Nat.lt_succ_self _
        · exact Nat.lt_succ_of_lt (hi.gc q hq)
      own := fun hq => by
        rcases List.mem_cons.mp hq with heq | hq
        · exact absurd hi.active (heq ▸ lt_irrefl _)
        · exact hi.own hq }
  refine ⟨.of_locked hbase hl, .of_holder hl hl fun hn => absurd hc hn,
    ⟨rs, hl, hset.congr rfl rfl rfl rfl⟩, ⟨?_, List.mem_cons_self, ?_, fun e he heq => ?_⟩,
    hi.below _ le_rfl⟩
  · exact hv.congr le_rfl (fun _ => List.mem_cons_of_mem _) (.of_eq rfl rfl) fun _ _ => .of_eq rfl rfl
  · exact lt_of_le_of_lt hv.past hi.active
  · exact absurd (hi.gc _ (hv.copies e he).gc) (heq ▸ lt_irrefl _)

structure Filling (cap : Nat) (g : PackId) (w : PackWriter) (rs : List Entry) (s : World) :
    Prop where
  lookup : s.pages.lookup (.spk g) = some w.file
  idx : s.pages.lookup (.idx g) = none
  holds : w.Holds (s.pages.content w.file) rs
  bounded : Bounded cap rs
  cap : w.maxBytes ≤ cap

theorem Filling.samePack {w : PackWriter} (u v : World) (h : SamePack g u v)
    (hs : Filling cap g w rs u) : Filling cap g w rs v := by
  refine ⟨(h.lookup _ rfl).trans hs.lookup, (h.lookup _ rfl).trans hs.idx, ?_, hs.bounded, hs.cap⟩
  rw [h.content _ _ rfl hs.lookup]
  exact hs.holds

theorem wpOr_createGcPack (hc : collects) (hcap : packHeaderSize ≤ cap)
    (hopts : opts.maxPackBytes ≤ cap) (hs : Sweep fence p es copied s) :
    wpOr (rules cap collects t) (fun _ _ => True) (PageStore.createGcPack opts t)
      (fun w u => w.entries = [] ∧ Target fence p es copied w.packId u ∧
        Filling cap w.packId w.writer [] u) s := by
  refine wpOr_bind (wpOr_allocGc hc hs) fun g u hu => ?_
  refine wpOr_bind (wpOr_createPackFile (owner_target hc) (fun _ _ _ => trivial) target_id hu.1
    hu.2) fun f u hu => ?_
  refine wpOr_bind (wpOr_writePackHeader (owner_target hc) hcap target_id hu.1 hu.2)
    fun _ u hu => ?_
  obtain ⟨hu, clock, hfile⟩ := hu
  refine wpOr_pure ⟨rfl, hu, hfile.lookup, hfile.idx, ?_, .nil hcap, hopts⟩
  show (PackWriter.fresh f g opts.maxPackBytes).Holds (u.pages.content f) []
  rw [hfile.content]
  exact PackWriter.holds_fresh _ _ _ _

theorem base_target {w w' : PackWriter} {fs : PagesFs} {new : Bytes} (hb : Base cap s)
    (hg : g ≠ s.active.packId) (hf : s.pages.lookup (.spk g) = some w.file)
    (hm : PackWriter.Wrote (.spk g) w w' s.pages fs new) (hd : DiskSound cap fs) :
    Base cap { s with pages := fs } := by
  refine hb.grow hd (SamePacks.of_lookup hm.lookup) rfl rfl rfl rfl rfl fun q b hq => ?_
  obtain ⟨c, hc, rfl⟩ := Option.map_eq_some_iff.mp hq
  by_cases hqg : q = g
  · subst hqg
    rw [FileSys.readName_eq hf] at hc
    obtain rfl := Option.some.inj hc
    have hread : fs.readName (.spk q) = some (fs.content w.file) :=
      FileSys.readName_eq (by rw [hm.lookup, hf])
    refine ⟨fs.content w.file, ?_, ?_⟩
    · show (fs.readName _).map (· ++ if q = s.active.packId then s.active.writer.writeBuf else []) = _
      rw [hread, if_neg hg, Option.map_some, List.append_nil]
    · rw [if_neg hg, List.append_nil]
      rcases hm.whole with rfl | hbuf
      · exact List.prefix_refl _
      · have hbytes := hm.bytes
        rw [hbuf, List.append_nil, List.append_assoc] at hbytes
        rw [hbytes]
        exact List.prefix_append _ _
  · refine ⟨_, ?_, List.prefix_refl _⟩
    show (fs.readName _).map (· ++ if q = s.active.packId then s.active.writer.writeBuf else []) = _
    rw [hm.frame.readName (by simpa using hqg), hc, Option.map_some]

theorem Target.wrote {w w' : PackWriter} {fs : PagesFs} {new : Bytes} (hc : collects)
    (hi : Inv cap s) (hs : Target fence p es copied g s) (hf : s.pages.lookup (.spk g) = some w.file)
    (hm : PackWriter.Wrote (.spk g) w w' s.pages fs new) (hd : DiskSound cap fs) :
    Inv cap { s with pages := fs } ∧ Guar collects t s { s with pages := fs } ∧
      Target fence p es copied g { s with pages := fs } :=
  (owner_target hc).step hi hs rfl (hm.frame.mono fun n hn => by rw [hn]; rfl)
    (base_target hi.toBase (target_id s hi.toBase hs).2 hf hm hd)

structure Copying (cap : Nat) (fence p : PackId) (es copied : List (PageHash × PageLoc))
    (w : PageStore.GcPackWriter) (rs : List Entry) (s : World) : Prop where
  target : Target fence p es copied w.packId s
  filling : Filling cap w.packId w.writer rs s
  entries : w.entries = (entriesAt packHeaderSize rs).map Prod.swap

theorem Copying.stable (hc : collects) (w : PageStore.GcPackWriter) :
    Stable (rules cap collects t) (Copying cap fence p es copied w rs) := by
  intro u v hu hr hi
  obtain ⟨htarget, hfill⟩ := (owner_target hc).stable _ Filling.samePack u v
    ⟨hu.target, hu.filling⟩ hr hi
  exact ⟨htarget, hfill, hu.entries⟩

theorem wpOr_gcAppend (hc : collects) {w : PageStore.GcPackWriter} {h : PageHash} {page : Page}
    (hs : Copying cap fence p es copied w rs s) (hh : blake3 page.bytes = h) :
    wpOr (rules cap collects t) (fun _ _ => True) (w.append h page)
      (fun w' u => Copying cap fence p es copied w' (rs ++ [(h, page)]) u) s := by
  refine wpOr_bind (R := fun x u => Copying cap fence p es copied
    ⟨x.2, w.packId, w.entries ++ [(h, x.1)]⟩ (rs ++ [(h, page)]) u)
    (wpOr_action (Copying.stable hc w) hs fun o u ho hi hu => ?_) fun x u hu => wpOr_pure hu
  obtain ⟨htarget, hfill, hentries⟩ := hu
  dsimp only
  cases hroom : w.writer.wouldExceedCap with
  | true =>
    have hfull : w.writer.append o u.pages h page = (.error .full, w.writer, u.pages) := by
      rw [PackWriter.append, hfill.holds.unsealed, hroom]
      rfl
    rw [hfull]
    exact ⟨hi, .refl u, trivial⟩
  | false =>
    obtain ⟨w', fs, happ, hw, hm⟩ :=
      PackWriter.append_quiet ho hi.disk.unaliased hfill.lookup hfill.holds hroom h page
    rw [happ]
    have hbound := bounded_append hfill.bounded hfill.holds hfill.cap hroom hh
    have hd : DiskSound cap fs :=
      wrote_sound hi.disk hfill.lookup hfill.idx hm (packOf_of_holds hw hbound)
    obtain ⟨hinv, hguar, htarget'⟩ : _ ∧ Guar collects t u _ ∧ _ :=
      htarget.wrote hc hi hfill.lookup hm hd
    refine ⟨hinv, hguar, htarget', ⟨?_, ?_, ?_, hbound, ?_⟩, ?_⟩
    · show fs.lookup _ = some w'.file
      rw [hm.lookup, hm.file]
      exact hfill.lookup
    · show fs.lookup _ = none
      rw [hm.lookup]
      exact hfill.idx
    · show w'.Holds (fs.content w'.file) _
      rw [hm.file]
      exact hw
    · rw [hm.maxBytes]
      exact hfill.cap
    · rw [entriesAt_append, List.map_append, ← hentries]
      rfl

theorem Copying.apart {w : PageStore.GcPackWriter} (h : Copying cap fence p es copied w rs s)
    (ha : Apart s s') : Copying cap fence p es copied w rs s' := by
  have hsame : SamePack w.packId s s' := .of_eq ha.pages ha.index
  exact ⟨⟨h.target.toSweep.apart ha, ha.gc ▸ h.target.mem, h.target.above, h.target.fresh⟩,
    Filling.samePack s s' hsame h.filling, h.entries⟩

theorem wpOr_apart {x : ExceptT E P α} {F : World → Prop} (hx : Within Apart x.run)
    (hF : Stable (rules cap collects t) F) (hA : ∀ u v, Apart u v → F u → F v) (hs : F s) :
    wpOr (rules cap collects t) (fun _ _ => True) x (fun _ u => F u) s := by
  refine wp_mono (fun r u hu => ?_) (wp_apart hx hF hA hs)
  cases r with
  | ok a => exact hu
  | error e => exact trivial

theorem wpOr_readRecord {F : World → Prop} {h : PageHash} {loc : PageLoc}
    (hF : Stable (rules cap collects t) F) (hA : ∀ u v, Apart u v → F u → F v) (hs : F s) :
    wpOr (rules cap collects t) (fun _ _ => True) (Gc.readRecord h loc)
      (fun payload u => F u ∧ blake3 payload = h) s := by
  refine PageStore.wpOr_withError (wpOr_bind (R := fun _ u => F u) (wpOr_apart ?_ hF hA hs)
    fun f u hu => wpOr_observe hF hu (fun o v a _ hv hf => ⟨hv, ?_⟩) fun _ _ _ _ => trivial)
  · refine Within.bind (apart_outside (Outside.of_cache (PageStore.cacheMove_getOrOpen _))) fun r => ?_
    split <;> exact Within.ret _
  · split at hf
    · cases hf
    · cases hread : PackReader.readAtFromFile (v.pages.content f) loc.offset h with
      | error e =>
        rw [hread] at hf
        cases hf
      | ok payload =>
        rw [hread] at hf
        cases hf
        exact (readAtFromFile_sound hread).1

theorem wpOr_copyRecord (hc : collects) {w : PageStore.GcPackWriter} {e : PageHash × PageLoc}
    (hs : Copying cap fence p es copied w rs s) :
    wpOr (rules cap collects t) (fun _ _ => True) (Gc.copyRecord w e)
      (fun w' u => ∃ page, Copying cap fence p es copied w' (rs ++ [(e.1, page)]) u) s := by
  refine wpOr_bind (wpOr_readRecord (Copying.stable hc w) (fun u v ha hu => hu.apart ha) hs)
    fun payload u hu => ?_
  split
  · next hlen =>
    exact PageStore.wpOr_withError (wpOr_mono (wpOr_gcAppend hc hu.1 hu.2)
      fun w' v hv => ⟨⟨payload, hlen⟩, hv⟩)
  · exact wpOr_throw trivial

/-! ## Publishing the pack -/

theorem wpOr_fdatasyncFile {F : World → Prop} {f : Ino} (hc : collects)
    (hF : ∀ u v, SamePack g u v → F u → F v) (hs : Target fence p es copied g s ∧ F s) :
    wpOr (rules cap collects t) (fun _ _ => True) (PageStore.fdatasyncFile f)
      (fun _ u => Target fence p es copied g u ∧ F u) s := by
  refine wpOr_attempt ((owner_target hc).stable F hF) hs (fun o u _ v _ hi hu hf => ?_)
    fun _ _ _ _ => trivial
  split at hf <;> cases hf
  have hrests : Rests u { u with pages := u.pages.fdatasync f } :=
    ⟨fun hu => .fdatasync hu f, rfl, rfl, rfl, rfl, rfl, rfl⟩
  have hframe : ∀ N, u.pages.SameBut N (u.pages.fdatasync f) :=
    fun N => .fdatasync hi.disk.unaliased f
  obtain ⟨hinv, hguar, htarget⟩ : _ ∧ Guar collects t u _ ∧ _ :=
    (owner_target hc).step (g := u.ghost) hi hu.1 rfl (hframe _) (hrests.base hi.toBase)
  exact ⟨hinv, hguar, htarget, hF u _ (.of_frame (hframe fun _ => False) rfl fun _ _ => id) hu.2⟩

def SealedFile (g : PackId) (rs : List Entry) (s : World) : Prop :=
  ∃ hdr, IsHeader hdr ∧ s.pages.readName (.spk g) = some (sealedPack hdr rs)

theorem SealedFile.samePack (u v : World) (h : SamePack g u v) (hs : SealedFile g rs u) :
    SealedFile g rs v := by
  obtain ⟨hdr, hh, hread⟩ := hs
  exact ⟨hdr, hh, (h.readName rfl).trans hread⟩

theorem wpOr_sealWriter (hc : collects) {w : PackWriter} (hs : Target fence p es copied g s)
    (hf : Filling cap g w rs s) :
    wpOr (rules cap collects t) (fun _ _ => True) (PageStore.sealWriter w)
      (fun _ u => Target fence p es copied g u ∧ SealedFile g rs u) s := by
  unfold PageStore.sealWriter
  rw [hf.holds.unsealed]
  refine wpOr_bind (R := fun x u => Target fence p es copied g u ∧ Filling cap g x.2 rs u ∧
    x.2.writeBuf = []) (wpOr_action ((owner_target hc).stable _ Filling.samePack) ⟨hs, hf⟩
    fun o u ho hi hu => ?_) fun x u hu => ?_
  · obtain ⟨hu, hfill⟩ := hu
    obtain ⟨w', fs, hflush, hw, hbuf, hm⟩ :=
      PackWriter.flushBuf_quiet ho hi.disk.unaliased hfill.lookup hfill.holds
    dsimp only
    rw [hflush]
    have hd : DiskSound cap fs := wrote_sound hi.disk hfill.lookup hfill.idx hm fun _ =>
      packOf_of_holds hw hfill.bounded hbuf
    obtain ⟨hinv, hguar, htarget⟩ : _ ∧ Guar collects t u _ ∧ _ :=
      hu.wrote hc hi hfill.lookup hm hd
    refine ⟨hinv, hguar, htarget, ⟨?_, ?_, ?_, hfill.bounded, ?_⟩, hbuf⟩
    · show fs.lookup _ = some w'.file
      rw [hm.lookup, hm.file]
      exact hfill.lookup
    · show fs.lookup _ = none
      rw [hm.lookup]
      exact hfill.idx
    · show w'.Holds (fs.content w'.file) _
      rw [hm.file]
      exact hw
    · rw [hm.maxBytes]
      exact hfill.cap
  obtain ⟨_, w⟩ := x
  have hflushed : ∀ u v, SamePack g u v → Filling cap g w rs u ∧ w.writeBuf = [] →
      Filling cap g w rs v ∧ w.writeBuf = [] :=
    fun u v h hu => ⟨Filling.samePack u v h hu.1, hu.2⟩
  refine wpOr_bind (wpOr_fdatasyncFile hc hflushed hu) fun _ u hu => ?_
  refine wpOr_bind (R := fun _ u => Target fence p es copied g u ∧ SealedFile g rs u)
    (wpOr_action ((owner_target hc).stable _ hflushed) hu fun o u ho hi hu => ?_) fun x u hu => ?_
  · obtain ⟨hu, hfill, hbuf⟩ := hu
    obtain ⟨w', fs, hdr, hfoot, hh, hcontent, -, hm⟩ :=
      PackWriter.writeFooter_quiet ho hi.disk.unaliased hfill.lookup hfill.holds hbuf
    dsimp only at hfoot ⊢
    rw [hfoot]
    have hd : DiskSound cap fs := wrote_sound hi.disk hfill.lookup hfill.idx hm fun _ =>
      ⟨hfill.bounded, hdr, hh, .inr hcontent⟩
    obtain ⟨hinv, hguar, htarget⟩ : _ ∧ Guar collects t u _ ∧ _ :=
      hu.wrote hc hi hfill.lookup hm hd
    refine ⟨hinv, hguar, htarget, hdr, hh, ?_⟩
    show fs.readName _ = _
    rw [FileSys.readName_eq (by rw [hm.lookup, hfill.lookup]), hcontent]
  exact wpOr_bind (wpOr_fdatasyncFile hc SealedFile.samePack hu) fun _ u hu => wpOr_pure hu

def copiesIn (g : PackId) (rs : List Entry) : List (PageHash × PageLoc) :=
  (entriesAt packHeaderSize rs).map fun r => (r.2, ⟨g, r.1⟩)

omit [Primitives] in
theorem map_fst_copiesIn (g : PackId) (rs : List Entry) :
    (copiesIn g rs).map Prod.fst = rs.map Prod.fst := by
  have hhashes : ∀ n, (entriesAt n rs).map Prod.snd = rs.map Prod.fst := by
    induction rs with
    | nil => exact fun _ => rfl
    | cons r rs ih => exact fun n => congrArg (r.1 :: ·) (ih _)
  rw [copiesIn, List.map_map]
  exact hhashes packHeaderSize

theorem owner_sealed (hc : collects) : Owner cap collects t g (IsSidecar g)
    fun u => Target fence p es copied g u ∧ SealedFile g rs u := by
  refine (owner_target hc).restrict (fun n hn => ?_) SealedFile.samePack fun u fs k hf hu => ?_
  · rcases hn with rfl | rfl <;> rfl
  · obtain ⟨hdr, hh, hread⟩ := hu
    refine ⟨hdr, hh, ?_⟩
    show fs.readName _ = _
    rw [hf.readName (by rintro (h | h) <;> cases h)]
    exact hread

theorem Target.publish (h : Target fence p es copied g s) (hf : SealedFile g rs s)
    (hb : Bounded cap rs) : Sweep fence p es (copied ++ copiesIn g rs) s := by
  refine { h.toSweep with copies := fun e he => ?_ }
  rcases List.mem_append.mp he with he | he
  · exact h.copies e he
  · obtain ⟨r, hr, rfl⟩ := List.mem_map.mp he
    obtain ⟨hdr, hh, hread⟩ := hf
    have hclosed : SnapStore.Closed (sealedPack hdr rs) rs := ⟨hdr, hh, .inl rfl⟩
    obtain ⟨page, hmem, hrec⟩ := hclosed.hasRecord hr
    exact ⟨h.above, h.mem, _, hread, page, hrec, hb.hashed _ hmem⟩

theorem wpOr_copyRecords (hc : collects) (hcap : packHeaderSize ≤ cap)
    (hopts : opts.maxPackBytes ≤ cap) {records : List (PageHash × PageLoc)}
    (hs : Sweep fence p es copied s) :
    wpOr (rules cap collects t) (fun _ _ => True) (Gc.copyRecords opts t records)
      (fun more u => Sweep fence p es (copied ++ more) u ∧
        more.map Prod.fst = records.map Prod.fst) s := by
  refine wpOr_bind (PageStore.wpOr_withError (wpOr_createGcPack hc hcap hopts hs)) fun w u hu => ?_
  obtain ⟨hentries, htarget, hfill⟩ := hu
  refine wpOr_bind (wpOr_foldlM (fun w rest u => ∃ rs, Copying cap fence p es copied w rs u ∧
    rs.map Prod.fst ++ rest.map Prod.fst = records.map Prod.fst) (fun w e rest u hu => ?_)
    records w u ⟨[], ⟨htarget, hfill, hentries⟩, rfl⟩) fun w u hu => ?_
  · obtain ⟨rs, hcopy, hhashes⟩ := hu
    refine wpOr_mono (wpOr_copyRecord hc hcopy) fun w' v hv => ?_
    obtain ⟨page, hv⟩ := hv
    refine ⟨rs ++ [(e.1, page)], hv, ?_⟩
    rw [← hhashes]
    simp
  · obtain ⟨rs, ⟨htarget, hfill, hentries⟩, hhashes⟩ := hu
    have hes : (w.entries.map fun e => (e.1, (⟨w.packId, e.2⟩ : PageLoc))) = copiesIn w.packId rs := by
      rw [hentries, List.map_map]
      rfl
    refine wpOr_bind (R := fun x u => Sweep fence p es (copied ++ copiesIn w.packId rs) u ∧
      x = (w.packId, w.entries)) (PageStore.wpOr_withError ?_) fun x u hu => wpOr_pure ?_
    · refine wpOr_bind (wpOr_sealWriter hc htarget hfill) fun _ u hu => ?_
      rw [hes]
      refine wpOr_bind (wpOr_writeSidecarEntries (owner_sealed hc) (fun _ _ _ => trivial)
        (fun v _ hv => ?_) hu) fun _ v hv => wpOr_pure ⟨hv.1.publish hv.2 hfill.bounded, rfl⟩
      obtain ⟨hdr, hh, hread⟩ := hv.2
      exact ⟨_, hread, rs, _, ⟨hdr, hh, .inl rfl⟩, hfill.bounded, rfl, Lists.scan (fun _ => rs) _⟩
    · obtain ⟨hu, rfl⟩ := hu
      dsimp only
      rw [hes]
      refine ⟨hu, ?_⟩
      rw [← hhashes, List.map_nil, List.append_nil, map_fst_copiesIn]

end Sharing

end SnapStore

import SnapStore.Pagestore.Ownership

/-!
# The holder of the active lock

What ingest, rotation, `sync` and the reads of the active pack do to the packs of the lock holder.
Whether such a call succeeds or fails, it leaves an active pack whose records are exactly those
the index has for it.
-/

namespace SnapStore

open Disk Conc

namespace Sharing

variable [Primitives] {cap : Nat} {collects : Prop} {t : Tid} {s s' : World} {p : PackId}
  {rs : List Entry} {E α : Type}

/-! ## The writer -/

def World.withWriter (s : World) (w : PackWriter) (fs : PagesFs) : World :=
  { s with pages := fs, active := { s.active with writer := w } }

section Writer

variable {w : PackWriter} {fs : PagesFs} {new : Bytes}

theorem base_wrote (h : Base cap s)
    (hm : PackWriter.Wrote (.spk s.active.packId) s.active.writer w s.pages fs new)
    (hd : DiskSound cap fs) : Base cap (World.withWriter s w fs) := by
  refine h.grow hd (SamePacks.of_lookup hm.lookup) rfl rfl hm.file rfl rfl fun q b hb => ?_
  obtain ⟨c, hc, rfl⟩ := Option.map_eq_some_iff.mp hb
  by_cases hq : q = s.active.packId
  · subst hq
    rw [FileSys.readName_eq h.file] at hc
    obtain rfl := Option.some.inj hc
    refine ⟨(s.pages.content s.active.writer.file ++ s.active.writer.writeBuf) ++ new, ?_, ?_⟩
    · have hread : fs.readName (.spk s.active.packId) = some (fs.content s.active.writer.file) :=
        FileSys.readName_eq (by rw [hm.lookup, h.file])
      show (fs.readName _).map (· ++ if s.active.packId = s.active.packId then w.writeBuf else []) = _
      rw [hread, if_pos rfl, Option.map_some, hm.bytes]
    · rw [if_pos rfl]
      exact List.prefix_append _ _
  · refine ⟨c ++ [], ?_, ?_⟩
    · show (fs.readName _).map (· ++ if q = s.active.packId then w.writeBuf else []) = _
      rw [hm.frame.readName (by simpa using hq), hc, if_neg hq, Option.map_some]
    · rw [if_neg hq]

omit [Primitives] in
theorem fileStep_wrote (hl : s.activeLock = some t)
    (hm : PackWriter.Wrote (.spk s.active.packId) s.active.writer w s.pages fs new) :
    FileStep t s.active.packId s (World.withWriter s w fs) where
  frame := hm.frame.mono fun n hn => by rw [hn]; rfl
  index := rfl
  lock := rfl
  gc := rfl
  active := .inr ⟨hl, rfl⟩

theorem inv_wrote (hi : Inv cap s) (hl : s.activeLock = some t)
    (hm : PackWriter.Wrote (.spk s.active.packId) s.active.writer w s.pages fs new)
    (hd : DiskSound cap fs) :
    Inv cap (World.withWriter s w fs) ∧ Guar collects t s (World.withWriter s w fs) := by
  have hmine : Mine collects t s.active.packId s := .inl ⟨hl, hi.owned⟩
  have hstep := fileStep_wrote hl hm
  exact ⟨hstep.inv hmine hi (base_wrote hi.toBase hm hd), hstep.guar hmine⟩

theorem wpOr_onWriter {bad : PageStoreError → World → Prop} {P : World → Prop}
    {Q : α → World → Prop}
    {f : Oracle → PackWriter → PagesFs → Except PackError α × PackWriter × PagesFs}
    (hP : Stable (rules cap collects t) P) (hs : P s)
    (h : ∀ o u, Writes o → Inv cap u → P u → ∃ r w fs, f o u.active.writer u.pages = (r, w, fs) ∧
      Inv cap (World.withWriter u w fs) ∧ Guar collects t u (World.withWriter u w fs) ∧
      okOr bad Q (r.mapError .pack) (World.withWriter u w fs)) :
    wpOr (rules cap collects t) bad (PageStore.onWriter f) Q s := by
  refine wpOr_action hP hs fun o u ho hi hu => ?_
  obtain ⟨r, w, fs, hf, hres⟩ := h o u ho hi hu
  dsimp only
  rw [hf]
  exact hres

end Writer

def Held (cap : Nat) (t : Tid) (rs : List Entry) (s : World) : Prop :=
  s.activeLock = some t ∧ Settled cap rs s

theorem stable_held_of {F : World → Prop} (hF : ∀ s s', Undisturbed s s' → F s → F s') :
    Stable (rules cap collects t) fun s => Held cap t rs s ∧ F s := by
  have h : Stable (rules cap collects t)
      fun s => s.activeLock = some t ∧ Settled cap rs s ∧ F s :=
    stable_held fun s s' hb hu hs => ⟨hu.settled hb hs.1, hF s s' hu hs.2⟩
  intro u v hu hr hi
  obtain ⟨hl, hs, hf⟩ := h u v ⟨hu.1.1, hu.1.2, hu.2⟩ hr hi
  exact ⟨⟨hl, hs⟩, hf⟩

theorem stable_holding : Stable (rules cap collects t) (Held cap t rs) :=
  stable_held fun _ _ hb hu hs => hu.settled hb hs

theorem Shut.flushBuf (h : Shut rs s) (o : Oracle) :
    s.active.writer.flushBuf o s.pages = (.ok (), s.active.writer, s.pages) := by
  rw [PackWriter.flushBuf, if_pos h.buf]

theorem wpOr_flush {bad : PageStoreError → World → Prop} {b : Bool} {a : PackId}
    (h : Held cap t rs s) (hb : s.active.writer.sealed = b) (ha : s.active.packId = a) :
    wpOr (rules cap collects t) bad (PageStore.onWriter fun o w fs => w.flushBuf o fs)
      (fun _ u => Held cap t rs u ∧ u.active.writer.sealed = b ∧ u.active.packId = a ∧
        u.active.writer.writeBuf = []) s := by
  refine wpOr_onWriter (P := fun u => Held cap t rs u ∧ u.active.writer.sealed = b ∧
    u.active.packId = a) (stable_held_of fun u v hu hf => by rw [hu.active]; exact hf) ⟨h, hb, ha⟩
    fun o u ho hi hu => ?_
  obtain ⟨⟨hl, hset⟩, hseal, ha⟩ := hu
  rcases hset.writer with hopen | hshut
  · obtain ⟨w, fs, hflush, hw, hbuf, hm⟩ :=
      PackWriter.flushBuf_quiet ho hi.disk.unaliased hi.file hopen.holds
    have hd : DiskSound cap fs :=
      wrote_sound hi.disk hi.file hopen.idx hm fun _ => packOf_of_holds hw hset.bounded hbuf
    obtain ⟨hinv, hguar⟩ : Inv cap _ ∧ Guar collects t u _ := inv_wrote hi hl hm hd
    refine ⟨.ok (), w, fs, hflush, hinv, hguar, ⟨hl, hset.bounded, .inl ⟨?_, ?_, ?_⟩, ?_⟩, ?_, ha,
      hbuf⟩
    · show w.Holds (fs.content w.file) rs
      rw [hm.file]
      exact hw
    · show fs.lookup _ = none
      rw [hm.lookup]
      exact hopen.idx
    · show w.maxBytes ≤ cap
      rw [hm.maxBytes]
      exact hopen.cap
    · exact hset.covers
    · rw [← hseal, hopen.holds.unsealed]
      exact hw.unsealed
  · exact ⟨.ok (), _, _, hshut.flushBuf o, hi, .refl u, ⟨hl, hset⟩, hseal, ha, hshut.buf⟩

/-! ## Ingest of one page -/

omit [Primitives] in
theorem Guar.of_holder (hl : s.activeLock = some t) (hl' : s'.activeLock = some t)
    (hc : ¬ collects → Compatible s s') : Guar collects t s s' := by
  have hne : ∀ u, u ≠ t → some t ≠ some u := fun u hu heq => hu (Option.some.inj heq).symm
  refine ⟨fun u hu hs => ?_, fun u hu hs => ?_, hc⟩
  · exact absurd (hl.symm.trans hs) (hne u hu)
  · exact absurd (hl'.symm.trans hs) (hne u hu)

theorem Inv.of_locked (h : Base cap s) (hl : s.activeLock = some t) : Inv cap s :=
  ⟨h, fun hn => by rw [hl] at hn; cases hn⟩

structure Appended (cap : Nat) (rs : List Entry) (h : PageHash) (page : Page) (s : World) :
    Prop where
  bounded : Bounded cap (rs ++ [(h, page)])
  opened : Open cap (rs ++ [(h, page)]) s
  covers : Covers rs s
  absent : s.index.get h = none

theorem stable_appended {h : PageHash} {page : Page} :
    Stable (rules cap collects t) fun s => s.activeLock = some t ∧ Appended cap rs h page s :=
  stable_held fun _ _ hb hu hs =>
    ⟨hs.bounded, hu.opened hb hs.opened, hu.covers hb hs.covers, hu.absent h hs.absent⟩

theorem wpOr_append {bad : PageStoreError → World → Prop} {h : PageHash} {page : Page}
    (hs : Held cap t rs s) (hnew : s.index.get h = none) (hh : blake3 page.bytes = h)
    (hbad : ∀ e u, Held cap t rs u → bad e u) :
    wpOr (rules cap collects t) bad (PageStore.onWriter fun o w fs => w.append o fs h page)
      (fun off u => off = recordOffset rs.length ∧ u.activeLock = some t ∧
        Appended cap rs h page u) s := by
  refine wpOr_onWriter (P := fun u => Held cap t rs u ∧ u.index.get h = none)
    (stable_held_of fun u v hu => hu.absent h) ⟨hs, hnew⟩ fun o u ho hi hu => ?_
  obtain ⟨⟨hl, hset⟩, habsent⟩ := hu
  rcases hset.writer with hopen | hshut
  · cases hcap : u.active.writer.wouldExceedCap with
    | true =>
      refine ⟨.error .full, u.active.writer, u.pages, ?_, hi, .refl u, hbad _ u ⟨hl, hset⟩⟩
      rw [PackWriter.append, hopen.holds.unsealed, hcap]
      rfl
    | false =>
      obtain ⟨w, fs, happ, hw, hm⟩ :=
        PackWriter.append_quiet ho hi.disk.unaliased hi.file hopen.holds hcap h page
      have hbound : Bounded cap (rs ++ [(h, page)]) :=
        bounded_append hset.bounded hopen.holds hopen.cap hcap hh
      have hd : DiskSound cap fs :=
        wrote_sound hi.disk hi.file hopen.idx hm (packOf_of_holds hw hbound)
      obtain ⟨hinv, hguar⟩ : Inv cap _ ∧ Guar collects t u _ := inv_wrote hi hl hm hd
      refine ⟨.ok _, w, fs, happ, hinv, hguar, rfl, hl, hbound, ⟨?_, ?_, ?_⟩, hset.covers, habsent⟩
      · show w.Holds (fs.content w.file) _
        rw [hm.file]
        exact hw
      · show fs.lookup _ = none
        rw [hm.lookup]
        exact hopen.idx
      · show w.maxBytes ≤ cap
        rw [hm.maxBytes]
        exact hopen.cap
  · refine ⟨.error .sealed, u.active.writer, u.pages, ?_, hi, .refl u, hbad _ u ⟨hl, hset⟩⟩
    rw [PackWriter.append, hshut.sealed]
    rfl

theorem Appended.located {h : PageHash} {page : Page} (ha : Appended cap rs h page s)
    (hb : Base cap s) : Located s h ⟨s.active.packId, recordOffset rs.length⟩ := by
  obtain ⟨hdr, hh, hp⟩ := ha.opened.holds.pack
  have hat : (recordOffset rs.length, h) ∈ entriesAt packHeaderSize (rs ++ [(h, page)]) :=
    mem_entriesAt_append.mpr (.inr ⟨rfl, rfl⟩)
  obtain ⟨q, hq, hrec⟩ : ∃ q, (h, q) ∈ rs ++ [(h, page)] ∧
      HasRecord (hdr ++ (encodeRecords (rs ++ [(h, page)]) ++ [])) _ h q :=
    hasRecord_of_entriesAt hh hat
  refine ⟨openPack hdr (rs ++ [(h, page)]), ?_, q, ?_, ha.bounded.hashed _ hq⟩
  · rw [World.packBytes, FileSys.readName_eq hb.file, if_pos rfl, Option.map_some, hp]
  · rw [List.append_nil] at hrec
    exact hrec

theorem wpOr_indexPage {bad : PageStoreError → World → Prop} {h : PageHash} {page : Page}
    (hl : s.activeLock = some t) (hs : Appended cap rs h page s) :
    wpOr (rules cap collects t) bad (PageStore.indexPage h (recordOffset rs.length))
      (fun _ u => Held cap t (rs ++ [(h, page)]) u) s := by
  refine wpOr_action stable_appended ⟨hl, hs⟩ fun o u _ hi hu => ?_
  obtain ⟨hl, ha⟩ := hu
  dsimp only
  have hloc := ha.located hi.toBase
  have hget : ∀ k l, (u.index.insert h ⟨u.active.packId, recordOffset rs.length⟩).get k = some l ↔
      u.index.get k = some l ∨ k = h ∧ l = ⟨u.active.packId, recordOffset rs.length⟩ := by
    intro k l
    rw [Index.get_insert]
    by_cases hk : k = h
    · subst hk
      rw [if_pos ⟨rfl, ha.absent⟩, ha.absent]
      simp [eq_comm]
    · rw [if_neg fun hc => hk hc.1]
      simp [hk]
  have hbase : Base cap { u with
      active := { u.active with
        dirtySinceSync := u.active.dirtySinceSync.insert u.active.packId }
      index := u.index.insert h ⟨u.active.packId, recordOffset rs.length⟩
      ghost := { u.ghost with fresh := h :: u.ghost.fresh } } := by
    refine { hi.toBase with located := fun k l hk => ?_ }
    rcases (hget k l).mp hk with hold | ⟨rfl, rfl⟩
    · exact hi.located k l hold
    · exact hloc
  refine ⟨.of_locked hbase hl, .of_holder hl hl fun _ => ⟨le_rfl, rfl, fun q hq =>
    ⟨fun _ _ => rfl, fun _ _ _ _ => rfl, fun k l hk => ?_⟩⟩, hl, ha.bounded, .inl ⟨ha.opened.holds, ha.opened.idx,
    ha.opened.cap⟩, fun k l hk => ?_⟩
  · rw [hget k l, or_iff_left]
    rintro ⟨-, rfl⟩
    subst hk
    exact hq hi.owned
  · have hold := ha.covers k l hk
    obtain ⟨pack, offset⟩ := l
    obtain rfl : pack = u.active.packId := hk
    rw [hget, hold, Packs.At, Packs.At, mem_entriesAt_append]
    simp only [PageLoc.mk.injEq, true_and]
    tauto

theorem wpOr_writePage {bad : PageStoreError → World → Prop} {h : PageHash} {page : Page}
    (hs : Held cap t rs s) (hnew : s.index.get h = none) (hh : blake3 page.bytes = h)
    (hbad : ∀ e u, Held cap t rs u → bad e u) :
    wpOr (rules cap collects t) bad (PageStore.writePage h page)
      (fun _ u => Held cap t (rs ++ [(h, page)]) u) s := by
  refine wpOr_bind (wpOr_append hs hnew hh hbad) fun off u hu => ?_
  obtain ⟨rfl, hl, ha⟩ := hu
  exact wpOr_indexPage hl ha

/-! ## Rotation -/

structure Closing (cap : Nat) (t : Tid) (rs : List Entry) (s : World) : Prop where
  lock : s.activeLock = some t
  settled : Settled cap rs s
  shut : Shut rs s

theorem Closing.held (h : Closing cap t rs s) : Held cap t rs s := ⟨h.lock, h.settled⟩

theorem stable_closing {F : World → Prop}
    (hF : ∀ s s', Base cap s' → Undisturbed s s' → F s → F s') :
    Stable (rules cap collects t) fun s => Closing cap t rs s ∧ F s := by
  have h : Stable (rules cap collects t)
      fun s => s.activeLock = some t ∧ (Settled cap rs s ∧ Shut rs s) ∧ F s :=
    stable_held fun s s' hb hu hs =>
      ⟨⟨hu.settled hb hs.1.1, hu.shut hb hs.1.2⟩, hF s s' hb hu hs.2⟩
  intro u v hu hr hi
  obtain ⟨hl, ⟨hs, hshut⟩, hf⟩ := h u v ⟨hu.1.lock, ⟨hu.1.settled, hu.1.shut⟩, hu.2⟩ hr hi
  exact ⟨⟨hl, hs, hshut⟩, hf⟩

section Rotation

variable {bad : PageStoreError → World → Prop}

theorem wpOr_sealActiveNoSync {a : PackId} (hs : Held cap t rs s) (ha : s.active.packId = a)
    (hbad : ∀ e u, Held cap t rs u → bad e u) :
    wpOr (rules cap collects t) bad PageStore.sealActiveNoSync
      (fun _ u => Closing cap t rs u ∧ u.active.packId = a) s := by
  have hid : Stable (rules cap collects t) fun u => Held cap t rs u ∧ u.active.packId = a :=
    stable_held_of fun u v hu hf => by rw [hu.active]; exact hf
  refine wpOr_bind (R := fun b u => Held cap t rs u ∧ u.active.writer.sealed = b ∧
    u.active.packId = a) (wpOr_read hid ⟨hs, ha⟩ fun u _ hu => ⟨hu.1, rfl, hu.2⟩) fun b u hu => ?_
  cases b with
  | true => exact wpOr_throw (hbad _ u hu.1)
  | false =>
    refine wpOr_bind (wpOr_flush hu.1 hu.2.1 hu.2.2) fun _ u hu => ?_
    refine wpOr_onWriter (P := fun u => Held cap t rs u ∧ u.active.writer.sealed = false ∧
      u.active.packId = a ∧ u.active.writer.writeBuf = [])
      (stable_held_of fun u v hu hf => by rw [hu.active]; exact hf) hu fun o u ho hi hu => ?_
    obtain ⟨⟨hl, hset⟩, hseal, ha, hbuf⟩ := hu
    have hopen : Open cap rs u := hset.writer.resolve_right fun h => by
      have := h.sealed
      rw [hseal] at this
      cases this
    obtain ⟨w, fs, hdr, hfoot, hh, hc, hbuf', hm⟩ :=
      PackWriter.writeFooter_quiet ho hi.disk.unaliased hi.file hopen.holds hbuf
    have hm' : PackWriter.Wrote (.spk u.active.packId) u.active.writer { w with sealed := true }
        u.pages fs _ := ⟨⟨hm.file, hm.maxBytes, hm.lookup, hm.frame⟩, hm.bytes, hm.whole⟩
    have hd : DiskSound cap fs := wrote_sound hi.disk hi.file hopen.idx hm' fun _ =>
      ⟨hset.bounded, hdr, hh, .inr hc⟩
    obtain ⟨hinv, hguar⟩ : Inv cap _ ∧ Guar collects t u _ := inv_wrote hi hl hm' hd
    have hshut : Shut rs (World.withWriter u { w with sealed := true } fs) := by
      refine ⟨rfl, hbuf', hdr, hh, ?_⟩
      show fs.content w.file = _
      rw [hm.file]
      exact hc
    refine ⟨.ok (), { w with sealed := true }, fs, ?_, hinv, hguar, ⟨hl,
      ⟨hset.bounded, .inr hshut, hset.covers⟩, hshut⟩, ha⟩
    rw [hfoot]

theorem Closing.keep {N : PageFile → Prop} {fs : PagesFs} {g : Ghost} (h : Closing cap t rs s)
    (hb : Base cap s) (hf : s.pages.SameBut N fs) (hN : ¬ N (.spk s.active.packId)) :
    Closing cap t rs { s with pages := fs, ghost := g } := by
  have hshut : Shut rs { s with pages := fs, ghost := g } := by
    refine ⟨h.shut.sealed, h.shut.buf, ?_⟩
    show ∃ hdr, IsHeader hdr ∧ fs.content s.active.writer.file = _
    rw [hf.content _ _ hN hb.file]
    exact h.shut.pack
  exact ⟨h.lock, ⟨h.settled.bounded, .inr hshut, h.settled.covers⟩, hshut⟩

theorem owner_closing (p : PackId) : Owner cap collects t p (IsSidecar p)
    (fun u => Closing cap t rs u ∧ u.active.packId = p) where
  pack n hn := by
    rcases hn with rfl | rfl <;> rfl
  mine u hb hu := .inl ⟨hu.1.lock, hu.2 ▸ hb.owned⟩
  stable G hG := by
    have h : Stable (rules cap collects t) fun u => Closing cap t rs u ∧ (u.active.packId = p ∧ G u) :=
      stable_closing fun u v hb hu hg => by
        refine ⟨(congrArg ActiveState.packId hu.active).trans hg.1, hG u v ?_ hg.2⟩
        rw [← hg.1]
        exact hu.active_pack hb
    intro u v hu hr hi
    obtain ⟨hc, hp, hg⟩ := h u v ⟨hu.1.1, hu.1.2, hu.2⟩ hr hi
    exact ⟨⟨hc, hp⟩, hg⟩
  keep u fs g hb hu _ hf := by
    refine ⟨hu.1.keep hb hf ?_, hu.2⟩
    intro hn
    rcases hn with hn | hn <;> cases hn

theorem Closing.sidecar {es : List (PageHash × PageLoc)} (h : Closing cap t rs s) (hb : Base cap s)
    (hes : Lists (fun _ => rs) s.active.packId es) :
    ∃ c, s.pages.readName (.spk s.active.packId) = some c ∧
      SidecarOf cap s.active.packId c (encodeSidecar es) := by
  obtain ⟨hdr, hh, hc⟩ := h.shut.pack
  refine ⟨_, FileSys.readName_eq hb.file, rs, es, ?_, h.settled.bounded, rfl, hes⟩
  rw [hc]
  exact ⟨hdr, hh, .inl rfl⟩

structure Allocated (cap : Nat) (t : Tid) (rs : List Entry) (new : PackId) (s : World) : Prop
    extends Closing cap t rs s where
  above : s.active.packId < new
  below : new < s.active.nextPackId
  free : new ∉ s.ghost.gcPacks

theorem owner_allocated (new : PackId) : Owner cap collects t new (fun n => n.pack = new)
    (Allocated cap t rs new) where
  pack _ hn := hn
  mine u _ hu := .inl ⟨hu.lock, le_of_lt hu.above, hu.free⟩
  stable G hG := by
    have h : Stable (rules cap collects t) fun u => Closing cap t rs u ∧
        ((u.active.packId < new ∧ new < u.active.nextPackId ∧ new ∉ u.ghost.gcPacks) ∧ G u) :=
      stable_closing fun u v _ hu hg => by
        refine ⟨?_, hG u v (hu.packs new ⟨le_of_lt hg.1.1, hg.1.2.2⟩) hg.2⟩
        rw [hu.active, hu.gc]
        exact hg.1
    intro u v hu hr hi
    obtain ⟨hc, ⟨ha, hb, hf⟩, hg⟩ := h u v ⟨hu.1.toClosing, ⟨hu.1.above, hu.1.below, hu.1.free⟩,
      hu.2⟩ hr hi
    exact ⟨⟨hc, ha, hb, hf⟩, hg⟩
  keep u fs g hb hu hg hf := by
    refine ⟨hu.toClosing.keep hb hf ?_, hu.above, hu.below, hg ▸ hu.free⟩
    intro hn
    exact absurd hn (Nat.ne_of_lt hu.above)

theorem wpOr_allocNext (hs : Closing cap t rs s) (hbad : ∀ e u, Closing cap t rs u → bad e u) :
    wpOr (rules cap collects t) bad
      (PageStore.allocPackId fun new g => { g with rotating := some new })
      (fun new u => Allocated cap t rs new u ∧ u.pages.lookup (.spk new) = none) s := by
  have hstable : Stable (rules cap collects t) (Closing cap t rs) := by
    intro u v hu hr hi
    exact (stable_closing (F := fun _ => True) (fun _ _ _ _ => id) u v ⟨hu, trivial⟩ hr hi).1
  refine wpOr_attempt hstable hs (fun o u new v _ hi hu hf => ?_) fun e u _ hu => hbad e u hu
  split at hf <;> cases hf
  next hlt =>
  have hbase : Base cap { u with
      active := { u.active with nextPackId := u.active.nextPackId + 1 }
      ghost := { u.ghost with rotating := some u.active.nextPackId } } :=
    { hi.toBase with
      below := fun q hq => hi.below q (Nat.le_of_succ_le hq)
      active := Nat.lt_succ_of_lt hi.active
      next := hlt
      gc := fun g hg => Nat.lt_succ_of_lt (hi.gc g hg) }
  refine ⟨.of_locked hbase hu.lock, .of_holder hu.lock hu.lock fun _ => .of_eq rfl rfl le_rfl rfl, ?_,
    hi.below _ le_rfl⟩
  refine ⟨⟨hu.lock, hu.settled.congr rfl rfl rfl rfl, hu.shut.sealed, hu.shut.buf, hu.shut.pack⟩,
    hi.active,
    Nat.lt_succ_self _, fun hg => absurd (hi.gc _ hg) (lt_irrefl _)⟩

theorem wpOr_installPack {new : PackId} {f : Ino} {clock : Nat} {opts : StoreOptions}
    (hcap : packHeaderSize ≤ cap) (hopts : opts.maxPackBytes ≤ cap)
    (hs : Allocated cap t rs new s) (hfile : PackFile new f (packHeader new clock) s) :
    wpOr (rules cap collects t) bad
      (change fun s => { s with
        active := { s.active with
          writer := PackWriter.fresh f new opts.maxPackBytes
          packId := new
          newFilesSinceSync := true }
        ghost := { s.ghost with rotating := none } }) (fun _ u => Held cap t [] u) s := by
  refine wp_atomic ((owner_allocated new).stable _ PackFile.samePack) ⟨hs, hfile⟩
    fun o u hi hu _ => ?_
  obtain ⟨hu, hfile⟩ := hu
  have hbytes : ∀ p, World.packBytes { u with
      active := { u.active with
        writer := PackWriter.fresh f new opts.maxPackBytes
        packId := new
        newFilesSinceSync := true }
      ghost := { u.ghost with rotating := none } } p = u.packBytes p := by
    intro p
    have hnew : (if p = new then (PackWriter.fresh f new opts.maxPackBytes).writeBuf else []) =
        ([] : Bytes) := by split <;> rfl
    have hold : (if p = u.active.packId then u.active.writer.writeBuf else []) = ([] : Bytes) := by
      rw [hu.shut.buf]
      split <;> rfl
    simp only [World.packBytes]
    rw [hnew, hold]
  have hbase : Base cap { u with
      active := { u.active with
        writer := PackWriter.fresh f new opts.maxPackBytes
        packId := new
        newFilesSinceSync := true }
      ghost := { u.ghost with rotating := none } } :=
    { hi.toBase with
      active := hu.below
      file := hfile.lookup
      own := hu.free
      located := fun h l hl => by
        obtain ⟨b, hb, hrec⟩ := hi.located h l hl
        exact ⟨b, (hbytes l.pack).trans hb, hrec⟩ }
  refine ⟨.of_locked hbase hu.lock, .of_holder hu.lock hu.lock fun _ =>
    .of_eq rfl rfl (le_of_lt hu.above) rfl, hu.lock, .nil hcap, .inl ⟨?_, hfile.idx, hopts⟩, ?_⟩
  · show (PackWriter.fresh f new opts.maxPackBytes).Holds (u.pages.content f) []
    rw [hfile.content]
    exact PackWriter.holds_fresh _ _ _ _
  · -- a pack without records has no index entries
    intro h l hl
    refine iff_of_false (fun hget => ?_) fun hat => by cases hat
    obtain ⟨b, hb, hrec⟩ := hi.located h l hget
    have hl' : l.pack = new := hl
    have hne : ¬ new = u.active.packId := Nat.ne_of_gt hu.above
    rw [World.packBytes, hl', FileSys.readName_eq hfile.lookup, hfile.content, if_neg hne] at hb
    obtain rfl := Option.some.inj hb
    have hlen := hrec.length_le
    simp only [List.append_nil, length_packHeader, packHeaderSize, recordSize, recordHeaderSize,
      pageSize] at hlen
    omega

theorem wpOr_rotateLocked {opts : StoreOptions} (hcap : packHeaderSize ≤ cap)
    (hopts : opts.maxPackBytes ≤ cap) (hs : Held cap t rs s)
    (hbad : ∀ e u, Held cap t rs u → bad e u) :
    wpOr (rules cap collects t) bad (PageStore.rotateLocked opts)
      (fun _ u => Held cap t [] u) s := by
  refine wpOr_bind (R := fun old u => Held cap t rs u ∧ u.active.packId = old)
    (wpOr_read stable_holding hs fun u _ hu => ⟨hu, rfl⟩) fun old u hu => ?_
  have hid : Stable (rules cap collects t) fun u => Held cap t rs u ∧ u.active.packId = old :=
    stable_held_of fun u v hu hf => by rw [hu.active]; exact hf
  refine wpOr_bind (R := fun _ u => Held cap t rs u ∧ u.active.packId = old)
    (wp_atomic hid hu fun o u hi hu _ => ?_) fun _ u hu => ?_
  · obtain ⟨⟨hl, hset⟩, hold⟩ := hu
    have hbase : Base cap { u with active :=
      { u.active with dirtySinceSync := u.active.dirtySinceSync.insert u.active.packId } } :=
      { hi.toBase with }
    exact ⟨.of_locked hbase hl, .of_holder hl hl fun _ => .of_eq rfl rfl le_rfl rfl,
      ⟨hl, hset.congr rfl rfl rfl rfl⟩, hold⟩
  refine wpOr_bind (wpOr_sealActiveNoSync hu.1 hu.2 hbad) fun _ u hu => ?_
  have hO : Owner cap collects t old (IsSidecar old)
    fun u => Closing cap t rs u ∧ u.active.packId = old := owner_closing old
  have hstable : Stable (rules cap collects t)
      fun u => Closing cap t rs u ∧ u.active.packId = old := by
    intro u v hu hr hi
    exact (hO.stable (fun _ => True) (fun _ _ _ => id) u v ⟨hu, trivial⟩ hr hi).1
  refine wpOr_bind (wpOr_packEntries (A := fun h l => Packs.At (fun _ => rs) h l) hstable
    (fun u _ hu h l hl => hu.1.settled.covers h l (hl.trans hu.2.symm)) hu) fun es u hu => ?_
  obtain ⟨hu, hes⟩ := hu
  refine wpOr_bind (wpOr_writeSidecarEntries hO (fun e v hv => hbad e v hv.1.held)
    (fun v hi hv => ?_) hu) fun _ u hu => ?_
  · rw [← hv.2]
    exact hv.1.sidecar hi.toBase (hv.2 ▸ ⟨hes.1, hes.2⟩)
  refine wpOr_bind (wpOr_allocNext hu.1 fun e v hv => hbad e v hv.held) fun new u hu => ?_
  have hnew : ∀ v, Base cap v → Allocated cap t rs new v →
      new < v.active.nextPackId ∧ new ≠ v.active.packId :=
    fun v _ hv => ⟨hv.below, Nat.ne_of_gt hv.above⟩
  refine wpOr_bind (wpOr_createPackFile (owner_allocated new)
    (fun e v hv => hbad e v hv.toClosing.held) hnew hu.1 hu.2) fun f u hu => ?_
  refine wpOr_bind (wpOr_writePackHeader (owner_allocated new) hcap hnew hu.1 hu.2)
    fun _ u hu => ?_
  obtain ⟨hu, clock, hfile⟩ := hu
  exact wpOr_bind (wpOr_installPack hcap hopts hu hfile) fun _ u hu => wpOr_pure hu

end Rotation

/-! ## Calls -/

def Holding (cap : Nat) (t : Tid) (s : World) : Prop := ∃ rs, Held cap t rs s

theorem stable_holding_of {F : World → Prop} (hF : ∀ s s', Undisturbed s s' → F s → F s') :
    Stable (rules cap collects t) fun s => Holding cap t s ∧ F s := by
  intro u v ⟨⟨rs, hu⟩, hf⟩ hr hi
  obtain ⟨hv, hf'⟩ := stable_held_of hF u v ⟨hu, hf⟩ hr hi
  exact ⟨⟨rs, hv⟩, hf'⟩

theorem stable_order : Stable (rules cap collects t) (Holding cap t) := by
  intro u v hu hr hi
  exact (stable_holding_of (F := fun _ => True) (fun _ _ _ => id) u v ⟨hu, trivial⟩ hr hi).1

theorem wpOr_withActive {body : ExceptT E P α} {A : World → Prop} {Q : α → World → Prop}
    (hA : Stable (rules cap collects t) A) (hs : A s)
    (hQ : ∀ a, Stable (rules cap collects t) (Q a))
    (hunlock : ∀ a u, Q a u → Q a { u with activeLock := none })
    (h : ∀ u, Inv cap u → A u → Holding cap t { u with activeLock := some t } →
      wpOr (rules cap collects t) (fun _ v => Holding cap t v) body
        (fun a v => Holding cap t v ∧ Q a v) { u with activeLock := some t }) :
    wpOr (rules cap collects t) (fun _ _ => True) (withActive t body) Q s := by
  refine wp_bind (wp_await hA hs fun o u b v hi hu hf _ => ?_)
  cases hlock : u.activeLock with
  | some w => simp [hlock] at hf
  | none =>
    simp only [hlock, Option.some.injEq, Prod.mk.injEq] at hf
    obtain ⟨-, rfl⟩ := hf
    have hbase : Base cap { u with activeLock := some t } := { hi.toBase with }
    obtain ⟨rs, hrs⟩ := hi.settled hlock
    have hheld : Held cap t rs { u with activeLock := some t } :=
      ⟨rfl, hrs.congr rfl rfl rfl rfl⟩
    refine ⟨.of_locked hbase rfl, ⟨fun w _ hw => ?_, fun w hw heq => ?_, fun _ =>
      .of_eq rfl rfl le_rfl rfl⟩, ?_⟩
    · rw [hlock] at hw
      cases hw
    · exact absurd (Option.some.inj heq).symm hw
    · refine wp_bind (wp_mono (fun r v hr => ?_) (h u hi hu ⟨rs, hheld⟩))
      have hend : Holding cap t v ∧ ∀ a, r = .ok a → Q a v := by
        cases r with
        | ok a =>
          refine ⟨hr.1, fun a' ha => ?_⟩
          cases ha
          exact hr.2
        | error e => exact ⟨hr, fun a ha => by cases ha⟩
      refine wp_bind (wp_atomic (P := fun v => Holding cap t v ∧ ∀ a, r = .ok a → Q a v)
        (stable_order.and (Stable.all fun a => Stable.all fun _ => hQ a)) hend
        fun o v hi hv _ => ?_)
      obtain ⟨⟨rs, hl, hset⟩, hv⟩ := hv
      have hbase : Base cap { v with activeLock := none } := { hi.toBase with }
      refine ⟨⟨hbase, fun _ => ⟨rs, hset.congr rfl rfl rfl rfl⟩⟩, ⟨fun w hw heq => ?_,
        fun w _ heq => ?_, fun _ => .of_eq rfl rfl le_rfl rfl⟩, ?_⟩
      · rw [hl] at heq
        exact absurd (Option.some.inj heq).symm hw
      · cases heq
      · cases r with
        | ok a => exact hunlock a v (hv a rfl)
        | error e => exact trivial

def Steady (s s' : World) : Prop := s'.index = s.index ∧ s'.activeLock = s.activeLock

theorem steady_rotateLocked (opts : StoreOptions) :
    Within Steady (PageStore.rotateLocked opts).run := by
  refine (PageStore.packMove_rotateLocked opts).within.mono fun s u h => ⟨h.index, ?_⟩
  have hlocks := h.locks
  simp only [World.lockPart, Prod.mk.injEq] at hlocks
  exact hlocks.2.2.1

section Calls

variable {opts : StoreOptions}

theorem wpOr_ingestOne (hcap : packHeaderSize ≤ cap) (hopts : opts.maxPackBytes ≤ cap)
    {pages : List Page} {outcomes : List (Option IngestOutcome)} {e : PageHash × Nat}
    (he : ∀ page, pages[e.2]? = some page → blake3 page.bytes = e.1) (hs : Holding cap t s) :
    wpOr (rules cap collects t) (fun _ u => Holding cap t u)
      (PageStore.ingestOne opts pages outcomes e) (fun _ u => Holding cap t u) s := by
  have hwrite : ∀ u, Holding cap t u → u.index.get e.1 = none →
      wpOr (rules cap collects t) (fun _ u => Holding cap t u)
        (PageStore.writeEntry pages outcomes e) (fun _ u => Holding cap t u) u := by
    intro u ⟨rs, hu⟩ hnew
    unfold PageStore.writeEntry
    split
    · exact wpOr_throw ⟨rs, hu⟩
    · next page hpage =>
      exact wpOr_bind (wpOr_writePage hu hnew (he page hpage) fun _ v hv => ⟨rs, hv⟩)
        fun _ v hv => wpOr_pure ⟨_, hv⟩
  have habsent : Stable (rules cap collects t)
      fun u => Holding cap t u ∧ u.index.get e.1 = none :=
    stable_holding_of fun u v hu => hu.absent e.1
  refine wpOr_bind (R := fun found u => Holding cap t u ∧ (found = none → u.index.get e.1 = none))
    (wpOr_read stable_order hs fun u _ hu => ⟨hu, id⟩) fun found u hu => ?_
  cases found with
  | some loc => exact wpOr_pure hu.1
  | none =>
    refine wpOr_bind (R := fun _ u => Holding cap t u ∧ u.index.get e.1 = none)
      (wpOr_read habsent ⟨hu.1, hu.2 rfl⟩ fun u _ hu => hu) fun full u hu => ?_
    dsimp only
    split
    · obtain ⟨⟨rs, hheld⟩, hnone⟩ := hu
      refine wpOr_bind (wpOr_frame (P := fun u => u.activeLock = some t ∧ u.index.get e.1 = none)
        (steady_rotateLocked opts) (stable_held fun _ _ _ hu => hu.absent e.1) (fun u v huv hu => ?_)
        ⟨hheld.1, hnone⟩ (wpOr_rotateLocked hcap hopts hheld fun _ v hv => ⟨rs, hv⟩))
        fun _ v hv => hwrite v ⟨[], hv.1⟩ hv.2.2
      rw [huv.1, huv.2]
      exact hu
    · exact hwrite u hu.1 hu.2

end Calls

end Sharing

end SnapStore

import SnapStore.Pagestore.Ingest
import SnapStore.Pagestore.Sharing

/-!
# Steps on packs

Rules for single steps of a thread of the page store, and the programs that create a pack file or
write a sidecar, for whoever owns the pack.
-/

namespace SnapStore

open Disk Conc

namespace Sharing

variable [Primitives] {cap : Nat} {collects : Prop} {t : Tid} {s s' : World} {p : PackId}
  {rs : List Entry} {E α : Type}

/-! ## Rules for single steps -/

section Steps

variable {bad : E → World → Prop} {P : World → Prop} {Q : α → World → Prop}

omit [Primitives] in
theorem Guar.refl (s : World) : Guar collects t s s :=
  ⟨fun _ _ _ => .of_eq rfl rfl rfl rfl rfl, fun _ _ => id, fun _ => .of_eq rfl rfl le_rfl rfl⟩

theorem wpOr_action {f : Oracle → World → Except E α × World}
    (hP : Stable (rules cap collects t) P) (hs : P s)
    (h : ∀ o u, Writes o → Inv cap u → P u → Inv cap (f o u).2 ∧ Guar collects t u (f o u).2 ∧
      okOr bad Q (f o u).1 (f o u).2) : wpOr (rules cap collects t) bad (action f) Q s :=
  PageStore.wpOr_action hP hs h

theorem wpOr_attempt {f : Oracle → World → Except E (α × World)}
    (hP : Stable (rules cap collects t) P) (hs : P s)
    (hok : ∀ o u a v, Writes o → Inv cap u → P u → f o u = .ok (a, v) →
      Inv cap v ∧ Guar collects t u v ∧ Q a v)
    (herr : ∀ e u, Inv cap u → P u → bad e u) :
    wpOr (rules cap collects t) bad (attempt f) Q s :=
  PageStore.wpOr_attempt hP Guar.refl hs hok herr

theorem wpOr_observe {f : Oracle → World → Except E α}
    (hP : Stable (rules cap collects t) P) (hs : P s)
    (hok : ∀ o u a, Inv cap u → P u → f o u = .ok a → Q a u)
    (herr : ∀ e u, Inv cap u → P u → bad e u) :
    wpOr (rules cap collects t) bad (observe f) Q s := by
  refine wpOr_action hP hs fun o u ho hi hu => ⟨hi, .refl u, ?_⟩
  dsimp only
  cases hf : f o u with
  | ok a => exact hok o u a hi hu hf
  | error e => exact herr e u hi hu

theorem wpOr_read {f : World → α} (hP : Stable (rules cap collects t) P) (hs : P s)
    (h : ∀ u, Inv cap u → P u → Q (f u) u) : wpOr (rules cap collects t) bad (look f) Q s :=
  PageStore.wpOr_look hP Guar.refl hs h

end Steps

/-! ## Steps that have nothing to do with the packs -/

structure Apart (s s' : World) : Prop where
  pages : s'.pages = s.pages
  index : s'.index = s.index
  active : s'.active = s.active
  lock : s'.activeLock = s.activeLock
  gc : s'.ghost.gcPacks = s.ghost.gcPacks

namespace Apart

omit [Primitives] in
theorem refl (s : World) : Apart s s := ⟨rfl, rfl, rfl, rfl, rfl⟩

omit [Primitives] in
theorem undisturbed (h : Apart s s') : Undisturbed s s' := .of_eq h.pages h.index h.active h.lock h.gc

theorem base (h : Apart s s') (hs : Base cap s) : Base cap s' := by
  refine hs.grow ?_ (fun p => by rw [h.pages]) ?_ ?_ ?_ h.gc h.index fun p b hb => ⟨b, ?_, ?_⟩
  · rw [h.pages]
    exact hs.disk
  · rw [h.active]
  · rw [h.active]
  · rw [h.active]
  · rw [World.packBytes, h.pages, h.active]
    exact hb
  · exact List.prefix_refl b

theorem inv (h : Apart s s') (hs : Inv cap s) : Inv cap s' := by
  refine ⟨h.base hs.toBase, fun hl => ?_⟩
  obtain ⟨rs, hrs⟩ := hs.settled (h.lock ▸ hl)
  exact ⟨rs, h.undisturbed.settled (h.base hs.toBase) hrs⟩

omit [Primitives] in
theorem guar (h : Apart s s') : Guar collects t s s' := by
  refine ⟨fun _ _ _ => h.undisturbed, fun u _ hl => h.lock ▸ hl, fun _ => ?_⟩
  exact .of_eq h.pages h.index (le_of_eq (by rw [h.active])) h.gc

end Apart

theorem wp_apart {x : P α} {F : World → Prop} (hx : Within Apart x)
    (hF : Stable (rules cap collects t) F) (hA : ∀ u v, Apart u v → F u → F v) (hs : F s) :
    wp (rules cap collects t) x (fun _ u => F u) s :=
  hx.wp hF hs fun _ u v hi hu _ hR => ⟨hR.inv hi, hR.guar, hA u v hR hu⟩

theorem stable_true : Stable (rules cap collects t) fun _ => True := fun _ _ _ _ _ => trivial

/-! ## Pack writers -/

theorem wrote_sound {fs fs' : PagesFs} {w w' : PackWriter} {new : Bytes}
    (h : DiskSound cap fs) (hf : fs.lookup (.spk p) = some w.file)
    (hidx : fs.lookup (.idx p) = none) (hm : PackWriter.Wrote (.spk p) w w' fs fs' new)
    (hw : w'.writeBuf = [] → PackOf cap rs (fs'.content w.file)) :
    DiskSound cap fs' := by
  have hp : p < 2 ^ 32 := h.ids p (by rw [hf]; rfl)
  refine h.setPack hm.frame hidx (fun b hread => ?_) fun _ => hp
  rw [FileSys.readName_eq (by rw [hm.lookup, hf])] at hread
  obtain rfl := Option.some.inj hread
  rcases hm.whole with rfl | hbuf
  · exact h.pack p _ (FileSys.readName_eq hf)
  · exact .inr ⟨rs, hw hbuf⟩

theorem packOf_of_holds {w : PackWriter} {c : Bytes} (hw : w.Holds c rs)
    (hb : Bounded cap rs) (hbuf : w.writeBuf = []) : PackOf cap rs c := by
  obtain ⟨hdr, hh, hp⟩ := hw.pack
  rw [hbuf, List.append_nil] at hp
  exact ⟨hb, hdr, hh, .inl hp⟩

theorem bounded_append {w : PackWriter} {c : Bytes} {h : PageHash} {page : Page}
    (hb : Bounded cap rs) (hw : w.Holds c rs) (hcap : w.maxBytes ≤ cap)
    (hroom : w.wouldExceedCap = false) (hh : blake3 page.bytes = h) :
    Bounded cap (rs ++ [(h, page)]) := by
  refine ⟨hb.hashed.append fun r hr => ?_, ?_⟩
  · rw [List.mem_singleton.mp hr]
    exact hh
  · rw [List.length_append]
    refine le_trans ?_ hcap
    rw [← not_lt, List.length_singleton, ← PackWriter.wouldExceedCap_iff hw, hroom]
    simp

/-! ## Files of an owned pack

`F` is what the owner knows besides, and the names in `N` are those it changes. -/

structure Owner (cap : Nat) (collects : Prop) (t : Tid) (p : PackId) (N : PageFile → Prop)
    (F : World → Prop) : Prop where
  pack : ∀ n, N n → n.pack = p
  mine : ∀ u, Base cap u → F u → Mine collects t p u
  stable : ∀ G : World → Prop, (∀ u v, SamePack p u v → G u → G v) →
    Stable (rules cap collects t) fun u => F u ∧ G u
  keep : ∀ (u : World) fs g, Base cap u → F u → g.gcPacks = u.ghost.gcPacks →
    u.pages.SameBut N fs → F { u with pages := fs, ghost := g }

def IsSidecar (p : PackId) (n : PageFile) : Prop := n = .idxTmp p ∨ n = .idx p

namespace Owner

variable {N : PageFile → Prop} {F : World → Prop} {bad : E → World → Prop}

theorem step (h : Owner cap collects t p N F) (hi : Inv cap s) (hs : F s) {fs : PagesFs} {g : Ghost}
    (hg : g.gcPacks = s.ghost.gcPacks) (hf : s.pages.SameBut N fs)
    (hb : Base cap { s with pages := fs, ghost := g }) :
    Inv cap { s with pages := fs, ghost := g } ∧
      Guar collects t s { s with pages := fs, ghost := g } ∧
      F { s with pages := fs, ghost := g } := by
  have hstep : FileStep t p s { s with pages := fs, ghost := g } :=
    ⟨hf.mono h.pack, rfl, rfl, hg, .inl rfl⟩
  have hm := h.mine s hi.toBase hs
  exact ⟨hstep.inv hm hi hb, hstep.guar hm, h.keep s fs g hi.toBase hs hg hf⟩

theorem restrict (h : Owner cap collects t p N F) {N' : PageFile → Prop} (hN : ∀ n, N' n → N n)
    {H : World → Prop} (hH : ∀ u v, SamePack p u v → H u → H v)
    (hkeep : ∀ (u : World) fs g, u.pages.SameBut N' fs → H u → H { u with pages := fs, ghost := g }) :
    Owner cap collects t p N' fun u => F u ∧ H u where
  pack n hn := h.pack n (hN n hn)
  mine u hb hu := h.mine u hb hu.1
  stable G hG := by
    intro u v ⟨⟨hu, hh⟩, hg⟩ hr hi
    obtain ⟨hv, hh', hg'⟩ := h.stable (fun u => H u ∧ G u)
      (fun u v huv hu => ⟨hH u v huv hu.1, hG u v huv hu.2⟩) u v ⟨hu, hh, hg⟩ hr hi
    exact ⟨⟨hv, hh'⟩, hg'⟩
  keep u fs g hb hu hg hf := ⟨h.keep u fs g hb hu.1 hg (hf.mono hN), hkeep u fs g hf hu.2⟩

end Owner

theorem base_sidecar (h : Base cap s) {fs : PagesFs} {g : Ghost}
    (hg : g.gcPacks = s.ghost.gcPacks) (hf : s.pages.SameBut (IsSidecar p) fs)
    (hd : DiskSound cap fs) : Base cap { s with pages := fs, ghost := g } := by
  have hspk : ∀ q, ¬ IsSidecar p (.spk q) := fun q hq => by
    rcases hq with hq | hq <;> cases hq
  refine h.grow hd (fun q => hf.lookup _ (hspk q)) rfl rfl rfl hg rfl fun q b hb => ⟨b, ?_, ?_⟩
  · show (fs.readName _).map _ = _
    rw [hf.readName (hspk q)]
    exact hb
  · exact List.prefix_refl b

def Staged (p : PackId) (f : Ino) (b : Bytes) (s : World) : Prop :=
  s.pages.lookup (.idxTmp p) = some f ∧ s.pages.content f = b

omit [Primitives] in
theorem Staged.samePack {f : Ino} {b : Bytes} (u v : World) (h : SamePack p u v)
    (hs : Staged p f b u) : Staged p f b v :=
  ⟨(h.lookup _ rfl).trans hs.1, (h.content _ _ rfl hs.1).trans hs.2⟩

theorem wpOr_sidecarSteps {ρ : Rules Oracle World} {F : World → Prop}
    {es : List (PageHash × PageLoc)} {bad : PageStoreError → World → Prop}
    (hstable : ∀ G : World → Prop, (∀ u v, SamePack p u v → G u → G v) →
      Stable ρ fun u => F u ∧ G u)
    (hrefl : ∀ u, ρ.guar u u) (hun : ∀ u, ρ.inv u → u.pages.Unaliased)
    (hstep : ∀ u fs, ρ.inv u → F u → u.pages.SameBut (IsSidecar p) fs →
      (fs.readName (.idx p) = u.pages.readName (.idx p) ∨
        fs.readName (.idx p) = some (encodeSidecar es)) →
      ρ.inv { u with pages := fs } ∧ ρ.guar u { u with pages := fs } ∧ F { u with pages := fs })
    (hbad : ∀ e u, F u → bad e u) (hs : F s) :
    wpOr ρ bad (PageStore.writeSidecarEntries p es) (fun _ u => F u) s := by
  have hF : Stable ρ F := by
    intro u v hu hr hi
    exact (hstable (fun _ => True) (fun _ _ _ => id) u v ⟨hu, trivial⟩ hr hi).1
  have hstaged : ∀ f b, Stable ρ fun u => F u ∧ Staged p f b u :=
    fun f b => hstable _ Staged.samePack
  -- a step on the staging file
  have htmp : ∀ u fs, ρ.inv u → F u → u.pages.SameBut (· = .idxTmp p) fs →
      ρ.inv { u with pages := fs } ∧ ρ.guar u { u with pages := fs } ∧ F { u with pages := fs } :=
    fun u fs hi hu hf => hstep u fs hi hu (hf.mono fun n hn => .inl hn)
      (.inl (hf.readName (by simp)))
  refine PageStore.wpOr_withError (wpOr_bind (R := fun f u => F u ∧ Staged p f [] u)
    (PageStore.wpOr_attempt hF hrefl hs (fun o u f v _ hi hu hf => ?_) fun e u _ hu => hbad _ u hu)
    fun f u hu => ?_)
  · split at hf <;> cases hf
    obtain ⟨hinv, hguar, hF⟩ := htmp u _ hi hu (.openTruncate (hun u hi) (.idxTmp p))
    exact ⟨hinv, hguar, hF, FileSys.Unaliased.lookup_openTruncate u.pages (.idxTmp p)⟩
  refine wpOr_bind (R := fun _ u => F u ∧ Staged p f (encodeSidecar es) u)
    (PageStore.wpOr_action (hstaged f []) hu fun o u _ hi hu => ?_) fun _ u hu => ?_
  · obtain ⟨hu, hstage⟩ := hu
    have hwrite : ∀ bs, ρ.inv { u with pages := u.pages.write f 0 bs } ∧
        ρ.guar u { u with pages := u.pages.write f 0 bs } ∧
        F { u with pages := u.pages.write f 0 bs } := fun bs =>
      htmp u _ hi hu (.write (hun u hi) hstage.1 _ _)
    cases o.fault .sidecar .write with
    | some n =>
      obtain ⟨hinv, hguar, hF⟩ := hwrite ((encodeSidecar es).take n)
      exact ⟨hinv, hguar, hbad _ _ hF⟩
    | none =>
      obtain ⟨hinv, hguar, hF⟩ := hwrite (encodeSidecar es)
      refine ⟨hinv, hguar, hF, hstage.1, ?_⟩
      show (u.pages.write f 0 (encodeSidecar es)).content f = _
      rw [FileSys.content_write, if_pos rfl, hstage.2, writeAt_nil_zero]
  refine wpOr_bind (R := fun _ u => F u ∧ Staged p f (encodeSidecar es) u)
    (PageStore.wpOr_attempt (hstaged f _) hrefl hu (fun o u _ v _ hi hu hf => ?_)
      fun e u _ hu => hbad _ u hu.1) fun _ u hu => ?_
  · split at hf <;> cases hf
    obtain ⟨hinv, hguar, hF⟩ := htmp u _ hi hu.1 (.fdatasync (hun u hi) f)
    refine ⟨hinv, hguar, hF, hu.2.1, ?_⟩
    show (u.pages.fdatasync f).content f = _
    rw [FileSys.content_fdatasync, hu.2.2]
  refine PageStore.wpOr_attempt (hstaged f _) hrefl hu (fun o u _ v _ hi hu hf => ?_)
    fun e u _ hu => hbad _ u hu.1
  obtain ⟨hu, hlook, hcontent⟩ := hu
  rw [hlook] at hf
  split at hf <;> cases hf
  next heq _ =>
  obtain rfl := Option.some.inj heq
  have hidx : (u.pages.rename (.idxTmp p) (.idx p) f).lookup (.idx p) = some f := by
    rw [FileSys.lookup_rename, if_pos rfl]
  refine hstep u _ hi hu (.rename (hun u hi) hlook) (.inr ?_)
  rw [FileSys.readName_eq hidx, FileSys.content_rename, hcontent]

theorem wpOr_writeSidecarEntries {F : World → Prop} {es : List (PageHash × PageLoc)}
    {bad : PageStoreError → World → Prop}
    (hO : Owner cap collects t p (IsSidecar p) F) (hbad : ∀ e u, F u → bad e u)
    (hpack : ∀ u, Inv cap u → F u → ∃ c, u.pages.readName (.spk p) = some c ∧
      SidecarOf cap p c (encodeSidecar es)) (hs : F s) :
    wpOr (rules cap collects t) bad (PageStore.writeSidecarEntries p es) (fun _ u => F u) s := by
  have hdisk : ∀ u, Inv cap u → DiskSound cap u.pages := fun u hi => hi.disk
  refine wpOr_sidecarSteps hO.stable Guar.refl (fun u hi => (hdisk u hi).unaliased)
    (fun u fs hi hu hf hidx => ?_) hbad hs
  have hi' : Inv cap u := hi
  have hd : DiskSound cap fs := by
    refine hi'.disk.setSidecar hf fun b hb => ?_
    rcases hidx with heq | heq
    · exact hi'.disk.sidecar p b (heq ▸ hb)
    · obtain rfl := Option.some.inj (heq.symm.trans hb)
      exact hpack u hi hu
  exact hO.step hi hu rfl hf (base_sidecar hi'.toBase rfl hf hd)

structure PackFile (p : PackId) (f : Ino) (b : Bytes) (s : World) : Prop where
  lookup : s.pages.lookup (.spk p) = some f
  content : s.pages.content f = b
  idx : s.pages.lookup (.idx p) = none

omit [Primitives] in
theorem PackFile.samePack {f : Ino} {b : Bytes} (u v : World) (h : SamePack p u v)
    (hs : PackFile p f b u) : PackFile p f b v :=
  ⟨(h.lookup _ rfl).trans hs.lookup, (h.content _ _ rfl hs.lookup).trans hs.content,
    (h.lookup _ rfl).trans hs.idx⟩

theorem base_blank (h : Base cap s) (hp : p < s.active.nextPackId) (hne : p ≠ s.active.packId)
    (hblank : ∀ b, s.pages.readName (.spk p) = some b → b.length < recordSize) {fs : PagesFs}
    {g : Ghost} (hg : g.gcPacks = s.ghost.gcPacks) (hf : s.pages.SameBut (· = .spk p) fs)
    (hd : DiskSound cap fs) : Base cap { s with pages := fs, ghost := g } where
  disk := hd
  below q hq := by
    have hqp : q ≠ p := fun heq => absurd hp (not_lt.mpr (heq ▸ hq))
    show fs.lookup _ = none
    rw [hf.lookup (.spk q) (by simpa using hqp)]
    exact h.below q hq
  active := h.active
  next := h.next
  file := by
    show fs.lookup _ = _
    rw [hf.lookup (.spk _) (by simpa using hne.symm)]
    exact h.file
  gc k hk := by
    rw [hg] at hk
    exact h.gc k hk
  own := by
    rw [hg]
    exact h.own
  located k l hk := by
    obtain ⟨b, hb, hrec⟩ := h.located k l hk
    obtain ⟨c, hc, rfl⟩ := Option.map_eq_some_iff.mp hb
    have hlp : l.pack ≠ p := by
      intro heq
      rw [heq] at hc
      have hlen := hrec.length_le
      rw [heq, if_neg hne, List.append_nil] at hlen
      have hshort := hblank c hc
      omega
    refine ⟨_, ?_, hrec⟩
    show (fs.readName _).map _ = _
    rw [hf.readName (by simpa using hlp), hc]
    rfl

theorem wpOr_createPackFile {F : World → Prop} {bad : PageStoreError → World → Prop}
    (hO : Owner cap collects t p (fun n => n.pack = p) F) (hbad : ∀ e u, F u → bad e u)
    (hid : ∀ u, Base cap u → F u → p < u.active.nextPackId ∧ p ≠ u.active.packId) (hs : F s)
    (hnone : s.pages.lookup (.spk p) = none) :
    wpOr (rules cap collects t) bad (PageStore.createPackFile p)
      (fun f u => F u ∧ PackFile p f [] u) s := by
  refine wpOr_attempt (P := fun u => F u ∧ u.pages.lookup (.spk p) = none)
    (hO.stable _ fun u v h hu => (h.lookup _ rfl).trans hu) ⟨hs, hnone⟩
    (fun o u f v _ hi hu hf => ?_) fun e u _ hu => hbad e u hu.1
  obtain ⟨hu, hnone⟩ := hu
  rw [hnone] at hf
  split at hf <;> cases hf
  have hframe := FileSys.SameBut.create hi.disk.unaliased (.spk p)
  have hlook : (u.pages.create (.spk p)).lookup (.spk p) = some u.pages.nextIno := by
    rw [FileSys.lookup_create, if_pos rfl]
  have hempty : (u.pages.create (.spk p)).content u.pages.nextIno = [] := by
    rw [FileSys.content_create, if_pos rfl]
  have habsent : ∀ b, u.pages.readName (.spk p) ≠ some b := by
    intro b hb
    rw [FileSys.readName, hnone] at hb
    cases hb
  have hidx : u.pages.lookup (.idx p) = none :=
    hi.disk.idx_eq_none fun c hc => absurd hc (habsent c)
  have hd : DiskSound cap (u.pages.create (.spk p)) := by
    refine hi.disk.setPack hframe hidx (fun b hb => .inl ?_) fun _ => lt_trans (hid u hi.toBase hu).1 hi.next
    rw [FileSys.readName_eq hlook, hempty] at hb
    exact (Option.some.inj hb).symm
  obtain ⟨hinv, hguar, hF⟩ := hO.step (g := { u.ghost with
    files := (p, u.pages.nextIno) :: u.ghost.files }) hi hu rfl (hframe.mono fun n hn => by
      rw [hn]; rfl) (base_blank hi.toBase (hid u hi.toBase hu).1 (hid u hi.toBase hu).2
        (fun b hb => absurd hb (habsent b)) rfl hframe hd)
  exact ⟨hinv, hguar, hF, hlook, hempty, (hframe.lookup _ (by simp)).trans hidx⟩

theorem wpOr_writePackHeader {F : World → Prop} {bad : PageStoreError → World → Prop} {f : Ino}
    (hO : Owner cap collects t p (fun n => n.pack = p) F) (hcap : packHeaderSize ≤ cap)
    (hid : ∀ u, Base cap u → F u → p < u.active.nextPackId ∧ p ≠ u.active.packId) (hs : F s)
    (hfile : PackFile p f [] s) :
    wpOr (rules cap collects t) bad (PageStore.writePackHeader f p)
      (fun _ u => F u ∧ ∃ clock, PackFile p f (packHeader p clock) u) s := by
  refine wpOr_action (P := fun u => F u ∧ PackFile p f [] u) (hO.stable _ PackFile.samePack)
    ⟨hs, hfile⟩ fun o u ho hi hu => ?_
  obtain ⟨hu, hlook, hempty, hidx⟩ := hu
  dsimp only
  rw [show o.fault .pack .write = none from ho]
  have hframe := FileSys.SameBut.write hi.disk.unaliased hlook 0 (packHeader p o.clock)
  have hcontent : (u.pages.write f 0 (packHeader p o.clock)).content f = packHeader p o.clock := by
    rw [FileSys.content_write, if_pos rfl, hempty, writeAt_nil_zero]
  have hlook' : (u.pages.write f 0 (packHeader p o.clock)).lookup (.spk p) = some f := hlook
  have hblank : ∀ b, u.pages.readName (.spk p) = some b → b = [] := by
    intro b hb
    rw [FileSys.readName_eq hlook, hempty] at hb
    exact (Option.some.inj hb).symm
  have hd : DiskSound cap (u.pages.write f 0 (packHeader p o.clock)) := by
    refine hi.disk.setPack hframe hidx (fun b hb => .inr ⟨[], ?_⟩)
      fun _ => lt_trans (hid u hi.toBase hu).1 hi.next
    rw [FileSys.readName_eq hlook', hcontent] at hb
    obtain rfl := Option.some.inj hb
    refine ⟨.nil hcap, _, isHeader_packHeader p o.clock, .inl ?_⟩
    simp [openPack]
  obtain ⟨hinv, hguar, hF⟩ := hO.step (g := u.ghost) hi hu rfl (hframe.mono fun n hn => by
      rw [hn]; rfl) (base_blank hi.toBase (hid u hi.toBase hu).1 (hid u hi.toBase hu).2 (fun b hb => by
        rw [hblank b hb]; decide) rfl hframe hd)
  exact ⟨hinv, hguar, hF, o.clock, hlook, hcontent, hidx⟩

/-! ## The entries of a pack -/

theorem wpOr_packEntries {F : World → Prop} {A : PageHash → PageLoc → Prop}
    {bad : PageStoreError → World → Prop} (hF : Stable (rules cap collects t) F)
    (hA : ∀ u, Inv cap u → F u → ∀ h l, l.pack = p → (u.index.get h = some l ↔ A h l))
    (hs : F s) :
    wpOr (rules cap collects t) bad (PageStore.packEntries p)
      (fun es u => F u ∧ (∀ h l, (h, l) ∈ es ↔ l.pack = p ∧ A h l) ∧ es.Nodup) s := by
  refine wpOr_mono (wpOr_foldlM (fun out rest u => F u ∧ ∃ done,
    done ++ rest = List.range shardCount ∧
    (∀ h l, (h, l) ∈ out ↔ shardFor h ∈ done ∧ l.pack = p ∧ A h l) ∧ out.Nodup)
    (fun out shard rest u hu => ?_) (List.range shardCount) [] s ⟨hs, [], List.nil_append _, by simp⟩) ?_
  · obtain ⟨hu, done, hdone, hout, hnodup⟩ := hu
    refine wpOr_bind (R := fun es v => F v ∧ es.Nodup ∧
      ∀ h l, (h, l) ∈ es ↔ shardFor h = shard ∧ l.pack = p ∧ A h l)
      (wpOr_read hF hu fun v hi hv => ⟨hv, v.index.nodup_shardEntriesForPack shard p, ?_⟩)
      fun es v hv => wpOr_pure ?_
    · intro h l
      rw [Index.mem_shardEntriesForPack]
      refine and_congr_right fun _ => ?_
      rw [and_comm]
      exact and_congr_right fun hl => hA v hi hv h l hl
    · obtain ⟨hv, hnodup', hes⟩ := hv
      have hfresh : shard ∉ done := by
        have hrange := List.nodup_range (n := shardCount)
        rw [← hdone, List.nodup_append] at hrange
        intro hmem
        exact hrange.2.2 shard hmem shard List.mem_cons_self rfl
      refine ⟨hv, done ++ [shard], by simp [← hdone], fun h l => ?_, ?_⟩
      · rw [List.mem_append, hout, hes, List.mem_append, List.mem_singleton]
        tauto
      · refine List.nodup_append.mpr ⟨hnodup, hnodup', fun e he e' he' heq => ?_⟩
        subst heq
        have hshard := ((hes e.1 e.2).mp he').1
        exact hfresh (hshard ▸ ((hout e.1 e.2).mp he).1)
  · intro es u hu
    obtain ⟨hu, done, hdone, hes, hnodup⟩ := hu
    rw [List.append_nil] at hdone
    refine ⟨hu, fun h l => ?_, hnodup⟩
    rw [hes, hdone, List.mem_range]
    exact and_iff_right Index.shardFor_lt

end Sharing

end SnapStore

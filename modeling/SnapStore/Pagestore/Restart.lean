import SnapStore.Pagestore.Reopening

/-!
# The store after a recovery

The loops of `PageStore::open`, and the active pack that it reopens or creates.  If the records of
the reopened pack are the only ones of their pages, the index and the active pack agree.
-/

namespace SnapStore

open Disk Conc

namespace Recovery

variable [Primitives] {cap : Nat} {may : Oracle → World → World → Prop} {s s' u : World}
  {p : PackId} {ix : Index} {rs : List Entry}

/-! ## The loops -/

omit [Primitives] in
theorem Unsealed.lookup {fs : PagesFs} (h : Unsealed fs p) :
    (fs.lookup (.spk p)).isSome = true := by
  obtain ⟨b, hread, -⟩ := h
  obtain ⟨f, hlook, -⟩ := FileSys.exists_lookup_of_readName hread
  rw [hlook]
  rfl

omit [Primitives] in
theorem isPackSealed_iff (hp : Headed s.pages p) :
    PageStore.isPackSealed s p = true ↔ ¬ Unsealed s.pages p := by
  obtain ⟨b, hread, hlen⟩ := hp
  have hbytes : PageStore.packBytes s p = some b := hread
  rw [PageStore.isPackSealed, hbytes]
  cases hopen : PackReader.openSealed b with
  | ok e =>
    refine iff_of_true (by simp [hopen]) fun ⟨c, hc, _, hfail⟩ => ?_
    obtain rfl := Option.some.inj (hread.symm.trans hc)
    exact hfail e hopen
  | error e =>
    refine iff_of_false (by simp [hopen]) fun hno => hno ⟨b, hread, hlen, fun e' he' => ?_⟩
    rw [hopen] at he'
    cases he'

theorem reopens_marks (ids : List PackId) :
    Reopens cap may (ids.foldlM (fun marks id => do
        return marks ++ [(id, ← look fun s => PageStore.isPackSealed s id)]) [] :
        PE (List (PackId × Bool)))
      (fun marks u => u = s ∧ marks = ids.map fun id => (id, PageStore.isPackSealed s id)) s := by
  refine wpOr_mono (wpOr_foldlM (fun marks rest u => u = s ∧
      marks ++ rest.map (fun id => (id, PageStore.isPackSealed s id)) =
        ids.map fun id => (id, PageStore.isPackSealed s id))
    (fun marks id rest u hu => ?_) ids [] s ⟨rfl, rfl⟩) fun marks u hu => ?_
  · obtain ⟨rfl, hmarks⟩ := hu
    refine wpOr_bind (R := fun mark v => v = u ∧ mark = PageStore.isPackSealed u id)
      (reopens_look ⟨rfl, rfl⟩) fun mark v hv => ?_
    obtain ⟨rfl, rfl⟩ := hv
    refine wpOr_pure ⟨rfl, ?_⟩
    rw [List.append_assoc]
    exact hmarks
  · rw [List.map_nil, List.append_nil] at hu
    exact hu

omit [Primitives] in
theorem filter_marks (g : Bool → Bool) (f : PackId → Bool) (ids : List PackId) :
    ((ids.map fun id => (id, f id)).filter fun m => g m.2).map (fun m => m.1) =
      ids.filter fun id => g (f id) := by
  simp [List.filter_map, Function.comp_def]

omit [Primitives] in
theorem getLast?_ne_of_mem_dropLast {ids : List PackId} (hsort : ids.Pairwise (· < ·))
    (hp : p ∈ ids.dropLast) : ids.getLast? ≠ some p := by
  intro hlast
  obtain ⟨init, rfl⟩ := List.getLast?_eq_some_iff.mp hlast
  rw [List.dropLast_concat] at hp
  exact absurd ((List.pairwise_append.mp hsort).2.2 p hp p (by simp)) (lt_irrefl _)

theorem reopens_sealAll (hcap : cap < recordOffset (2 ^ 32)) (hd : Down cap s.pages)
    {unsealed : List PackId} (hsort : unsealed.Pairwise (· < ·))
    (hun : ∀ q, Unsealed s.pages q ↔ q ∈ unsealed) :
    Reopens cap may (unsealed.dropLast.foldlM PageStore.sealOld (∅ : Index))
      (fun ix u => Down cap u.pages ∧ Loaded ix u ∧ SameRecords s u ∧
        ∀ q, Unsealed u.pages q ↔ unsealed.getLast? = some q) s := by
  have hsplit : unsealed.dropLast ++ unsealed.getLast?.toList = unsealed := by
    cases hlast : unsealed.getLast? with
    | none =>
      rw [List.getLast?_eq_none_iff.mp hlast]
      rfl
    | some last => exact List.dropLast_append_getLast? last hlast
  refine wpOr_mono (wpOr_foldlM (fun ix rest u => Down cap u.pages ∧ Loaded ix u ∧
      SameRecords s u ∧ (rest ++ unsealed.getLast?.toList).Pairwise (· < ·) ∧
      (rest ≠ [] → unsealed.getLast? ≠ none) ∧
      ∀ q, Unsealed u.pages q ↔ q ∈ rest ++ unsealed.getLast?.toList)
    (fun ix id rest u hu => ?_) unsealed.dropLast ∅ s
    ⟨hd, fun h l hl => ?_, .refl s, ?_, fun hne hlast => ?_, fun q => ?_⟩) fun ix u hu => ?_
  · obtain ⟨hdown, hix, hsame, hrest, hlast, hmem⟩ := hu
    obtain ⟨last, hlast'⟩ := Option.ne_none_iff_exists'.mp (hlast (List.cons_ne_nil id rest))
    rw [hlast'] at hrest hmem ⊢
    obtain ⟨hlt, hrest⟩ := List.pairwise_cons.mp hrest
    have hid : Unsealed u.pages id := (hmem id).mpr List.mem_cons_self
    have hlastun : Unsealed u.pages last := (hmem last).mpr (by simp)
    refine wpOr_mono (wpOr_and_inv hdown
      (reopens_sealOld hcap hdown hix hid hlastun (hlt last (by simp)))) fun ix' v hv => ?_
    obtain ⟨⟨hix', rs, hsealed⟩, hdown'⟩ := hv
    refine ⟨hdown', hix', hsame.trans hsealed.same, hrest, fun _ => Option.some_ne_none last,
      fun q => ?_⟩
    rw [hsealed.unsealed, hmem, List.cons_append, List.mem_cons]
    refine ⟨fun h => h.1.resolve_left h.2, fun h => ⟨.inr h, fun heq => ?_⟩⟩
    exact absurd (hlt q h) (heq ▸ lt_irrefl _)
  · cases hl
  · rw [hsplit]
    exact hsort
  · rw [List.getLast?_eq_none_iff.mp hlast] at hne
    exact hne rfl
  · rw [hsplit]
    exact hun q
  · obtain ⟨hdown, hix, hsame, -, -, hmem⟩ := hu
    refine ⟨hdown, hix, hsame, fun q => ?_⟩
    rw [hmem, List.nil_append, Option.mem_toList]

theorem reopens_loadAll (hcap : cap < recordOffset (2 ^ 32)) (hd : Down cap s.pages)
    (hix : Loaded ix s) {ids : List PackId}
    (hids : ∀ q ∈ ids, Headed s.pages q ∧ ¬ Unsealed s.pages q) :
    Reopens cap may (ids.foldlM PageStore.loadSealed ix)
      (fun ix' u => Down cap u.pages ∧ Loaded ix' u ∧ SameFiles s u) s := by
  refine wpOr_mono (wpOr_foldlM (fun ix rest u => (Down cap u.pages ∧ Loaded ix u ∧ SameFiles s u) ∧
    ∀ q ∈ rest, q ∈ ids) (fun ix id rest u hu => ?_) ids ix s
    ⟨⟨hd, hix, fun _ => rfl, fun _ => rfl⟩, fun _ => id⟩) fun ix u hu => hu.1
  obtain ⟨⟨hdown, hix, hsame⟩, hrest⟩ := hu
  obtain ⟨hhead, hun⟩ := hids id (hrest id List.mem_cons_self)
  refine wpOr_mono (wpOr_and_inv hdown (reopens_loadSealed hcap hdown hix
    (hsame.records.headed id hhead) fun h => hun ((hsame.unsealed_iff id).mp h))) fun ix' v hv => ?_
  obtain ⟨⟨hix', hsame'⟩, hdown'⟩ := hv
  exact ⟨⟨hdown', hix', hsame.trans hsame'⟩, fun q hq => hrest q (List.mem_cons_of_mem id hq)⟩

/-! ## The active pack -/

structure Recovered (cap : Nat) (rs : List Entry) (ix : Index) (a : ActiveState) (s : World) :
    Prop where
  down : Down cap s.pages
  file : s.pages.lookup (.spk a.packId) = some a.writer.file
  holds : a.writer.Holds (s.pages.content a.writer.file) rs
  buf : a.writer.writeBuf = []
  idx : s.pages.lookup (.idx a.packId) = none
  room : a.writer.maxBytes ≤ cap
  bounded : Bounded cap rs
  covers : ∀ h l, l.pack = a.packId → (ix.get h = some l ↔ Packs.At (fun _ => rs) h l)
  records : ∀ h l, ix.get h = some l → (l.offset, h) ∈ recordsOf s.pages l.pack

theorem get_insert_reopened (hd : Distinct s.pages) (hp : Reopened s.pages p) (hix : Loaded ix s)
    (hrec : recordsOf s.pages p = entriesAt packHeaderSize rs) (h : PageHash) (l : PageLoc) :
    (ix.insertBatch ((entriesAt packHeaderSize rs).map fun r => (r.2, ⟨p, r.1⟩))).get h = some l ↔
      ix.get h = some l ∨ l.pack = p ∧ Packs.At (fun _ => rs) h l := by
  obtain ⟨hnodup, hother⟩ := hd p hp
  have hlists : Lists (fun _ => rs) p _ := .scan _ p
  have hmem : ∀ {k l}, l.pack = p ∧ Packs.At (fun _ => rs) k l → (l.offset, k) ∈ recordsOf s.pages p :=
    fun hl => hrec ▸ hl.2
  have hnot : ∀ k l l', ix.get k = some l → ¬ (l'.pack = p ∧ Packs.At (fun _ => rs) k l') := by
    intro k l l' hl hl'
    obtain ⟨hun, hr⟩ := hix k l hl
    refine hother l.pack (fun heq => hun (heq ▸ hp.1)) k ?_ (List.mem_map_of_mem hr)
    exact List.mem_map_of_mem (f := Prod.snd) (hmem hl')
  refine Index.get_insertBatch_iff (fun _ _ => Iff.rfl) hlists.mem (fun k l l' hl hl' => ?_) h l
  rcases hl with hl | hl
  · rcases hl' with hl' | hl'
    · exact Option.some.inj (hl.symm.trans hl')
    · exact absurd hl' (hnot k l l' hl)
  · rcases hl' with hl' | hl'
    · exact absurd hl (hnot k l' l hl')
    · have hoff := List.inj_on_of_nodup_map hnodup (hmem hl) (hmem hl') rfl
      obtain ⟨pack, off⟩ := l
      obtain ⟨pack', off'⟩ := l'
      obtain rfl : off = off' := (Prod.mk.inj hoff).1
      rw [show pack = pack' from hl.1.trans hl'.1.symm]

theorem reopens_reopenPackForAppend {hdr : Bytes} (hh : IsHeader hdr) (hhash : Hashed rs) {f : Ino}
    (hlook : s.pages.lookup (.spk p) = some f) (hc : s.pages.content f = openPack hdr rs) :
    Reopens cap may (PageStore.reopenPackForAppend ix p)
      (fun r u => u = s ∧ PackWriter.reopen f p (openPack hdr rs) = .ok r.1 ∧
        r.2 = ix.insertBatch ((entriesAt packHeaderSize rs).map fun r => (r.2, ⟨p, r.1⟩))) s := by
  have hread : s.pages.readName (.spk p) = some (openPack hdr rs) := by
    rw [FileSys.readName_eq hlook, hc]
  refine wpOr_bind (reopens_openUnsealed hh hhash hread) fun e u hu => ?_
  obtain ⟨rfl, rfl⟩ := hu
  refine wpOr_bind (reopens_scanFile hh hread) fun records v hv => ?_
  obtain ⟨rfl, rfl⟩ := hv
  refine wpOr_bind (R := fun w u => u = v ∧ PackWriter.reopen f p (openPack hdr rs) = .ok w)
    (reopens_observe fun o w _ hw => ⟨rfl, ?_⟩) fun w u hu => wpOr_pure ⟨hu.1, hu.2, rfl⟩
  rw [hlook] at hw
  split at hw
  · cases hw
  · next heq => cases heq
  · next heq =>
    cases heq
    rw [hc] at hw
    cases hopen : PackWriter.reopen f p (openPack hdr rs) with
    | ok w' =>
      rw [hopen] at hw
      cases hw
      rfl
    | error e =>
      rw [hopen] at hw
      cases hw

theorem holds_reopened {hdr : Bytes} {f : Ino} {w : PackWriter} (hh : IsHeader hdr)
    (hhash : Hashed rs) (hw : PackWriter.reopen f p (openPack hdr rs) = .ok w) :
    w.Holds (openPack hdr rs) rs ∧ w.file = f ∧ w.writeBuf = [] ∧ w.maxBytes = packMaxBytes := by
  rw [reopen_openPack hh hhash] at hw
  cases hw
  refine ⟨⟨⟨hdr, hh, by simp⟩, ?_, rfl, rfl, rfl, rfl⟩, rfl, rfl, rfl⟩
  exact (length_openPack hh rs).symm

theorem down_blank (h : Down cap s.pages) {fs : PagesFs} {b : Bytes} (hp : p < 2 ^ 32)
    (hblank : ∀ c, s.pages.readName (.spk p) = some c → c = [])
    (hf : s.pages.SameBut (· = .spk p) fs) (hread : fs.readName (.spk p) = some b)
    (hb : b = [] ∨ PackOf cap [] b) (hcap : cap < recordOffset (2 ^ 32)) : Down cap fs := by
  refine ⟨h.disk.setPack hf (h.disk.idx_eq_none hblank) (fun c hc => ?_) fun _ => hp,
    h.distinct.blank (p := p) (fun q hq => hf.readName (by simpa using hq)) ?_ ?_ ?_⟩
  · obtain rfl := Option.some.inj (hread.symm.trans hc)
    exact hb.imp id fun hb => ⟨[], hb⟩
  · intro ⟨c, hc, hlen, _⟩
    obtain rfl := hblank c hc
    exact absurd hlen (by decide)
  · cases hold : s.pages.readName (.spk p) with
    | none =>
      rw [recordsOf, hold]
      rfl
    | some c =>
      rw [recordsOf_eq hold, hblank c hold, packRecords_nil]
  · rw [recordsOf_eq hread]
    rcases hb with rfl | hb
    · exact packRecords_nil
    · exact packRecords_eq hb hcap

structure Created (p : PackId) (f : Ino) (s u : World) : Prop where
  lookup : u.pages.lookup (.spk p) = some f
  idx : u.pages.lookup (.idx p) = none
  others : ∀ q, q ≠ p → u.pages.readName (.spk q) = s.pages.readName (.spk q)

omit [Primitives] in
theorem Created.write {f : Ino} (h : Created p f s u) (hu : u.pages.Unaliased) (b : Bytes) :
    Created p f s { u with pages := u.pages.write f 0 b } := by
  have hframe : u.pages.SameBut (· = .spk p) (u.pages.write f 0 b) := .write hu h.lookup _ _
  exact ⟨h.lookup, h.idx, fun q hq => (hframe.readName (by simpa using hq)).trans (h.others q hq)⟩

theorem reopens_createActive {opts : StoreOptions} (hcap : cap < recordOffset (2 ^ 32))
    (hmin : packHeaderSize ≤ cap) (hp : p < 2 ^ 32) (hnew : s.pages.lookup (.spk p) = none) :
    Reopens cap may (PageStore.createActive opts p)
      (fun w u => Created p w.file s u ∧ w.Holds (u.pages.content w.file) [] ∧
        w.writeBuf = [] ∧ w.maxBytes = opts.maxPackBytes) s := by
  have hnone : ∀ c, s.pages.readName (.spk p) = some c → c = [] := by
    intro c hc
    rw [FileSys.readName, hnew] at hc
    cases hc
  refine wpOr_bind (R := fun f u => Created p f s u ∧ u.pages.content f = [])
    (reopens_attempt fun o f u _ hi hf => ?_) fun f u hu => ?_
  · split at hf <;> cases hf
    have hframe : s.pages.SameBut (· = .spk p) (s.pages.create (.spk p)) :=
      .create hi.disk.unaliased _
    have hlook : (s.pages.create (.spk p)).lookup (.spk p) = some s.pages.nextIno := by
      rw [FileSys.lookup_create, if_pos rfl]
    have hc : (s.pages.create (.spk p)).content s.pages.nextIno = [] := by
      rw [FileSys.content_create, if_pos rfl]
    refine ⟨down_blank hi hp hnone hframe (FileSys.readName_eq hlook) (.inl hc) hcap,
      ⟨hlook, ?_, fun q hq => hframe.readName (by simpa using hq)⟩, hc⟩
    exact (hframe.lookup _ (by simp)).trans (hi.disk.idx_eq_none hnone)
  · obtain ⟨hcreated, hc⟩ := hu
    refine wpOr_bind (R := fun _ u => Created p f s u ∧ ∃ clock, u.pages.content f = packHeader p clock)
      (reopens_action fun o ho hi => ?_) fun _ v hv => ?_
    · simp only [ho.write]
      have hframe : u.pages.SameBut (· = .spk p) (u.pages.write f 0 (packHeader p o.clock)) :=
        .write hi.disk.unaliased hcreated.lookup _ _
      have hc' : (u.pages.write f 0 (packHeader p o.clock)).content f = packHeader p o.clock := by
        rw [FileSys.content_write, if_pos rfl, hc, writeAt_nil_zero]
      have hread : u.pages.readName (.spk p) = some [] := by
        rw [FileSys.readName_eq hcreated.lookup, hc]
      have hcreated' := hcreated.write hi.disk.unaliased (packHeader p o.clock)
      have hpack : PackOf cap [] (packHeader p o.clock) :=
        ⟨.nil hmin, _, isHeader_packHeader p o.clock, .inl (by simp [openPack])⟩
      refine ⟨down_blank hi hp (fun c hc => (Option.some.inj (hread.symm.trans hc)).symm) hframe
        (FileSys.readName_eq hcreated'.lookup) (.inr ?_) hcap,
        fun _ _ => ⟨hcreated', o.clock, hc'⟩⟩
      rw [hc']
      exact hpack
    · obtain ⟨hcreated, clock, hc⟩ := hv
      refine wpOr_pure ⟨hcreated, ?_, rfl, rfl⟩
      show (PackWriter.fresh f p opts.maxPackBytes).Holds (v.pages.content f) []
      rw [hc]
      exact PackWriter.holds_fresh f p clock opts.maxPackBytes

theorem reopens_succPackId {Q : PackId → World → Prop} (h : p + 1 < 2 ^ 32 → Q (p + 1) s) :
    Reopens cap may (PageStore.succPackId p) Q s := by
  unfold PageStore.succPackId
  split
  · next hlt => exact wpOr_pure (h hlt)
  · exact wpOr_throw trivial

theorem reopens_freshPackId {ids : List PackId} (hids : Directory ids s) :
    Reopens cap may (PageStore.freshPackId ids)
      (fun p u => u = s ∧ p < 2 ^ 32 ∧ s.pages.lookup (.spk p) = none) s := by
  have hnone : ∀ p, p ∉ ids → s.pages.lookup (.spk p) = none := fun p hp => by
    rw [← Option.not_isSome_iff_eq_none, ← hids.mem]
    exact hp
  unfold PageStore.freshPackId
  cases hlast : ids.getLast? with
  | none =>
    refine wpOr_pure ⟨rfl, by decide, hnone 0 ?_⟩
    simp [List.getLast?_eq_none_iff.mp hlast]
  | some last =>
    refine reopens_succPackId fun hlt => ⟨rfl, hlt, hnone _ fun hmem => ?_⟩
    obtain ⟨init, rfl⟩ := List.getLast?_eq_some_iff.mp hlast
    have hle : last + 1 ≤ last := by
      rcases List.mem_append.mp hmem with hinit | hself
      · exact le_of_lt ((List.pairwise_append.mp hids.sorted).2.2 _ hinit last (by simp))
      · exact le_of_eq (List.mem_singleton.mp hself)
    exact absurd hle (Nat.not_succ_le_self last)

theorem reopens_openActive {opts : StoreOptions} {ids unsealed : List PackId}
    (hcap : cap < recordOffset (2 ^ 32)) (hmax : packMaxBytes ≤ cap) (hopts : opts.maxPackBytes ≤ cap)
    (hd : Down cap s.pages) (hids : Directory ids s) (hix : Loaded ix s)
    (hun : ∀ q, Unsealed s.pages q ↔ unsealed.getLast? = some q) :
    Reopens cap may (PageStore.openActive opts ids unsealed ix)
      (fun r u => ∃ rs, Recovered cap rs r.1 r.2 u) s := by
  unfold PageStore.openActive
  cases hlast : unsealed.getLast? with
  | some p =>
    have hp : Unsealed s.pages p := (hun p).mpr hlast
    have hre : Reopened s.pages p := by
      refine ⟨hp, fun q hq => le_of_eq ?_⟩
      exact Option.some.inj (((hun q).mp hq).symm.trans hlast)
    obtain ⟨hdr, rs, hh, hb, hread, hidx⟩ := hd.disk.openPack hcap hp
    obtain ⟨f, hlook, hc⟩ := FileSys.exists_lookup_of_readName hread
    have hrec : recordsOf s.pages p = entriesAt packHeaderSize rs := by
      rw [recordsOf_eq hread]
      exact packRecords_eq ⟨hb, hdr, hh, .inl rfl⟩ hcap
    refine wpOr_bind (reopens_reopenPackForAppend hh hb.hashed hlook hc) fun r u hu => ?_
    obtain ⟨w, ix'⟩ := r
    obtain ⟨rfl, hw, rfl⟩ := hu
    obtain ⟨hholds, rfl, hbuf, hmaxw⟩ := holds_reopened hh hb.hashed hw
    have hget := get_insert_reopened hd.distinct hre hix hrec
    refine wpOr_bind (R := fun _ v => v = u) (reopens_succPackId fun _ => rfl) fun next v hv => ?_
    subst hv
    refine wpOr_pure ⟨rs, hd, hlook, hc ▸ hholds, hbuf, hidx, hmaxw ▸ hmax, hb, fun k l hl => ?_,
      fun k l hl => ?_⟩
    · rw [hget, and_iff_right hl]
      refine or_iff_right fun hold => (hix k l hold).1 ?_
      exact hl ▸ hp
    · rcases (hget k l).mp hl with hold | ⟨hpack, hat⟩
      · exact (hix k l hold).2
      · rw [hpack, hrec]
        exact hat
  | none =>
    refine wpOr_bind (reopens_freshPackId hids) fun p u hu => ?_
    obtain ⟨rfl, hp, hnew⟩ := hu
    refine wpOr_bind (wpOr_and_inv hd (reopens_createActive hcap (le_trans (by decide) hmax) hp hnew))
      fun w v hv => ?_
    obtain ⟨⟨hcreated, hholds, hbuf, hmaxw⟩, hdown⟩ := hv
    have hne : ∀ k l, ix.get k = some l → l.pack ≠ p := by
      intro k l hl heq
      have hmem := (hix k l hl).2
      rw [heq, recordsOf_none hnew] at hmem
      cases hmem
    refine wpOr_bind (R := fun _ x => x = v) (reopens_succPackId fun _ => rfl) fun next x hx => ?_
    subst hx
    refine wpOr_pure ⟨[], hdown, hcreated.lookup, hholds, hbuf, hcreated.idx, hmaxw ▸ hopts,
      .nil (le_trans (by decide) hmax), fun k l hl => ?_, fun k l hl => ?_⟩
    · refine iff_of_false (fun hget => hne k l hget hl) fun hat => ?_
      cases hat
    · have hmem := (hix k l hl).2
      rw [recordsOf, hcreated.others l.pack (hne k l hl)]
      exact hmem

theorem reopens_openPages {opts : StoreOptions} (hcap : cap < recordOffset (2 ^ 32))
    (hmax : packMaxBytes ≤ cap) (hopts : opts.maxPackBytes ≤ cap) (hd : Down cap s.pages) :
    Reopens cap may (PageStore.openPages opts) (fun r u => ∃ rs, Recovered cap rs r.1 r.2 u) s := by
  refine wpOr_bind (wpOr_and_inv hd reopens_discoverPacks) fun discovered u hu => ?_
  refine wpOr_bind (wpOr_and_inv hu.2 (wpOr_foldlM (fun kept rest u => Directory (kept ++ rest) u ∧
    ∀ q ∈ kept, Headed u.pages q) (fun kept id rest u hu => reopens_removeRunt hu.1 hu.2)
    discovered [] u ⟨hu.1, by simp⟩)) fun ids v hv => ?_
  obtain ⟨⟨hids, hhead⟩, hdv⟩ := hv
  rw [List.append_nil] at hids
  refine wpOr_bind (reopens_marks ids) fun marks w hw => ?_
  obtain ⟨rfl, rfl⟩ := hw
  have hsealed : ((ids.map fun id => (id, PageStore.isPackSealed w id)).filter fun m => m.2).map
      (fun m => m.1) = ids.filter fun id => PageStore.isPackSealed w id := filter_marks id _ ids
  have hunsealed : ((ids.map fun id => (id, PageStore.isPackSealed w id)).filter fun m => !m.2).map
      (fun m => m.1) = ids.filter fun id => !PageStore.isPackSealed w id := filter_marks not _ ids
  dsimp only
  rw [hsealed, hunsealed]
  have hun : ∀ q, Unsealed w.pages q ↔ q ∈ ids.filter fun id => !PageStore.isPackSealed w id := by
    intro q
    rw [List.mem_filter, Bool.not_eq_true', ← Bool.not_eq_true]
    refine ⟨fun hq => ?_, fun ⟨hmem, hq⟩ => not_not.mp ?_⟩
    · have hmem := (hids.mem q).mpr (Unsealed.lookup hq)
      rw [isPackSealed_iff (hhead q hmem), not_not]
      exact ⟨hmem, hq⟩
    · rw [← isPackSealed_iff (hhead q hmem)]
      exact hq
  refine wpOr_bind (reopens_sealAll hcap hdv (hids.sorted.filter _) hun) fun ix x hx => ?_
  obtain ⟨hdx, hix, hsame, hlast⟩ := hx
  refine wpOr_bind (reopens_loadAll hcap hdx hix fun q hq => ?_) fun ix' y hy => ?_
  · rcases List.mem_append.mp hq with hq | hq
    · obtain ⟨hmem, hseal⟩ := List.mem_filter.mp hq
      refine ⟨hsame.headed q (hhead q hmem), fun h => ?_⟩
      exact (isPackSealed_iff (hhead q hmem)).mp hseal (hsame.unsealed q h)
    · have hmem := (List.mem_filter.mp (List.mem_of_mem_dropLast hq)).1
      refine ⟨hsame.headed q (hhead q hmem), fun h => ?_⟩
      exact absurd ((hlast q).mp h) (getLast?_ne_of_mem_dropLast (hids.sorted.filter _) hq)
  · obtain ⟨hdy, hix', hfiles⟩ := hy
    refine reopens_openActive hcap hmax hopts hdy ⟨hids.sorted, fun q => ?_⟩ hix' fun q => ?_
    · rw [hfiles.lookup, hsame.lookup]
      exact hids.mem q
    · rw [hfiles.unsealed_iff, hlast]

theorem wp_openStore_recovered {opts : StoreOptions} (hcap : cap < recordOffset (2 ^ 32))
    (hmax : packMaxBytes ≤ cap) (hopts : opts.maxPackBytes ≤ cap) (hd : Down cap s.pages) :
    wp (rules cap may) (SnapshotStore.openStore opts)
      (fun b u => b = true → u.ghost.gcPacks = [] ∧ ∃ rs, Recovered cap rs u.index u.active u) s := by
  have hopen : Reopens cap may (do SnapshotStore.cleanTmpDir; PageStore.openPages opts : PE _)
      (fun r u => ∃ rs, Recovered cap rs r.1 r.2 u) s := by
    refine wpOr_bind (reopens_within (P := fun u => Down cap u.pages)
      (SnapshotStore.within_cleanTmpDir (fun _ => rfl) fun _ _ => rfl)
      (fun u v heq hu => ?_) hd) fun _ u hu => reopens_openPages hcap hmax hopts hu
    rw [heq]
    exact hu
  refine wp_bind (wp_mono (fun r u hu => ?_) hopen)
  cases r with
  | error e => exact nofun
  | ok r =>
    have hwalk := SnapshotStore.within_walkManifestCounters (R := Eq) fun _ => rfl
    refine wp_bind (wp_mono (fun counters v hv => ?_) (hwalk.wp (ρ := rules cap may)
      (stable (· = u)) rfl fun _ v w hi hv _ heq => ⟨heq ▸ hi, trivial, heq ▸ hv⟩))
    subst hv
    obtain ⟨rs, hr⟩ := hu
    refine wp_bind (wp_atomic (stable (· = v)) rfl fun e w hi hw _ => ⟨?_, trivial, fun _ => ?_⟩)
    · exact hi
    · subst hw
      exact ⟨rfl, rs, hr.down, hr.file, hr.holds, hr.buf, hr.idx, hr.room, hr.bounded, hr.covers,
        hr.records⟩

theorem Recovered.inv (h : Recovered cap rs s.index s.active s) (hcap : cap < recordOffset (2 ^ 32))
    (hseed : PageStore.Seeded s.active s) (hgc : s.ghost.gcPacks = []) : Sharing.Inv cap s where
  disk := h.down.disk
  below := hseed.below
  active := hseed.active
  next := hseed.next
  file := h.file
  gc g hg := by
    rw [hgc] at hg
    cases hg
  own := by
    rw [hgc]
    exact List.not_mem_nil
  located k l hl := by
    obtain ⟨b, hread, hrec⟩ := h.down.disk.recordAt hcap (h.records k l hl)
    refine ⟨b, ?_, hrec⟩
    rw [World.packBytes, hread, h.buf]
    simp
  settled _ := ⟨rs, h.bounded, .inl ⟨h.holds, h.idx, h.room⟩, h.covers⟩

end Recovery

end SnapStore

import SnapStore.Gc.Collector
import SnapStore.Store.Chains

/-!
# What a mark adds to the live set

A walk stops at the first manifest that is already live.  It misses nothing, because the live set
contains with each manifest its parent and its pages, except for the parent that the walk is about
to visit.
-/

namespace SnapStore

open Disk Conc SnapshotStore

namespace Gc

structure Adds (live live' : LiveSet) (members : SnapshotRef × Manifest → Prop) : Prop where
  manifests : ∀ q, q ∈ live'.manifests ↔ q ∈ live.manifests ∨ ∃ m, members (q, m)
  pages : ∀ k, k ∈ live'.pages ↔ k ∈ live.pages ∨ ∃ e, members e ∧ k ∈ hashesOf e.2

section

variable {live live' live'' : LiveSet} {members members' : SnapshotRef × Manifest → Prop}

theorem Adds.trans (h : Adds live live' members) (h' : Adds live' live'' members') :
    Adds live live'' (fun e => members e ∨ members' e) := by
  constructor
  · intro q
    rw [h'.manifests, h.manifests, or_assoc, exists_or]
  · intro k
    rw [h'.pages, h.pages, or_assoc, ← exists_or]
    simp only [or_and_right]

theorem Adds.congr (h : Adds live live' members) (hm : ∀ e, members e ↔ members' e) :
    Adds live live' members' := by
  rw [funext fun e => propext (hm e)] at h
  exact h

theorem adds_of_live (h : ∀ e, members e → e.1 ∈ live.manifests ∧ ∀ k ∈ hashesOf e.2, k ∈ live.pages) :
    Adds live live members := by
  constructor
  · intro q
    refine ⟨.inl, fun hq => hq.elim id ?_⟩
    intro ⟨m, hm⟩
    exact (h (q, m) hm).1
  · intro k
    refine ⟨.inl, fun hk => hk.elim id ?_⟩
    intro ⟨e, he, hke⟩
    exact (h e he).2 k hke

theorem adds_mark (live : LiveSet) (r : SnapshotRef) (m : Manifest) :
    Adds live (LiveSet.mark live r m) (· = (r, m)) := by
  constructor
  · intro q
    rw [LiveSet.mark, List.mem_insert_iff]
    simp [or_comm]
  · intro k
    rw [mem_mark_pages]
    simp [or_comm]

end

section

variable [Primitives]

def ClosedUpTo (s : World) (pending : SnapshotRef → Prop) (live : LiveSet) : Prop :=
  ∀ q ∈ live.manifests, ∃ m, manifestAt s q = some m ∧ (∀ k ∈ hashesOf m, k ∈ live.pages) ∧
    ∀ p, m.parent = some p → p ∈ live.manifests ∨ pending p

def Closed (s : World) (live : LiveSet) : Prop :=
  ∀ q ∈ live.manifests, ∃ m, manifestAt s q = some m ∧ (∀ k ∈ hashesOf m, k ∈ live.pages) ∧
    ∀ p, m.parent = some p → p ∈ live.manifests

variable {s t : World} {r : SnapshotRef} {m : Manifest} {l : List (SnapshotRef × Manifest)}
  {live : LiveSet}

theorem Closed.upTo (h : Closed s live) (pending : SnapshotRef → Prop) :
    ClosedUpTo s pending live := by
  intro q hq
  obtain ⟨m, hm, hpages, hparent⟩ := h q hq
  exact ⟨m, hm, hpages, fun p hp => .inl (hparent p hp)⟩

theorem ClosedUpTo.closed (h : ClosedUpTo s (· = r) live) (hr : r ∈ live.manifests) :
    Closed s live := by
  intro q hq
  obtain ⟨m, hm, hpages, hparent⟩ := h q hq
  refine ⟨m, hm, hpages, fun p hp => ?_⟩
  rcases hparent p hp with hlive | heq
  · exact hlive
  · rw [heq]
    exact hr

theorem Closed.congr (h : Closed s live) (hfiles : t.manifests = s.manifests) : Closed t live := by
  rw [Closed, manifestAt_congr hfiles]
  exact h

theorem Closed.chain (hc : Closed s live) (h : Chain s r l) (hr : r ∈ live.manifests) :
    ∀ e ∈ l, e.1 ∈ live.manifests ∧ ∀ k ∈ hashesOf e.2, k ∈ live.pages := by
  induction h with
  | @root i m hm hp =>
    intro e he
    rw [List.mem_singleton.mp he]
    obtain ⟨m', hm', hpages, -⟩ := hc i hr
    rw [Option.some.inj (hm.symm.trans hm')]
    exact ⟨hr, hpages⟩
  | @child i p m l hm hp hl ih =>
    obtain ⟨m', hm', hpages, hparent⟩ := hc i hr
    rw [← Option.some.inj (hm.symm.trans hm')] at hpages hparent
    intro e he
    rcases List.mem_cons.mp he with rfl | he
    · exact ⟨hr, hpages⟩
    · exact ih (hparent p hp) e he

theorem ClosedUpTo.mark (h : ClosedUpTo s (· = r) live) (hm : manifestAt s r = some m) :
    ClosedUpTo s (fun p => m.parent = some p) (LiveSet.mark live r m) := by
  intro q hq
  rcases List.mem_insert_iff.mp hq with rfl | hq
  · exact ⟨m, hm, fun k hk => mem_mark_pages.mpr (.inl hk), fun p hp => .inr hp⟩
  · obtain ⟨m', hm', hpages, hparent⟩ := h q hq
    refine ⟨m', hm', fun k hk => mem_mark_pages.mpr (.inr (hpages k hk)), fun p hp => .inl ?_⟩
    rcases hparent p hp with hlive | rfl
    · exact List.mem_insert_of_mem hlive
    · exact List.mem_insert_self

theorem twpE_markChain_exact {bad : StoreError → World → Prop} (h : Chain s r l) (fuel : Nat)
    (hlen : l.length ≤ fuel) (isRoot : Bool) (live : LiveSet) (report : SweepReport)
    (hc : ClosedUpTo s (· = r) live) :
    twpE Oracle.Quiet bad (markChain fuel isRoot r (live, report))
      (fun st t => t = s ∧ st.2 = report ∧ Closed s st.1 ∧ Adds live st.1 (· ∈ l)) s := by
  induction fuel generalizing r l isRoot live with
  | zero =>
    obtain ⟨m, t, rfl, -⟩ := h.head
    simp at hlen
  | succ fuel ih =>
    obtain ⟨m, t, hl, hm⟩ := h.head
    rw [markChain]
    by_cases hr : r ∈ live.manifests
    · rw [if_pos hr]
      have hclosed := hc.closed hr
      exact twpE_pure ⟨rfl, rfl, hclosed, adds_of_live (hclosed.chain h hr)⟩
    rw [if_neg hr]
    refine twpE_seq (twpE_readForMark isRoot hm) fun res u hu => ?_
    obtain ⟨⟨b, rfl, hdecode⟩, rfl⟩ := hu
    dsimp only
    rw [hdecode]
    refine twpE_bind (twpE_ofExcept ?_)
    have hmark := hc.mark hm
    have hd := delta_eq_isSome hm
    cases h with
    | root hm' hp =>
      obtain rfl := Option.some.inj (hm.symm.trans hm')
      rw [hd, hp]
      refine twpE_pure ⟨rfl, rfl, ?_, (adds_mark live r m).congr fun e => by simp⟩
      intro q hq
      obtain ⟨m', hm', hpages, hparent⟩ := hmark q hq
      refine ⟨m', hm', hpages, fun p hp' => (hparent p hp').elim id fun hnone => ?_⟩
      rw [hp] at hnone
      cases hnone
    | @child i p m'' l' hm' hp hl' =>
      obtain rfl := Option.some.inj (hm.symm.trans hm')
      rw [hd, hp]
      have hpending : ClosedUpTo u (· = p) (LiveSet.mark live r m) := by
        intro q hq
        obtain ⟨m', hm', hpages, hparent⟩ := hmark q hq
        refine ⟨m', hm', hpages, fun p' hp' => (hparent p' hp').imp_right fun heq => ?_⟩
        exact Option.some.inj (heq.symm.trans hp)
      refine twpE_mono (fun st t ht => ⟨ht.1, ht.2.1, ht.2.2.1, ?_⟩)
        (ih hl' (Nat.le_of_succ_le_succ hlen) false _ hpending)
      exact ((adds_mark live r m).trans ht.2.2.2).congr fun e => List.mem_cons.symm

/-! ## All roots -/

structure Marked (s : World) (done : List SnapshotRef) (live : LiveSet) (report : SweepReport)
    (st : MarkState) : Prop where
  closed : Closed s st.1
  adds : Adds live st.1 fun e => ∃ r ∈ done, ∃ l, Chain s r l ∧ e ∈ l
  report : st.2 = { report with
    missingRootManifests :=
      report.missingRootManifests + done.countP fun r => !hasManifest s r }

variable {done : List SnapshotRef} {report : SweepReport} {st : MarkState}

theorem Marked.missing (h : Marked s done live report st) (hr : hasManifest s r = false) :
    Marked s (done ++ [r]) live report (st.1,
      { st.2 with missingRootManifests := st.2.missingRootManifests + 1 }) := by
  refine ⟨h.closed, h.adds.congr fun e => ?_, ?_⟩
  · constructor
    · intro ⟨q, hq, hl⟩
      exact ⟨q, List.mem_append_left _ hq, hl⟩
    · intro ⟨q, hq, l, hl, he⟩
      rcases List.mem_append.mp hq with hq | hq
      · exact ⟨q, hq, l, hl, he⟩
      · obtain ⟨m, rest, -, hm⟩ := hl.head
        rw [List.mem_singleton.mp hq] at hm
        rw [hasManifest_of_manifestAt hm] at hr
        cases hr
  · simp [h.report, hr, Nat.add_assoc]

theorem Marked.chain (h : Marked s done live report st) (hl : Chain s r l) {live' : LiveSet}
    (hclosed : Closed s live') (hadds : Adds st.1 live' (· ∈ l)) :
    Marked s (done ++ [r]) live report (live', st.2) := by
  refine ⟨hclosed, (h.adds.trans hadds).congr fun e => ?_, ?_⟩
  · constructor
    · intro he
      rcases he with ⟨q, hq, hl⟩ | he
      · exact ⟨q, List.mem_append_left _ hq, hl⟩
      · exact ⟨r, List.mem_append_right _ (List.mem_singleton.mpr rfl), l, hl, he⟩
    · intro ⟨q, hq, l', hl', he⟩
      rcases List.mem_append.mp hq with hq | hq
      · exact .inl ⟨q, hq, l', hl', he⟩
      · rw [List.mem_singleton.mp hq] at hl'
        rw [hl.unique hl']
        exact .inr he
  · obtain ⟨m, rest, -, hm⟩ := hl.head
    simp [h.report, hasManifest_of_manifestAt hm]

theorem twpE_markRoot {bad : StoreError → World → Prop} (hfiles : t.manifests = s.manifests)
    (h : Marked s done live report st)
    (hroot : hasManifest s r = true → ∃ l, Chain s r l ∧ l.length ≤ SnapshotStore.maxChain) :
    twpE Oracle.Quiet bad (markChain SnapshotStore.maxChain true r st)
      (fun st' u => u.manifests = s.manifests ∧ Marked s (done ++ [r]) live report st') t := by
  cases hhas : hasManifest s r with
  | false =>
    have hlive : r ∉ st.1.manifests := by
      intro hr
      obtain ⟨m, hm, -⟩ := h.closed r hr
      rw [hasManifest_of_manifestAt hm] at hhas
      cases hhas
    have hhas' : hasManifest t r = false := by
      rw [hasManifest, hfiles]
      exact hhas
    refine twpE_mono ?_ (twpE_markChain_missing hhas' 4095 st.1 st.2)
    rintro st' u ⟨hu, hst⟩
    rw [hst hlive]
    exact ⟨hu.trans hfiles, h.missing hhas⟩
  | true =>
    obtain ⟨l, hl, hlen⟩ := hroot hhas
    have hl' : Chain t r l := by
      rw [Chain, manifestAt_congr hfiles]
      exact hl
    refine twpE_mono ?_ (twpE_markChain_exact hl' SnapshotStore.maxChain hlen true st.1 st.2
      ((h.closed.congr hfiles).upTo _))
    rintro st' u ⟨hu, hreport, hclosed, hadds⟩
    subst hu
    refine ⟨hfiles, ?_⟩
    have hmarked := h.chain hl (hclosed.congr hfiles.symm) hadds
    rw [← hreport] at hmarked
    exact hmarked

theorem twpE_mark_marked {bad : StoreError → World → Prop} {roots : List SnapshotRef}
    (hroots : ∀ r ∈ roots, hasManifest s r = true →
      ∃ l, Chain s r l ∧ l.length ≤ SnapshotStore.maxChain)
    (hclosed : Closed s live) (report : SweepReport) :
    twpE Oracle.Quiet bad (mark roots (live, report))
      (fun st t => t.manifests = s.manifests ∧ Marked s roots live report st) s := by
  have hstart : Marked s [] live report (live, report) :=
    ⟨hclosed, adds_of_live (by simp), rfl⟩
  refine twpE_mono ?_ (twpE_foldlM (fun st rest t => t.manifests = s.manifests ∧
    ∃ done, roots = done ++ rest ∧ Marked s done live report st) ?_ roots (live, report) s
    ⟨rfl, [], rfl, hstart⟩)
  · intro st t ⟨hfiles, done, hdone, hmarked⟩
    rw [List.append_nil] at hdone
    rw [hdone]
    exact ⟨hfiles, hmarked⟩
  · intro st r rest t ⟨hfiles, done, hdone, hmarked⟩
    have hr : r ∈ roots := by
      rw [hdone]
      exact List.mem_append_right _ List.mem_cons_self
    refine twpE_mono ?_ (twpE_markRoot hfiles hmarked (hroots r hr))
    intro st' u ⟨hu, hmarked'⟩
    exact ⟨hu, done ++ [r], by rw [hdone, List.append_assoc]; rfl, hmarked'⟩

/-- `gc_mark` succeeds on roots whose chains are complete and short enough, as far as they are
stored.  It adds exactly their chains and the pages these name, keeps the live set closed, counts
every missing root of the list, and the order of the roots makes no difference. -/
theorem mark_is_exact (s : World) (roots : List SnapshotRef) (live : LiveSet)
    (report : SweepReport)
    (hroots : ∀ r ∈ roots, hasManifest s r = true →
      ∃ l, Chain s r l ∧ l.length ≤ SnapshotStore.maxChain)
    (hclosed : Closed s live) :
    twpE Oracle.Quiet (fun _ _ => False) (mark roots (live, report)) (fun st t =>
      t.manifests = s.manifests ∧ Closed t st.1 ∧
      (∀ q, q ∈ st.1.manifests ↔ q ∈ live.manifests ∨
        ∃ r ∈ roots, ∃ l m, Chain s r l ∧ (q, m) ∈ l) ∧
      (∀ k, k ∈ st.1.pages ↔ k ∈ live.pages ∨
        ∃ r ∈ roots, ∃ l q m, Chain s r l ∧ (q, m) ∈ l ∧ ∃ e ∈ m.entries, e.pageHash = k) ∧
      st.2 = { report with
        missingRootManifests :=
          report.missingRootManifests + roots.countP fun r => !hasManifest s r }) s ∧
    ∀ roots', roots.Perm roots' → ∀ st st' t t',
      Ends Oracle.Quiet (mark roots (live, report)).run s (.ok st) t →
      Ends Oracle.Quiet (mark roots' (live, report)).run s (.ok st') t' →
      (∀ q, q ∈ st.1.manifests ↔ q ∈ st'.1.manifests) ∧
      (∀ k, k ∈ st.1.pages ↔ k ∈ st'.1.pages) ∧ st.2 = st'.2 := by
  constructor
  · refine twpE_mono ?_ (twpE_mark_marked hroots hclosed report)
    intro st t ⟨hfiles, h⟩
    refine ⟨hfiles, h.closed.congr hfiles, fun q => ?_, fun k => ?_, h.report⟩
    · rw [h.adds.manifests]
      constructor
      · rintro (hq | ⟨m, r, hr, l, hl, hmem⟩)
        · exact .inl hq
        · exact .inr ⟨r, hr, l, m, hl, hmem⟩
      · rintro (hq | ⟨r, hr, l, m, hl, hmem⟩)
        · exact .inl hq
        · exact .inr ⟨m, r, hr, l, hl, hmem⟩
    · rw [h.adds.pages]
      constructor
      · rintro (hk | ⟨⟨q, m⟩, ⟨r, hr, l, hl, hmem⟩, hk⟩)
        · exact .inl hk
        · exact .inr ⟨r, hr, l, q, m, hl, hmem, List.mem_map.mp hk⟩
      · rintro (hk | ⟨r, hr, l, q, m, hl, hmem, hk⟩)
        · exact .inl hk
        · exact .inr ⟨(q, m), ⟨r, hr, l, hl, hmem⟩, List.mem_map.mpr hk⟩
  · intro roots' hperm st st' t t' hrun hrun'
    have hroots' : ∀ r ∈ roots', hasManifest s r = true →
        ∃ l, Chain s r l ∧ l.length ≤ SnapshotStore.maxChain :=
      fun r hr => hroots r (hperm.mem_iff.mpr hr)
    have hspec : twpE Oracle.Quiet (fun _ _ => False) (mark roots (live, report)) _ s :=
      twpE_mark_marked hroots hclosed report
    have hspec' : twpE Oracle.Quiet (fun _ _ => False) (mark roots' (live, report)) _ s :=
      twpE_mark_marked hroots' hclosed report
    obtain ⟨-, h⟩ := hrun.of_twp hspec
    obtain ⟨-, h'⟩ := hrun'.of_twp hspec'
    refine ⟨fun q => ?_, fun k => ?_, ?_⟩
    · rw [h.adds.manifests, h'.adds.manifests]
      simp only [hperm.mem_iff]
    · rw [h.adds.pages, h'.adds.pages]
      simp only [hperm.mem_iff]
    · rw [h.report, h'.report, hperm.countP_eq]

end

end Gc

namespace Sample

attribute [local instance] primitives

theorem mark_is_exact_two : ∃ s, hasManifest s (linkRef 1) = true ∧
    hasManifest s (linkRef 2) = false ∧
    twpE Oracle.Quiet (fun _ _ => False)
      (Gc.mark [linkRef 1, linkRef 2, linkRef 0, linkRef 2] (⟨[], []⟩, .zero))
      (fun st _ => linkRef 0 ∈ st.1.manifests ∧ st.2.missingRootManifests = 2) s := by
  obtain ⟨s, ts, -, -, hlinked, -⟩ := linked_reach (n := 2) (by decide)
  have hstored (i : Nat) (hi : i < 2) : hasManifest s (linkRef i) = true :=
    hasManifest_of_manifestAt (hlinked.manifestAt (by decide) hi)
  have hmissing : hasManifest s (linkRef 2) = false := by
    rw [Bool.eq_false_iff]
    intro h
    obtain ⟨i, hi, heq⟩ := hlinked.fresh _ h
    have := linkRef_injective (by decide) (by omega) heq
    omega
  have hroots : ∀ r ∈ [linkRef 1, linkRef 2, linkRef 0, linkRef 2], hasManifest s r = true →
      ∃ l, Chain s r l ∧ l.length ≤ SnapshotStore.maxChain := by
    intro r hr hhas
    have hlink : r = linkRef 0 ∨ r = linkRef 1 := by
      by_contra hnot
      have hr2 : r = linkRef 2 := by simp_all
      rw [hr2, hmissing] at hhas
      cases hhas
    have hmax : 2 ≤ SnapshotStore.maxChain := by decide
    rcases hlink with rfl | rfl
    · obtain ⟨l, hl, hlen⟩ := hlinked.chain (i := 0) (by decide) (by decide)
      exact ⟨l, hl, by omega⟩
    · obtain ⟨l, hl, hlen⟩ := hlinked.chain (i := 1) (by decide) (by decide)
      exact ⟨l, hl, by omega⟩
  refine ⟨s, hstored 1 (by decide), hmissing, twpE_mono ?_
    (Gc.mark_is_exact s _ ⟨[], []⟩ .zero hroots (by simp [Gc.Closed])).1⟩
  intro st t ⟨_, _, hmanifests, _, hreport⟩
  constructor
  · have hchain : Chain s (linkRef 0) [(linkRef 0, link 0)] :=
      .root (hlinked.manifestAt (by decide) (by decide)) rfl
    exact (hmanifests _).mpr (.inr ⟨linkRef 0, by simp, _, _, hchain, List.mem_singleton.mpr rfl⟩)
  · rw [hreport]
    simp [hmissing, hstored 0, hstored 1, SweepReport.zero]

end Sample

end SnapStore

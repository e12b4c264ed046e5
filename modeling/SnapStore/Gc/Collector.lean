import SnapStore.Gc.Commits

/-!
# Collections in the protocol

A collection marks from the roots of the database, and removes or unlinks only what its live set
does not need and only with the gate held and no late root outstanding.
-/

namespace SnapStore

open Disk Conc SnapshotStore

theorem Gc.mem_mark_pages {live : LiveSet} {r : SnapshotRef} {m : Manifest} {k : PageHash} :
    k ∈ (Gc.LiveSet.mark live r m).pages ↔ k ∈ hashesOf m ∨ k ∈ live.pages := by
  have hfold : ∀ (ks ps : List PageHash),
      k ∈ ks.foldl (fun ps h => ps.insert h) ps ↔ k ∈ ks ∨ k ∈ ps := by
    intro ks
    induction ks with
    | nil => simp
    | cons a ks ih =>
      intro ps
      rw [List.foldl_cons, ih, List.mem_insert_iff, List.mem_cons]
      tauto
  exact hfold _ _

/-! ## Rules -/

theorem Held.trans {t : Tid} {s s' s'' : World} (h : Held t s s') (h' : Held t s' s'') :
    Held t s s'' :=
  ⟨h'.writer, h'.epoch.trans h.epoch, fun r hr => h.rows r (h'.rows r hr),
    fun r hr => h.stored r (h'.stored r hr)⟩

variable [Primitives] {π : Protocol} {t : Tid}

section Rules

variable {s s' s'' : World}

theorem During.refl (he : s.epoch ≠ none) : During π s s :=
  ⟨he, fun _ => id, fun _ => id, fun _ => id, fun _ => .inl, fun _ => .inl, rfl,
    fun _ _ => .inl, fun _ _ => .inl, fun _ _ => .inl⟩

theorem During.trans (h : During π s s') (h' : During π s' s'') : During π s s'' where
  epoch := h'.epoch
  late r hr := h'.late r (h.late r hr)
  pres k hk := h'.pres k (h.pres k hk)
  stored r hr := h'.stored r (h.stored r hr)
  dangling r hr := (h.dangling r hr).elim (h'.dangling r) fun hl => .inr (h'.late r hl)
  rows r hr := by
    rcases h'.rows r hr with hr | hl
    · exact (h.rows r hr).imp_right (h'.late r)
    · exact .inr hl
  sweeping := h'.sweeping.trans h.sweeping
  fresh ht r hr := by
    rcases h'.fresh ht r hr with hr | hr
    · rcases h.fresh ht r hr with hr | hl | hp
      · exact .inl hr
      · exact .inr (.inl (h'.late r hl))
      · exact .inr (h'.publishing ht r hp).symm
    · exact .inr hr
  publishing ht r hr := (h.publishing ht r hr).elim (h'.publishing ht r) fun hl =>
    .inr (h'.late r hl)
  arrivals ht r hr := by
    rcases h'.arrivals ht r hr with hr | hc
    · exact (h.arrivals ht r hr).imp_right fun hc => hc.mono h'.stored h'.pres
    · exact .inr hc

theorem CollectorRely.refl (s : World) : CollectorRely π t s s :=
  ⟨fun _ _ => id, id, During.refl, fun hw => ⟨hw, rfl, fun _ => id, fun _ => id⟩⟩

theorem CollectorRely.trans (h : CollectorRely π t s s') (h' : CollectorRely π t s' s'') :
    CollectorRely π t s s'' where
  births i n hn := h'.births i n (h.births i n hn)
  closed he := h'.closed (h.closed he)
  during he := (h.during he).trans (h'.during (h.during he).epoch)
  held hw := (h.held hw).trans (h'.held (h.held hw).writer)

end Rules

def collectorRules (π : Protocol) (t : Tid) : Rules Oracle World where
  may _ := Admissible π
  inv := ProtocolInv π
  rely := CollectorRely π t
  guar s s' := Admissible π s s' ∧ CollectorMove π t s s'
  rely_refl := CollectorRely.refl
  rely_trans _ _ _ := CollectorRely.trans

section Actions

variable {E α : Type} {Q : Except E α → World → Prop} {A : World → Prop} {s : World}

theorem wp_collector_action {f : Oracle → World → Except E α × World}
    (hA : Stable (collectorRules π t) A) (hs : A s)
    (h : ∀ o w r u, ProtocolInv π w → A w → f o w = (r, u) → Admissible π w u →
      CollectorMove π t w u ∧ Q r u) :
    wp (collectorRules π t) (action f).run Q s := by
  refine wp_atomic hA hs fun o w hi hw ha => ?_
  obtain ⟨hm, hq⟩ := h o w _ _ hi hw rfl ha
  exact ⟨hm.inv ha hi, ⟨ha, hm⟩, hq⟩

theorem wp_collector_observe {f : Oracle → World → Except E α}
    (hA : Stable (collectorRules π t) A) (hs : A s)
    (hq : ∀ o w, ProtocolInv π w → A w → Q (f o w) w) :
    wp (collectorRules π t) (observe f).run Q s := by
  refine wp_collector_action hA hs fun o w r u hi hw hf ha => ?_
  cases hf
  exact ⟨.frame (Frame.refl w), hq o w hi hw⟩

theorem wp_collector_attempt {f : Oracle → World → Except E (α × World)}
    (hA : Stable (collectorRules π t) A) (hs : A s)
    (he : ∀ e w, ProtocolInv π w → A w → Q (.error e) w)
    (h : ∀ o w a u, ProtocolInv π w → A w → f o w = .ok (a, u) → Admissible π w u →
      CollectorMove π t w u ∧ Q (.ok a) u) :
    wp (collectorRules π t) (attempt f).run Q s := by
  refine wp_collector_action hA hs fun o w r u hi hw hf ha => ?_
  split at hf <;> cases hf
  · next heq => exact h o w _ _ hi hw heq ha
  · exact ⟨.frame (Frame.refl w), he _ w hi hw⟩

theorem wp_collector_change {f : World → World} {Q : Except E Unit → World → Prop}
    (hA : Stable (collectorRules π t) A) (hs : A s)
    (h : ∀ w u, ProtocolInv π w → A w → f w = u → Admissible π w u →
      CollectorMove π t w u ∧ Q (.ok ()) u) :
    wp (collectorRules π t) (change f).run Q s := by
  refine wp_collector_action (f := fun _ w => (.ok (), f w)) hA hs fun o w r u hi hw hf ha => ?_
  cases hf
  exact h w _ hi hw rfl ha

theorem wp_collector_frame {p : P α} (hp : Within Frame p)
    (hA : Stable (collectorRules π t) A) (hs : A s) :
    wp (collectorRules π t) p (fun _ s => A s) s := by
  refine hp.wp hA hs fun o w u hi hw ha hf => ?_
  have hm : CollectorMove π t w u := .frame hf
  have hinv := hm.inv ha hi
  exact ⟨hinv, ⟨ha, hm⟩, hA w u hw (.of_frame hf ha) hinv⟩

theorem wp_withSweepGate {body : ExceptT E P α} {B : Except E α → World → Prop}
    (hA : Stable (collectorRules π t) A) (hs : A s) (hB : ∀ r, Stable (collectorRules π t) (B r))
    (hbody : ∀ w, A w → Admissible π w { w with gate := { w.gate with writer := some t } } →
      wp (collectorRules π t) body.run B { w with gate := { w.gate with writer := some t } })
    (hQ : ∀ r w, B r w → Admissible π w { w with gate := { w.gate with writer := none } } →
      Q r { w with gate := { w.gate with writer := none } }) :
    wp (collectorRules π t) (withSweepGate t body).run Q s := by
  refine wp_bind (wp_await hA hs ?_)
  intro o w b u hi hw hf ha
  have hfree : w.gate.writer = none ∧ w.gate.readers = [] ∧
      u = { w with gate := { w.gate with writer := some t } } := by
    split at hf
    · next hn hr =>
      cases hf
      exact ⟨hn, hr, rfl⟩
    · cases hf
  obtain ⟨hn, hr, rfl⟩ := hfree
  have hm : CollectorMove π t w _ := .lock hn hr
  refine ⟨hm.inv ha hi, ⟨ha, hm⟩, wp_bind (wp_mono ?_ (hbody w hw ha))⟩
  intro r w₁ hw₁
  refine wp_bind (wp_atomic (hB r) hw₁ fun o w₂ hi₂ hw₂ ha₂ => ?_)
  have hm₂ : CollectorMove π t w₂ _ := .unlock
  exact ⟨hm₂.inv ha₂ hi₂, ⟨ha₂, hm₂⟩, hQ r w₂ hw₂ ha₂⟩

end Actions

/-! ## Marking -/

/-- What a collection knows of its live set while the chains of `todo` are still to be marked.
`held` says whether it holds the gate with no late root outstanding; the stored manifests outside
the live set are those of `A`, apart from the late and the new ones. -/
structure Marking (π : Protocol) (t : Tid) (held : Prop) (A : SnapshotRef → Prop) (live : LiveSet)
    (todo : List SnapshotRef) (s : World) : Prop where
  epoch : s.epoch ≠ none
  gate : held → s.gate.writer = some t ∧ s.epoch = some []
  roots : ∀ r, s.db.HasRow r →
    r ∈ live.manifests ∨ IsLate s r ∨ r ∈ s.ghost.dangling ∨ r ∈ todo
  kept : π.tidy → ∀ r ∈ live.manifests, Stored s r ∧ HasNeeds π s r
  ahead : π.tidy → s.ghost.sweeping = true → ∀ r ∈ todo, Stored s r → Complete π s r
  accounted : π.tidy → ∀ r, Stored s r →
    r ∈ live.manifests ∨ IsLate s r ∨ Publishing s r ∨ r ∈ todo ∨ A r

def LiveClosed (π : Protocol) (live : LiveSet) : Prop :=
  Closure.ClosedUnder (Named π.S) (· ∈ live.manifests) (· ∈ live.pages)

section Marking

variable {held : Prop} {A : SnapshotRef → Prop} {live : LiveSet} {todo rest : List SnapshotRef}
  {s s' : World} {r : SnapshotRef}

theorem Marking.during (h : Marking π t held A live todo s) (hd : During π s s')
    (hg : held → s'.gate.writer = some t ∧ s'.epoch = some []) :
    Marking π t held A live todo s' where
  epoch := hd.epoch
  gate := hg
  roots r hr := by
    rcases hd.rows r hr with hr | hl
    · rcases h.roots r hr with hm | hl | hdang | htodo
      · exact .inl hm
      · exact .inr (.inl (hd.late r hl))
      · exact (hd.dangling r hdang).elim (fun h => .inr (.inr (.inl h))) fun h => .inr (.inl h)
      · exact .inr (.inr (.inr htodo))
    · exact .inr (.inl hl)
  kept ht r hr := by
    obtain ⟨hst, hn⟩ := h.kept ht r hr
    exact ⟨hd.stored r hst, hn.mono hd.stored hd.pres⟩
  ahead ht hsw r hr hst := by
    rcases hd.arrivals ht r hst with hst | hc
    · exact (h.ahead ht (hd.sweeping ▸ hsw) r hr hst).mono hd.stored hd.pres
    · exact hc
  accounted ht r hst := by
    rcases hd.fresh ht r hst with hst | hl | hp
    · rcases h.accounted ht r hst with hm | hl | hp | ha
      · exact .inl hm
      · exact .inr (.inl (hd.late r hl))
      · exact (hd.publishing ht r hp).elim (fun h => .inr (.inr (.inl h))) fun h => .inr (.inl h)
      · exact .inr (.inr (.inr ha))
    · exact .inr (.inl hl)
    · exact .inr (.inr (.inl hp))

theorem stable_marking : Stable (collectorRules π t) (Marking π t held A live todo) := by
  intro s s' h hr _
  refine h.during (hr.during h.epoch) fun hh => ?_
  obtain ⟨hw, he⟩ := h.gate hh
  have hheld := hr.held hw
  exact ⟨hheld.writer, hheld.epoch.trans he⟩

theorem Marking.narrow {todo' : List SnapshotRef} (h : Marking π t held A live todo s)
    (hdone : ∀ r ∈ todo, r ∈ todo' ∨ r ∈ live.manifests ∨ r ∈ s.ghost.dangling ∧ ¬ Stored s r)
    (hahead : π.tidy → s.ghost.sweeping = true → ∀ r ∈ todo', Stored s r → Complete π s r) :
    Marking π t held A live todo' s where
  epoch := h.epoch
  gate := h.gate
  roots r hr := by
    rcases h.roots r hr with hm | hl | hd | htodo
    · exact .inl hm
    · exact .inr (.inl hl)
    · exact .inr (.inr (.inl hd))
    · rcases hdone r htodo with htodo | hm | hd
      · exact .inr (.inr (.inr htodo))
      · exact .inl hm
      · exact .inr (.inr (.inl hd.1))
  kept := h.kept
  ahead := hahead
  accounted ht r hst := by
    rcases h.accounted ht r hst with hm | hl | hp | htodo | ha
    · exact .inl hm
    · exact .inr (.inl hl)
    · exact .inr (.inr (.inl hp))
    · rcases hdone r htodo with htodo | hm | hd
      · exact .inr (.inr (.inr (.inl htodo)))
      · exact .inl hm
      · exact absurd hst hd.2
    · exact .inr (.inr (.inr (.inr ha)))

theorem Marking.drop (h : Marking π t held A live (r :: rest) s)
    (hr : r ∈ live.manifests ∨ r ∈ s.ghost.dangling ∧ ¬ Stored s r) :
    Marking π t held A live rest s := by
  refine h.narrow ?_ fun ht hsw q hq => h.ahead ht hsw q (List.mem_cons_of_mem _ hq)
  intro q hq
  rcases List.mem_cons.mp hq with rfl | hq
  · exact .inr hr
  · exact .inl hq

theorem Marking.skip (h : Marking π t held A live (r :: rest) s) (hst : ¬ Stored s r)
    (ha : Admissible π s
      { s with ghost := { s.ghost with dangling := r :: s.ghost.dangling } }) :
    Marking π t held A live rest
      { s with ghost := { s.ghost with dangling := r :: s.ghost.dangling } } := by
  have hpres := ha.presMono fun _ => id
  have hd : During π s { s with ghost := { s.ghost with dangling := r :: s.ghost.dangling } } :=
    ⟨h.epoch, fun _ => id, hpres, fun _ => id, fun q hq => .inl (List.mem_cons_of_mem _ hq),
      fun _ => .inl, rfl, fun _ _ => .inl, fun _ _ => .inl, fun _ _ => .inl⟩
  exact (h.during hd h.gate).drop (.inr ⟨List.mem_cons_self, hst⟩)

theorem Marking.mark (h : Marking π t held A live (r :: rest) s) (hst : Stored s r)
    (hneeds : π.tidy → HasNeeds π s r) (m : Manifest) :
    Marking π t held A (Gc.LiveSet.mark live r m) (r :: rest) s where
  epoch := h.epoch
  gate := h.gate
  roots q hq := (h.roots q hq).imp_left fun hm => List.mem_insert_of_mem hm
  kept ht q hq := by
    rcases List.mem_insert_iff.mp hq with rfl | hq
    · exact ⟨hst, hneeds ht⟩
    · exact h.kept ht q hq
  ahead := h.ahead
  accounted ht q hq := (h.accounted ht q hq).imp_left fun hm => List.mem_insert_of_mem hm

def ReadOk (π : Protocol) (r : SnapshotRef) (b : Bytes) : Prop :=
  ∀ m, Manifest.decode b = .ok m → Named π.S r (hashesOf m) m.parent

theorem readOk_of_verify {b b' : Bytes} {i : Ino} (hi : ProtocolInv π s)
    (hl : s.manifests.lookup (.spm r) = some i) (hb : s.manifests.content i = b)
    (hv : verifyManifest r b = .ok b') : ReadOk π r b' := by
  obtain ⟨c, m, hc, hr, hm, hpre⟩ := hi.manifests.content r i (hi.manifests.births.dir _ i hl)
  obtain ⟨hrb, rfl⟩ := verifyManifest_ok hv
  obtain rfl := π.collisionFree c c m m hc hc hm hm b (hb ▸ hpre) (hrb.trans hr.symm)
  intro m' hm'
  exact ⟨b, m', hc, hr, hm', rfl, rfl⟩

theorem ProtocolInv.hasNeeds (hi : ProtocolInv π s) (h : Marking π t held A live (r :: rest) s)
    (hst : Stored s r) (ht : π.tidy) : HasNeeds π s r := by
  by_cases hsw : s.ghost.sweeping = true
  · exact (h.ahead ht hsw r List.mem_cons_self hst).hasNeeds
  · exact (hi.tidy ht).needs (by simpa using hsw) r hst

structure Found (π : Protocol) (t : Tid) (held : Prop) (A : SnapshotRef → Prop) (live : LiveSet)
    (r : SnapshotRef) (rest : List SnapshotRef) (s : World) : Prop where
  marking : Marking π t held A live (r :: rest) s
  stored : Stored s r
  needs : π.tidy → HasNeeds π s r

theorem wp_readForMark (isRoot : Bool) (hs : Marking π t held A live (r :: rest) s) :
    wp (collectorRules π t) (Gc.readForMark isRoot r).run (fun res w =>
      (res = .ok none → isRoot = true ∧ Marking π t held A live rest w) ∧
      ∀ b, res = .ok (some b) → Found π t held A live r rest w ∧ ReadOk π r b) s := by
  have hread : wp (collectorRules π t)
      (readManifestBytesNoting (Gc.noteDangling isRoot r) r).run (fun res w =>
        (res = .error .notFound → isRoot = true → Marking π t held A live rest w) ∧
        ∀ b, res = .ok b → Found π t held A live r rest w ∧ ReadOk π r b) s := by
    refine wpE_bind (wp_collector_action stable_marking hs fun o w b u hi hw hf ha => ?_)
    split at hf <;> cases hf
    · refine ⟨.frame (Frame.refl w), wpE_bind (wp_collector_observe stable_marking hw ?_)⟩
      intro o w hi hw
      split
      · simp
      · simp
      · next b _ hb =>
        obtain ⟨i, hl, rfl⟩ : ∃ i, w.manifests.lookup (.spm r) = some i ∧
            w.manifests.content i = b := by
          simpa [FileSys.readName] using hb
        have hst : Stored w r := by simp [Stored, hasManifest, hl]
        rw [andThen_ok]
        refine wp_ofExcept ⟨?_, ?_⟩
        · cases hv : verifyManifest r (w.manifests.content i) with
          | ok b => simp [Except.mapError]
          | error e =>
            obtain rfl := verifyManifest_error hv
            simp [Except.mapError]
        · intro b' hb'
          cases hv : verifyManifest r (w.manifests.content i) with
          | error e => simp [hv, Except.mapError] at hb'
          | ok b =>
            simp only [hv, Except.mapError, Except.ok.injEq] at hb'
            subst hb'
            exact ⟨⟨hw, hst, hi.hasNeeds hw hst⟩, readOk_of_verify hi hl rfl hv⟩
    · next hst =>
      cases isRoot with
      | false => exact ⟨.frame (Frame.refl w), by simp, by simp⟩
      | true => exact ⟨.dangling r hw.epoch hst, fun _ _ => hw.skip hst ha, by simp⟩
  refine wp_bind (wp_mono ?_ hread)
  rintro (e | b) w ⟨herr, hok⟩
  · dsimp only
    split
    · next hroot => exact ⟨fun _ => ⟨hroot.2, herr (by rw [hroot.1]) hroot.2⟩, by simp⟩
    · exact ⟨by simp, by simp⟩
  · exact ⟨by simp, fun b' hb' => by cases hb'; exact hok b rfl⟩

theorem wp_markChain (fuel : Nat) (isRoot : Bool) (cursor : SnapshotRef) (live : LiveSet)
    (report : SweepReport) (hs : Marking π t held A live (cursor :: rest) s)
    (hc : Closure.ClosedUpTo (Named π.S) (fun p => isRoot = false ∧ p = cursor)
      (· ∈ live.manifests) (· ∈ live.pages)) :
    wp (collectorRules π t) (Gc.markChain fuel isRoot cursor (live, report)).run (fun res w =>
      ∀ st, res = .ok st → Marking π t held A st.1 rest w ∧ LiveClosed π st.1) s := by
  induction fuel generalizing isRoot cursor live s with
  | zero =>
    intro st hst
    cases hst
  | succ fuel ih =>
    rw [Gc.markChain]
    split
    · next hmem =>
      intro st hst
      cases hst
      exact ⟨hs.drop (.inl hmem), hc.closed fun p hp => hp.2 ▸ hmem⟩
    refine wpE_bind (wp_mono ?_ (wp_readForMark isRoot hs))
    rintro (e | b) w ⟨hnone, hsome⟩
    · simp
    cases b with
    | none =>
      obtain ⟨hroot, hw⟩ := hnone rfl
      intro st hst
      cases hst
      exact ⟨hw, hc.closed fun p hp => by simp [hroot] at hp⟩
    | some bytes =>
      obtain ⟨hw, hread⟩ := hsome bytes rfl
      rw [andThen_ok]
      refine wpE_bind (wp_ofExcept ?_)
      cases hd : Manifest.decode bytes with
      | error e => simp [Except.mapError]
      | ok m =>
        have hnamed := hread m hd
        have hm := hw.marking.mark hw.stored hw.needs m
        have hcur : cursor ∈ (Gc.LiveSet.mark live cursor m).manifests := List.mem_insert_self
        have hc' := hc.insert π.collisionFree.functional (fun p hp => hp.2) hnamed
          (fun j => List.mem_insert_iff) fun k => Gc.mem_mark_pages (r := cursor)
        simp only [Except.mapError, andThen_ok]
        split
        · split
          · next p hp =>
            refine ih false p _ ?_ ?_
            · refine (hm.drop (.inl hcur)).narrow (fun q hq => .inl (List.mem_cons_of_mem _ hq)) ?_
              intro ht hsw q hq hst
              rcases List.mem_cons.mp hq with rfl | hq
              · exact (hm.ahead ht hsw cursor List.mem_cons_self hw.stored).parent
                  π.collisionFree.functional (hp ▸ hnamed)
              · exact hm.ahead ht hsw q (List.mem_cons_of_mem _ hq) hst
            · refine ⟨hc'.named, fun i ks q hi ha => ?_⟩
              refine (hc'.parent i ks q hi ha).imp_right fun hq => ?_
              rw [hp] at hq
              exact ⟨rfl, (Option.some.inj hq).symm⟩
          · intro st hst
            cases hst
        · next hnd =>
          intro st hst
          cases hst
          refine ⟨hm.drop (.inl hcur), hc'.closed fun p hp => ?_⟩
          exact absurd (decode_parent hd hp) hnd

theorem wp_mark (roots : List SnapshotRef) (live : LiveSet) (report : SweepReport)
    (hs : Marking π t held A live roots s) (hc : LiveClosed π live) :
    wp (collectorRules π t) (Gc.mark roots (live, report)).run (fun res w =>
      ∀ st, res = .ok st → Marking π t held A st.1 [] w ∧ LiveClosed π st.1) s := by
  refine wpE_foldlM (fun st todo w => Marking π t held A st.1 todo w ∧ LiveClosed π st.1) ?_ ?_
    roots (live, report) s ⟨hs, hc⟩
  · rintro ⟨live, report⟩ root todo w ⟨hw, hc⟩
    refine wp_mono ?_ (wp_markChain _ true root live report hw hc.upTo)
    rintro (e | st) w' h
    · simp
    · exact h st rfl
  · rintro st w h st' hst
    cases hst
    exact h

end Marking

end SnapStore

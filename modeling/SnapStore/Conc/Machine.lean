import SnapStore.Conc.Logic

/-!
# Machines: threads, crashes and recovery

A machine serves calls.  Each call runs as a thread over the shared state, the threads interleave
at their atomic actions, and the machine may crash at any moment.  After a crash the recovery
program runs alone; the machine serves calls again once it has succeeded.
-/

namespace Conc

abbrev Tid := Nat

structure Machine (ε σ : Type) where
  Call : Type
  Reply : Type
  body : Tid → Call → Prog ε σ Reply
  /-- The recovery program; it returns whether the machine may serve calls. -/
  boot : Prog ε σ Bool
  overlap : Call → Call → Prop
  crash : σ → σ → Prop

variable {ε σ : Type}

structure Thread (M : Machine ε σ) where
  call : M.Call
  prog : Prog ε σ M.Reply

inductive Mode (ε σ : Type) : Type 1 where
  | booting (p : Prog ε σ Bool)
  | up
  | down

def Mode.isUp : Mode ε σ → Bool
  | .up => true
  | _ => false

theorem Mode.eq_up {m : Mode ε σ} (h : m.isUp = true) : m = .up := by
  cases m with
  | up => rfl
  | booting p => cases h
  | down => cases h

structure Config (M : Machine ε σ) where
  store : σ
  mode : Mode ε σ
  threads : List (Thread M)

inductive Label (M : Machine ε σ) where
  | start (c : M.Call)
  | act (t : Tid) (e : ε)
  | boot (e : ε)
  | ready
  | crash

namespace Machine

variable (M : Machine ε σ)

def Admits (c : M.Call) (ts : List (Thread M)) : Prop :=
  ∀ th ∈ ts, th.prog.isDone = false → M.overlap c th.call ∧ M.overlap th.call c

inductive Step : Config M → Label M → Config M → Prop where
  | start {s : σ} {ts : List (Thread M)} (c : M.Call) (h : M.Admits c ts) :
      Step ⟨s, .up, ts⟩ (.start c) ⟨s, .up, ts ++ [⟨c, M.body ts.length c⟩]⟩
  | act {s s' : σ} {ts : List (Thread M)} {c : M.Call} {p p' : Prog ε σ M.Reply} (t : Tid) (e : ε)
      (ht : ts[t]? = some ⟨c, p⟩) (hp : p.step e s = some (p', s')) :
      Step ⟨s, .up, ts⟩ (.act t e) ⟨s', .up, ts.set t ⟨c, p'⟩⟩
  | boot {s s' : σ} {ts : List (Thread M)} {p p' : Prog ε σ Bool} (e : ε)
      (hp : p.step e s = some (p', s')) :
      Step ⟨s, .booting p, ts⟩ (.boot e) ⟨s', .booting p', ts⟩
  | ready {s : σ} {ts : List (Thread M)} (b : Bool) :
      Step ⟨s, .booting (.ret b), ts⟩ .ready ⟨s, if b then .up else .down, ts⟩
  | crash {s s' : σ} {m : Mode ε σ} {ts : List (Thread M)} (h : M.crash s s') :
      Step ⟨s, m, ts⟩ .crash ⟨s', .booting M.boot, []⟩

theorem getElem?_concat_eq_some {α : Type*} {l : List α} {a b : α} {i : Nat}
    (h : (l ++ [a])[i]? = some b) : l[i]? = some b ∨ i = l.length ∧ a = b := by
  by_cases hlt : i < l.length
  · rw [List.getElem?_append_left hlt] at h
    exact .inl h
  · rw [List.getElem?_append_right (Nat.le_of_not_lt hlt), List.getElem?_singleton] at h
    split at h
    · next heq => exact .inr ⟨by omega, Option.some.inj h⟩
    · cases h

theorem getElem?_set_eq_some {α : Type*} {l : List α} {a b c : α} {i j : Nat} (hj : l[j]? = some c)
    (h : (l.set j a)[i]? = some b) : i = j ∧ a = b ∨ l[i]? = some b := by
  by_cases hij : i = j
  · subst hij
    rw [List.getElem?_set_self (List.getElem?_eq_some_iff.mp hj).1] at h
    exact .inl ⟨rfl, Option.some.inj h⟩
  · rw [List.getElem?_set_ne (Ne.symm hij)] at h
    exact .inr h

def initial (s : σ) : Config M := ⟨s, .booting M.boot, []⟩

inductive Reach (ok : Label M → σ → σ → Prop) (c₀ : Config M) : Config M → Prop where
  | refl : Reach ok c₀ c₀
  | step {c c' : Config M} {l : Label M} (hr : Reach ok c₀ c) (hs : Step M c l c')
      (hok : ok l c.store c'.store) : Reach ok c₀ c'

variable {M}

theorem Reach.mono {ok ok' : Label M → σ → σ → Prop} {c₀ c : Config M}
    (h : ∀ l s s', ok l s s' → ok' l s s') (hr : Reach M ok c₀ c) : Reach M ok' c₀ c := by
  induction hr with
  | refl => exact .refl
  | step _ hs hok ih => exact .step ih hs (h _ _ _ hok)

theorem Reach.trans {ok : Label M → σ → σ → Prop} {c₀ c₁ c₂ : Config M}
    (h₁ : Reach M ok c₀ c₁) (h₂ : Reach M ok c₁ c₂) : Reach M ok c₀ c₂ := by
  induction h₂ with
  | refl => exact h₁
  | step _ hs hok ih => exact .step ih hs hok

def Returns (a b : Config M) (t : Tid) (c : M.Call) (r : M.Reply) : Prop :=
  (∃ p, a.threads[t]? = some ⟨c, p⟩ ∧ p.isDone = false) ∧ b.threads[t]? = some ⟨c, .ret r⟩

end Machine

/-- A proof outline of a machine: rely-guarantee rules for each call, what holds while the
recovery runs, and a postcondition for each call. -/
structure Outline (M : Machine ε σ) (ok : Label M → σ → σ → Prop) where
  inv : σ → Prop
  down : σ → Prop
  rely : M.Call → Tid → σ → σ → Prop
  guar : M.Call → Tid → σ → σ → Prop
  post : M.Call → Tid → M.Reply → σ → Prop
  /-- The thread holds none of the machine's locks. -/
  idle : Tid → σ → Prop
  /-- Kinds of calls of which at most one runs at a time. -/
  Kind : Type := Unit
  alone : Kind → M.Call → Prop := fun _ _ => False
  /-- What holds while no call of the kind runs. -/
  lull : Kind → σ → Prop := fun _ _ => True
  rely_refl : ∀ c t s, rely c t s s
  rely_trans : ∀ c t s u v, rely c t s u → rely c t u v → rely c t s v
  guar_rely : ∀ c d t u s s', t ≠ u → M.overlap c d → inv s → inv s' → guar c t s s' →
    rely d u s s'
  guar_idle : ∀ c t u s s', t ≠ u → inv s → guar c t s s' → idle u s → idle u s'
  alone_overlap : ∀ k c d, alone k c → alone k d → ¬ M.overlap c d := by simp
  guar_lull : ∀ k c t s s', ¬ alone k c → inv s → guar c t s s' → lull k s → lull k s' := by simp
  post_lull : ∀ k c t r s, alone k c → post c t r s → lull k s := by simp
  body : ∀ c t s, inv s → idle t s → (∀ k, alone k c → lull k s) → ok (.start c) s s →
    wp ⟨fun e s s' => ok (.act t e) s s', inv, rely c t, guar c t, rely_refl c t, rely_trans c t⟩
      (M.body t c) (post c t) s
  boot : ∀ s, down s →
    wp ⟨fun e s s' => ok (.boot e) s s', down, Eq, fun _ _ => True, fun _ => rfl,
      fun _ _ _ => Eq.trans⟩ M.boot (fun b s => b = true → inv s ∧ (∀ t, idle t s) ∧ ∀ k, lull k s) s
  crash_up : ∀ s s', inv s → M.crash s s' → ok .crash s s' → down s'
  crash_down : ∀ s s', down s → M.crash s s' → ok .crash s s' → down s'

namespace Outline

variable {M : Machine ε σ} {ok : Label M → σ → σ → Prop} (O : Outline M ok)

def rules (c : M.Call) (t : Tid) : Rules ε σ :=
  ⟨fun e s s' => ok (.act t e) s s', O.inv, O.rely c t, O.guar c t, O.rely_refl c t,
    O.rely_trans c t⟩

def bootRules : Rules ε σ :=
  ⟨fun e s s' => ok (.boot e) s s', O.down, Eq, fun _ _ => True, fun _ => rfl,
    fun _ _ _ => Eq.trans⟩

structure Serving (s : σ) (ts : List (Thread M)) : Prop where
  inv : O.inv s
  threads : ∀ (t : Tid) (c : M.Call) (p : Prog ε σ M.Reply), ts[t]? = some ⟨c, p⟩ →
    p.isDone = false → wp (O.rules c t) p (O.post c t) s
  overlap : ∀ (t u : Tid) (c d : M.Call) (p q : Prog ε σ M.Reply), t ≠ u → ts[t]? = some ⟨c, p⟩ → ts[u]? = some ⟨d, q⟩ →
    p.isDone = false → q.isDone = false → M.overlap c d
  idle : ∀ t, ts.length ≤ t → O.idle t s
  lull : ∀ k, (∀ th ∈ ts, th.prog.isDone = false → ¬ O.alone k th.call) → O.lull k s

def Good (c : Config M) : Prop :=
  match c.mode with
  | .up => O.Serving c.store c.threads
  | .booting p => O.down c.store ∧ c.threads = [] ∧
      wp O.bootRules p (fun b s => b = true → O.inv s ∧ (∀ t, O.idle t s) ∧ ∀ k, O.lull k s) c.store
  | .down => O.down c.store ∧ c.threads = []

variable {O}

theorem Serving.start {s : σ} {ts : List (Thread M)} (h : O.Serving s ts) (c : M.Call)
    (hc : M.Admits c ts) (hok : ok (.start c) s s) :
    O.Serving s (ts ++ [⟨c, M.body ts.length c⟩]) ∧
      wp (O.rules c ts.length) (M.body ts.length c) (O.post c ts.length) s := by
  have hget : ∀ t d q, (ts ++ [⟨c, M.body ts.length c⟩])[t]? = some (⟨d, q⟩ : Thread M) →
      ts[t]? = some ⟨d, q⟩ ∨ (t = ts.length ∧ d = c ∧ q = M.body ts.length c) := by
    intro t d q hq
    rcases Machine.getElem?_concat_eq_some hq with hold | ⟨ht, hnew⟩
    · exact .inl hold
    · cases hnew
      exact .inr ⟨ht, rfl, rfl⟩
  have hbody : wp (O.rules c ts.length) (M.body ts.length c) (O.post c ts.length) s := by
    refine O.body c _ s h.inv (h.idle _ (Nat.le_refl _)) (fun k halone => h.lull k ?_) hok
    exact fun th hth hrun hother => O.alone_overlap k _ _ halone hother (hc th hth hrun).1
  refine ⟨⟨h.inv, ?_, ?_, ?_, fun k hts => h.lull k fun th hth =>
    hts th (List.mem_append_left _ hth)⟩, hbody⟩
  · intro t d q hq hd
    rcases hget t d q hq with hq | ⟨rfl, rfl, rfl⟩
    · exact h.threads t d q hq hd
    · exact hbody
  · intro t u d d' q q' htu hq hq' hd hd'
    rcases hget t d q hq with hold | ⟨rfl, rfl, rfl⟩ <;>
      rcases hget u d' q' hq' with hold' | ⟨rfl, rfl, rfl⟩
    · exact h.overlap t u d d' q q' htu hold hold' hd hd'
    · exact (hc ⟨d, q⟩ (List.mem_of_getElem? hold) hd).2
    · exact (hc ⟨d', q'⟩ (List.mem_of_getElem? hold') hd').1
    · exact absurd rfl htu
  · intro t ht
    rw [List.length_append] at ht
    exact h.idle t (by omega)

theorem Serving.act {s s' : σ} {ts : List (Thread M)} {c : M.Call} {p p' : Prog ε σ M.Reply}
    {t : Tid} {e : ε} (h : O.Serving s ts) (ht : ts[t]? = some ⟨c, p⟩)
    (hp : p.step e s = some (p', s')) (hok : ok (.act t e) s s') :
    O.Serving s' (ts.set t ⟨c, p'⟩) ∧ wp (O.rules c t) p' (O.post c t) s' := by
  have hrun : p.isDone = false := by
    cases p with
    | ret a => simp [Prog.step] at hp
    | act f k => rfl
  have htlen : t < ts.length := (List.getElem?_eq_some_iff.mp ht).1
  obtain ⟨hinv, hguar, hwp⟩ := wp_step (h.threads t c p ht hrun) h.inv hp hok
  have hother : ∀ u d q, u ≠ t → (ts.set t ⟨c, p'⟩)[u]? = some (⟨d, q⟩ : Thread M) →
      ts[u]? = some ⟨d, q⟩ := by
    intro u d q hu hq
    rwa [List.getElem?_set_ne (Ne.symm hu)] at hq
  have hself : ∀ d q, (ts.set t ⟨c, p'⟩)[t]? = some (⟨d, q⟩ : Thread M) → d = c ∧ q = p' := by
    intro d q hq
    rw [List.getElem?_set_self htlen, Option.some.injEq, Thread.mk.injEq] at hq
    exact ⟨hq.1.symm, hq.2.symm⟩
  refine ⟨⟨hinv, ?_, ?_, ?_, ?_⟩, hwp⟩
  · intro u d q hq hd
    by_cases hu : u = t
    · subst hu
      obtain ⟨rfl, rfl⟩ := hself d q hq
      exact hwp
    · have hold := hother u d q hu hq
      have hov := h.overlap t u c d p q (Ne.symm hu) ht hold hrun hd
      exact wp_rely hd (O.guar_rely c d t u s s' (Ne.symm hu) hov h.inv hinv hguar)
        (h.threads u d q hold hd)
  · intro u v d d' q q' huv hq hq' hd hd'
    by_cases hu : u = t
    · subst hu
      obtain ⟨rfl, rfl⟩ := hself d q hq
      exact h.overlap u v d d' p q' huv ht (hother v d' q' (Ne.symm huv) hq') hrun hd'
    · by_cases hv : v = t
      · subst hv
        obtain ⟨rfl, rfl⟩ := hself d' q' hq'
        exact h.overlap u v d d' q p huv (hother u d q hu hq) ht hd hrun
      · exact h.overlap u v d d' q q' huv (hother u d q hu hq) (hother v d' q' hv hq') hd hd'
  · intro u hu
    rw [List.length_set] at hu
    have htu : t ≠ u := Nat.ne_of_lt (Nat.lt_of_lt_of_le htlen hu)
    exact O.guar_idle c t u s s' htu h.inv hguar (h.idle u hu)
  · intro k hts
    by_cases halone : O.alone k c
    · -- the step ends the call
      have hself := hts ⟨c, p'⟩ (List.mem_iff_getElem?.mpr ⟨t, List.getElem?_set_self htlen⟩)
      cases p' with
      | ret r => exact O.post_lull k c t r s' halone hwp
      | act f g => exact absurd halone (hself rfl)
    · refine O.guar_lull k c t s s' halone h.inv hguar (h.lull k fun th hth hd => ?_)
      obtain ⟨u, hu⟩ := List.mem_iff_getElem?.mp hth
      by_cases hut : u = t
      · subst hut
        rw [ht, Option.some.injEq] at hu
        rwa [← hu]
      · refine hts th (List.mem_iff_getElem?.mpr ⟨u, ?_⟩) hd
        rwa [List.getElem?_set_ne (Ne.symm hut)]

theorem Good.step {a b : Config M} {l : Label M} (h : O.Good a) (hs : M.Step a l b)
    (hok : ok l a.store b.store) : O.Good b := by
  cases hs with
  | start c hc => exact (Serving.start h c hc hok).1
  | act t e ht hp => exact (Serving.act h ht hp hok).1
  | boot e hp =>
    obtain ⟨hd, hts, hwp⟩ := h
    obtain ⟨hinv, -, hwp'⟩ := wp_step hwp hd hp hok
    exact ⟨hinv, hts, hwp'⟩
  | ready b =>
    obtain ⟨hd, hts, hwp⟩ := h
    cases b with
    | false => exact ⟨hd, hts⟩
    | true =>
      obtain ⟨hinv, hidle, hlull⟩ : O.inv _ ∧ (∀ t, O.idle t _) ∧ ∀ k, O.lull k _ := hwp rfl
      simp only at hts
      subst hts
      exact ⟨hinv, by simp, by simp, fun t _ => hidle t, fun k _ => hlull k⟩
  | @crash s s' m ts hc =>
    have hd : O.down s' := by
      cases m with
      | up => exact O.crash_up s s' h.inv hc hok
      | booting p => exact O.crash_down s s' h.1 hc hok
      | down => exact O.crash_down s s' h.1 hc hok
    exact ⟨hd, rfl, O.boot s' hd⟩

theorem Good.reach {c₀ c : Config M} (h₀ : O.Good c₀) (h : M.Reach ok c₀ c) : O.Good c := by
  induction h with
  | refl => exact h₀
  | step _ hs hok ih => exact ih.step hs hok

theorem good_of_reach {s₀ : σ} (h₀ : O.down s₀) {c : Config M}
    (h : M.Reach ok (M.initial s₀) c) : O.Good c := by
  have hinit : O.Good (M.initial s₀) := ⟨h₀, rfl, O.boot s₀ h₀⟩
  exact hinit.reach h

theorem Good.up_of_return {a b : Config M} {t : Tid} {c : M.Call} {r : M.Reply} (hg : O.Good a)
    (h : Machine.Returns a b t c r) : a.mode = .up := by
  obtain ⟨⟨p, hp, -⟩, -⟩ := h
  cases hm : a.mode with
  | up => rfl
  | booting q =>
    rw [Good, hm] at hg
    simp [hg.2.1] at hp
  | down =>
    rw [Good, hm] at hg
    simp [hg.2] at hp

theorem Good.guar_of_act {a b : Config M} {t : Tid} {e : ε} {c : M.Call} {p : Prog ε σ M.Reply}
    (hg : O.Good a) (hs : M.Step a (.act t e) b) (hok : ok (.act t e) a.store b.store)
    (ht : a.threads[t]? = some ⟨c, p⟩) : O.guar c t a.store b.store := by
  cases hs with
  | @act s s' ts d q q' _ _ hu hp =>
    rw [hu, Option.some.injEq, Thread.mk.injEq] at ht
    obtain ⟨rfl, rfl⟩ := ht
    have hrun : q.isDone = false := by
      cases q with
      | ret r => simp [Prog.step] at hp
      | act f k => rfl
    obtain ⟨-, hguar, -⟩ := wp_step (hg.threads t d q hu hrun) hg.inv hp hok
    exact hguar

/-- A step of a machine that serves calls, and goes on serving them, is a step of one of its
threads or leaves the state alone. -/
theorem guar_of_step {s₀ : σ} (h₀ : O.down s₀) {a b : Config M} {l : Label M}
    (h : M.Reach ok (M.initial s₀) a) (hs : M.Step a l b) (hok : ok l a.store b.store)
    (hup : a.mode = .up) (hup' : b.mode = .up) :
    a.store = b.store ∨ ∃ c t, O.guar c t a.store b.store := by
  have hg := good_of_reach h₀ h
  cases hs with
  | start c hc => exact .inl rfl
  | @act s s' ts c p p' t e ht hp => exact .inr ⟨c, t, hg.guar_of_act (.act t e ht hp) hok ht⟩
  | boot e hp => cases hup
  | ready b => cases hup
  | crash hc => cases hup'

theorem Good.post_of_return {a b : Config M} {l : Label M} (hg : O.Good a) (hs : M.Step a l b)
    (hok : ok l a.store b.store) {t : Tid} {c : M.Call} {r : M.Reply}
    (hret : M.Returns a b t c r) : O.post c t r b.store := by
  obtain ⟨⟨p, hp, hrun⟩, hq⟩ := hret
  cases hs with
  | start d hc =>
    have hlt := (List.getElem?_eq_some_iff.mp hp).1
    simp only at hp hq hlt
    rw [List.getElem?_append_left hlt, hp, Option.some.injEq, Thread.mk.injEq] at hq
    rw [hq.2] at hrun
    simp [Prog.isDone] at hrun
  | @act s s' ts d q q' u e hu hstep =>
    simp only at hp hq
    by_cases htu : t = u
    · subst htu
      have hlt := (List.getElem?_eq_some_iff.mp hu).1
      rw [List.getElem?_set_self hlt, Option.some.injEq, Thread.mk.injEq] at hq
      obtain ⟨rfl, rfl⟩ := hq
      exact (Serving.act hg hu hstep hok).2
    · rw [List.getElem?_set_ne (Ne.symm htu), hp, Option.some.injEq, Thread.mk.injEq] at hq
      rw [hq.2] at hrun
      simp [Prog.isDone] at hrun
  | boot e hb =>
    simp only at hp hq
    rw [hp, Option.some.injEq, Thread.mk.injEq] at hq
    rw [hq.2] at hrun
    simp [Prog.isDone] at hrun
  | ready b =>
    simp only at hp hq
    rw [hp, Option.some.injEq, Thread.mk.injEq] at hq
    rw [hq.2] at hrun
    simp [Prog.isDone] at hrun
  | crash hc => simp at hq

theorem Good.returned {R : M.Call → M.Reply → σ → Prop}
    (hpost : ∀ c t r s, O.post c t r s → R c r s)
    (hkeep : ∀ c r d t s s', O.inv s → O.guar d t s s' → R c r s → R c r s') {c₀ : Config M}
    (h₀ : O.Good c₀) (hnone : c₀.threads = []) {c : Config M} (h : M.Reach ok c₀ c) :
    ∀ (t : Tid) (d : M.Call) (r : M.Reply), c.threads[t]? = some ⟨d, .ret r⟩ → R d r c.store := by
  induction h with
  | refl => simp [hnone]
  | @step a b l hr hs hok ih =>
    have hg := h₀.reach hr
    intro t d r ht
    cases hs with
    | @start s ts d' hc =>
      have hwp := (Serving.start hg d' hc hok).2
      rcases Machine.getElem?_concat_eq_some ht with hold | ⟨rfl, hnew⟩
      · exact ih t d r hold
      · rw [Thread.mk.injEq] at hnew
        obtain ⟨rfl, hbody⟩ := hnew
        rw [hbody] at hwp
        exact hpost _ _ _ _ hwp
    | @act s s' ts d' p p' u e hu hp =>
      rcases Machine.getElem?_set_eq_some hu ht with ⟨rfl, hnew⟩ | ht
      · cases hnew
        exact hpost _ _ _ _ (Serving.act hg hu hp hok).2
      · have hguar := hg.guar_of_act (.act u e hu hp) hok hu
        exact hkeep d r d' u s s' hg.inv hguar (ih t d r ht)
    | boot e hp =>
      rw [hg.2.1] at ht
      simp at ht
    | ready v =>
      rw [hg.2.1] at ht
      simp at ht
    | crash hc => simp at ht

theorem post_of_return {s₀ : σ} (h₀ : O.down s₀) {a b : Config M} {l : Label M}
    (h : M.Reach ok (M.initial s₀) a) (hs : M.Step a l b) (hok : ok l a.store b.store)
    {t : Tid} {c : M.Call} {r : M.Reply} (hret : M.Returns a b t c r) : O.post c t r b.store :=
  (good_of_reach h₀ h).post_of_return hs hok hret

end Outline

end Conc

import SnapStore.Conc.Machine
import SnapStore.Conc.Sequential

/-!
# Scripts

A script is a list of commands that drives a machine through one run, as long as the steps of
the run pass a check.  What the script computes is a configuration the machine reaches.
-/

namespace Conc

variable {ε σ : Type}

inductive Cmd (M : Machine ε σ) where
  | start (c : M.Call)
  | run (t : Tid) (e : ε) (n : Nat)
  | boot (e : ε) (n : Nat)
  | ready
  | crash (f : σ → σ)

namespace Machine

variable (M : Machine ε σ) (chk : σ → σ → Bool)

def runThread (t : Tid) (e : ε) : Nat → Config M → Option (Config M)
  | 0, c => some c
  | n + 1, ⟨s, .up, ts⟩ =>
    match ts[t]? with
    | none => none
    | some ⟨_, .ret _⟩ => some ⟨s, .up, ts⟩
    | some ⟨c, .act f k⟩ =>
      match f e s with
      | none => none
      | some (b, s') => if chk s s' then runThread t e n ⟨s', .up, ts.set t ⟨c, k b⟩⟩ else none
  | _ + 1, ⟨_, .booting _, _⟩ => none
  | _ + 1, ⟨_, .down, _⟩ => none

def runBoot (e : ε) : Nat → Config M → Option (Config M)
  | 0, c => some c
  | n + 1, ⟨s, .booting (.act f k), ts⟩ =>
    match f e s with
    | none => none
    | some (b, s') => if chk s s' then runBoot e n ⟨s', .booting (k b), ts⟩ else none
  | _ + 1, ⟨s, .booting (.ret b), ts⟩ => some ⟨s, .booting (.ret b), ts⟩
  | _ + 1, ⟨_, .up, _⟩ => none
  | _ + 1, ⟨_, .down, _⟩ => none

variable [DecidableRel M.overlap]

instance (c : M.Call) (ts : List (Thread M)) : Decidable (M.Admits c ts) :=
  inferInstanceAs (Decidable (∀ th ∈ ts, th.prog.isDone = false →
    M.overlap c th.call ∧ M.overlap th.call c))

def exec : Cmd M → Config M → Option (Config M)
  | .start c, ⟨s, .up, ts⟩ =>
    if M.Admits c ts ∧ chk s s then some ⟨s, .up, ts ++ [⟨c, M.body ts.length c⟩]⟩ else none
  | .run t e n, c => M.runThread chk t e n c
  | .boot e n, c => M.runBoot chk e n c
  | .ready, ⟨s, .booting (.ret b), ts⟩ =>
    if chk s s then some ⟨s, if b then .up else .down, ts⟩ else none
  | .crash f, ⟨s, _, _⟩ => if chk s (f s) then some ⟨f s, .booting M.boot, []⟩ else none
  | _, _ => none

def execAll : List (Cmd M) → Config M → Option (Config M)
  | [], c => some c
  | cmd :: cmds, c =>
    match M.exec chk cmd c with
    | none => none
    | some c' => execAll cmds c'

variable {M} {chk}

def Meets (chk : σ → σ → Bool) (ok : Label M → σ → σ → Prop) : Cmd M → Prop
  | .start c => ∀ s, chk s s = true → ok (.start c) s s
  | .run t e _ => ∀ s s', chk s s' = true → ok (.act t e) s s'
  | .boot e _ => ∀ s s', chk s s' = true → ok (.boot e) s s'
  | .ready => ∀ s, chk s s = true → ok .ready s s
  | .crash f => ∀ s, chk s (f s) = true → M.crash s (f s) ∧ ok .crash s (f s)

variable {ok : Label M → σ → σ → Prop}

omit [DecidableRel M.overlap] in
theorem reach_of_runThread {t : Tid} {e : ε} {n : Nat} {c c' : Config M}
    (hok : ∀ s s', chk s s' = true → ok (.act t e) s s')
    (h : M.runThread chk t e n c = some c') : M.Reach ok c c' := by
  induction n generalizing c with
  | zero =>
    cases h
    exact .refl
  | succ n ih =>
    obtain ⟨s, m, ts⟩ := c
    cases m with
    | booting p => cases h
    | down => cases h
    | up =>
      rw [runThread] at h
      split at h
      · cases h
      · cases h
        exact .refl
      · next d _ f k hget =>
        split at h
        · cases h
        · next b s' hf =>
          split at h
          · next hs' =>
            have hstep : (Prog.act f k).step e s = some (k b, s') := by simp [Prog.step, hf]
            have hfirst : M.Reach ok ⟨s, .up, ts⟩ ⟨s', .up, ts.set t ⟨d, k b⟩⟩ :=
              .step .refl (.act t e hget hstep) (hok s s' hs')
            exact hfirst.trans (ih h)
          · cases h

omit [DecidableRel M.overlap] in
theorem reach_of_runBoot {e : ε} {n : Nat} {c c' : Config M}
    (hok : ∀ s s', chk s s' = true → ok (.boot e) s s')
    (h : M.runBoot chk e n c = some c') : M.Reach ok c c' := by
  induction n generalizing c with
  | zero =>
    cases h
    exact .refl
  | succ n ih =>
    obtain ⟨s, m, ts⟩ := c
    cases m with
    | up => cases h
    | down => cases h
    | booting p =>
      cases p with
      | ret b =>
        cases h
        exact .refl
      | act f k =>
        rw [runBoot] at h
        split at h
        · cases h
        · next b s' hf =>
          split at h
          · next hs' =>
            have hstep : (Prog.act f k).step e s = some (k b, s') := by simp [Prog.step, hf]
            have hfirst : M.Reach ok ⟨s, .booting (.act f k), ts⟩ ⟨s', .booting (k b), ts⟩ :=
              .step .refl (.boot e hstep) (hok s s' hs')
            exact hfirst.trans (ih h)
          · cases h

theorem reach_of_exec {cmd : Cmd M} {c c' : Config M} (hok : Meets chk ok cmd)
    (h : M.exec chk cmd c = some c') : M.Reach ok c c' := by
  unfold exec at h
  split at h
  · next d s ts =>
    split at h
    · next ha =>
      cases h
      exact .step .refl (.start d ha.1) (hok s ha.2)
    · cases h
  · exact reach_of_runThread hok h
  · exact reach_of_runBoot hok h
  · next s b ts =>
    split at h
    · next hs =>
      cases h
      exact .step .refl (.ready b) (hok s hs)
    · cases h
  · next f s m ts =>
    split at h
    · next hs' =>
      cases h
      obtain ⟨hcrash, hlabel⟩ := hok s hs'
      exact .step .refl (.crash hcrash) hlabel
    · cases h
  · cases h

theorem reach_of_execAll {cmds : List (Cmd M)} {c c' : Config M}
    (hok : ∀ cmd ∈ cmds, Meets chk ok cmd) (h : M.execAll chk cmds c = some c') :
    M.Reach ok c c' := by
  induction cmds generalizing c with
  | nil =>
    cases h
    exact .refl
  | cons cmd cmds ih =>
    rw [execAll] at h
    split at h
    · cases h
    · next c₁ hc₁ =>
      have hfirst := reach_of_exec (hok cmd List.mem_cons_self) hc₁
      exact hfirst.trans (ih (fun d hd => hok d (List.mem_cons_of_mem _ hd)) h)

/-! ## Runs of one program, put together from its parts -/

end Machine

/-- Zero or more actions of a program alone, with one supply of the environment. -/
inductive Moves {α : Type} (e : ε) : Prog ε σ α → σ → Prog ε σ α → σ → Prop where
  | refl (p : Prog ε σ α) (s : σ) : Moves e p s p s
  | head {p p' q : Prog ε σ α} {s s' t : σ} (h : p.step e s = some (p', s'))
      (hrest : Moves e p' s' q t) : Moves e p s q t

namespace Moves

variable {α β E : Type} {e : ε} {s t u : σ}

theorem trans {p q r : Prog ε σ α} (h : Moves e p s q t) (h' : Moves e q t r u) :
    Moves e p s r u := by
  induction h with
  | refl => exact h'
  | head hs _ ih => exact .head hs (ih h')

theorem await {f : ε → σ → Option (α × σ)} {a : α} (h : f e s = some (a, t)) :
    Moves e (Prog.await f) s (.ret a) t := .head (by simp [Prog.await, Prog.step, h]) (.refl _ _)

theorem bind {p q : Prog ε σ α} (h : Moves e p s q t) (k : α → Prog ε σ β) :
    Moves e (p >>= k) s (q >>= k) t := by
  induction h with
  | refl => exact .refl _ _
  | @head p p' q s s' t hs _ ih =>
    cases p with
    | ret a => simp [Prog.step] at hs
    | act f g =>
      simp only [Prog.step, Option.map_eq_some_iff, Prod.mk.injEq] at hs
      obtain ⟨⟨b, v⟩, hf, rfl, rfl⟩ := hs
      exact .head (by simp [Prog.bind_eq, Prog.step, hf]) ih

theorem liftE {p : Prog ε σ α} {a : α} (h : Moves e p s (.ret a) t) :
    Moves e (liftM p : ExceptT E (Prog ε σ) α).run s (.ret (.ok a)) t := h.bind _

theorem of_twp {may : ε → Prop} (he : may e) {p : Prog ε σ α} {Q : α → σ → Prop}
    (h : twp may p Q s) : ∃ a t, Moves e p s (.ret a) t ∧ Q a t := by
  induction p generalizing s with
  | ret a => exact ⟨a, s, .refl _ _, h⟩
  | act f k ih =>
    obtain ⟨b, u, hf, hk⟩ := h e he
    obtain ⟨a, t, hmoves, hQ⟩ := ih b hk
    exact ⟨a, t, .head (by simp [Prog.step, hf]) hmoves, hQ⟩

theorem bindE {x : ExceptT E (Prog ε σ) α} {a : α} (h : Moves e x.run s (.ret (.ok a)) t)
    (k : α → ExceptT E (Prog ε σ) β) : Moves e (x >>= k).run s (k a).run t :=
  h.bind _

theorem errorE {x : ExceptT E (Prog ε σ) α} {y : E} (h : Moves e x.run s (.ret (.error y)) t)
    (k : α → ExceptT E (Prog ε σ) β) : Moves e (x >>= k).run s (.ret (.error y)) t :=
  h.bind _

end Moves

namespace Machine

variable {M : Machine ε σ} {chk : σ → σ → Bool} {ok : Label M → σ → σ → Prop}

theorem reach_of_moves {s s' : σ} {ts : List (Thread M)} {c : M.Call} {t : Tid} {e : ε}
    {p q : Prog ε σ M.Reply} (ht : ts[t]? = some ⟨c, p⟩) (hok : ∀ s s', ok (.act t e) s s')
    (h : Moves e p s q s') : M.Reach ok ⟨s, .up, ts⟩ ⟨s', .up, ts.set t ⟨c, q⟩⟩ := by
  induction h generalizing ts with
  | refl p s =>
    obtain ⟨hlt, hget⟩ := List.getElem?_eq_some_iff.mp ht
    rw [← hget, List.set_getElem_self]
    exact .refl
  | @head p p' q s s₁ s' hs _ ih =>
    have hlt := (List.getElem?_eq_some_iff.mp ht).1
    have hfirst : M.Reach ok ⟨s, .up, ts⟩ ⟨s₁, .up, ts.set t ⟨c, p'⟩⟩ :=
      .step .refl (.act t e ht hs) (hok s s₁)
    have hrest : M.Reach ok ⟨s₁, .up, ts.set t ⟨c, p'⟩⟩
        ⟨s', .up, (ts.set t ⟨c, p'⟩).set t ⟨c, q⟩⟩ := ih (List.getElem?_set_self hlt)
    rw [List.set_set] at hrest
    exact hfirst.trans hrest

theorem reach_of_start {c₀ : Config M} {s s' : σ} {ts : List (Thread M)} {c : M.Call} {e : ε}
    {q : Prog ε σ M.Reply} (hr : M.Reach ok c₀ ⟨s, .up, ts⟩) (hadm : M.Admits c ts)
    (hstart : ok (.start c) s s) (hok : ∀ s s', ok (.act ts.length e) s s')
    (h : Moves e (M.body ts.length c) s q s') :
    M.Reach ok c₀ ⟨s', .up, ts ++ [⟨c, q⟩]⟩ := by
  have hget : (ts ++ [⟨c, M.body ts.length c⟩])[ts.length]? =
      some (⟨c, M.body ts.length c⟩ : Thread M) := by simp
  have hrun := reach_of_moves hget hok h
  rw [List.set_append_right _ _ (Nat.le_refl _), Nat.sub_self, List.set_cons_zero] at hrun
  exact (hr.step (.start c hadm) hstart).trans hrun

def replied (t : Tid) (test : M.Call → M.Reply → Bool) (c : Config M) : Bool :=
  match c.threads[t]? with
  | none => false
  | some th =>
    match th.prog with
    | .ret r => test th.call r
    | .act _ _ => false

theorem exists_of_replied {t : Tid} {test : M.Call → M.Reply → Bool} {c : Config M}
    (h : replied t test c = true) :
    ∃ d r, c.threads[t]? = some ⟨d, .ret r⟩ ∧ test d r = true := by
  unfold replied at h
  split at h
  · cases h
  · next th hth =>
    obtain ⟨d, p⟩ := th
    cases p with
    | act f k => cases h
    | ret r => exact ⟨d, r, hth, h⟩

def running (t : Tid) (c : Config M) : Bool :=
  match c.threads[t]? with
  | none => false
  | some th => !th.prog.isDone

theorem step_of_runThread {t : Tid} {e : ε} {a b : Config M}
    (h : M.runThread chk t e 1 a = some b) (hrun : running t a = true) :
    M.Step a (.act t e) b ∧ chk a.store b.store = true := by
  obtain ⟨s, m, ts⟩ := a
  cases m with
  | booting p => cases h
  | down => cases h
  | up =>
    rw [runThread] at h
    split at h
    · cases h
    · next hget => simp [running, hget, Prog.isDone] at hrun
    · next d _ f k hget =>
      split at h
      · cases h
      · next v s' hf =>
        split at h
        · next hchk =>
          cases h
          exact ⟨.act t e hget (by simp [Prog.step, hf]), hchk⟩
        · cases h

theorem returns_of_runThread {t : Tid} {e : ε} {a b : Config M} {test : M.Call → M.Reply → Bool}
    (h : M.runThread chk t e 1 a = some b) (hrun : running t a = true)
    (hrep : replied t test b = true) :
    M.Step a (.act t e) b ∧ ∃ c r, Returns a b t c r ∧ test c r = true := by
  have hs := (step_of_runThread h hrun).1
  refine ⟨hs, ?_⟩
  cases hs with
  | @act s s' ts c p p' _ _ hget hp =>
    have hlt : t < ts.length := (List.getElem?_eq_some_iff.mp hget).1
    have hend : (ts.set t ⟨c, p'⟩)[t]? = some (⟨c, p'⟩ : Thread M) := List.getElem?_set_self hlt
    simp only [replied, hend] at hrep
    cases p' with
    | act g l => simp at hrep
    | ret r =>
      simp only [running, hget, Bool.not_eq_true'] at hrun
      exact ⟨c, r, ⟨⟨p, hget, hrun⟩, hend⟩, hrep⟩

end Machine

end Conc

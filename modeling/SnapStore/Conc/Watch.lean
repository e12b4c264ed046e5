import SnapStore.Conc.Machine

/-!
# Runs under a condition on the configurations

What a step may do can depend on the calls that are running.  A call is then followed on its own:
its steps and those of the others meet what its rules allow because every step of the run does.
-/

namespace Conc

namespace Machine

variable {ε σ : Type} {M : Machine ε σ}

inductive ReachBy (M : Machine ε σ) (ok : Config M → Label M → Config M → Prop) (c₀ : Config M) :
    Config M → Prop where
  | refl : ReachBy M ok c₀ c₀
  | step {a b : Config M} {l : Label M} (hr : ReachBy M ok c₀ a) (hs : M.Step a l b)
      (hok : ok a l b) : ReachBy M ok c₀ b

variable {ok : Config M → Label M → Config M → Prop} {ρ : M.Call → Tid → Rules ε σ}
  {Q : M.Call → Tid → M.Reply → Prop}

theorem ReachBy.of_reach {ok' : Label M → σ → σ → Prop} {c₀ c : Config M}
    (hok : ∀ a l b, ok' l a.store b.store → ok a l b) (h : M.Reach ok' c₀ c) :
    M.ReachBy ok c₀ c := by
  induction h with
  | refl => exact .refl
  | step hr hs h ih => exact .step ih hs (hok _ _ _ h)

theorem ReachBy.up_or_none {c₀ c : Config M} (hnone : c₀.threads = []) (h : M.ReachBy ok c₀ c) :
    c.mode = .up ∨ c.threads = [] := by
  induction h with
  | refl => exact .inr hnone
  | step hr hs hok ih =>
    cases hs with
    | start c hc => exact .inl rfl
    | act t e ht hp => exact .inl rfl
    | boot e hp => exact .inr (ih.resolve_left nofun)
    | ready v => exact .inr (ih.resolve_left nofun)
    | crash hc => exact .inr rfl

/-- Every thread meets the assertion of its call, if all actions of the run are ones that the rules
of the call allow. -/
theorem ReachBy.followed (hinv : ∀ c t s, (ρ c t).inv s)
    (hbody : ∀ c t s, wp (ρ c t) (M.body t c) (fun r _ => Q c t r) s)
    (hown : ∀ a b t e c p, M.Step a (.act t e) b → ok a (.act t e) b →
      a.threads[t]? = some ⟨c, p⟩ → p.isDone = false → (ρ c t).may e a.store b.store)
    (hother : ∀ a b u e t c p, M.Step a (.act u e) b → ok a (.act u e) b →
      a.threads[t]? = some ⟨c, p⟩ → p.isDone = false → (ρ c t).rely a.store b.store)
    {c₀ c : Config M} (hnone : c₀.threads = []) (h : M.ReachBy ok c₀ c) :
    ∀ t d p, c.threads[t]? = some ⟨d, p⟩ → wp (ρ d t) p (fun r _ => Q d t r) c.store := by
  induction h with
  | refl => simp [hnone]
  | @step a b l hr hs hok ih =>
    intro t d p ht
    have hmode := hr.up_or_none hnone
    have hs' := hs
    cases hs with
    | @start s ts c hc =>
      rcases getElem?_concat_eq_some ht with hold | ⟨rfl, hnew⟩
      · exact ih t d p hold
      · cases hnew
        exact hbody _ _ _
    | @act s s' ts c q q' u e hu hq =>
      rcases getElem?_set_eq_some hu ht with ⟨rfl, hnew⟩ | ht
      · cases hnew
        have hrun : q.isDone = false := by
          cases q with
          | ret r => simp [Prog.step] at hq
          | act f k => rfl
        exact (wp_step (ih t d q hu) (hinv _ _ _) hq (hown _ _ t e d q hs' hok hu hrun)).2.2
      · cases p with
        | ret r => exact ih t d _ ht
        | act f k => exact wp_rely rfl (hother _ _ u e t d _ hs' hok ht rfl) (ih t d _ ht)
    | @boot s s' ts q q' e hp =>
      have hts : ts = [] := hmode.resolve_left fun hup => by cases hup
      simp [hts] at ht
    | @ready s ts v =>
      have hts : ts = [] := hmode.resolve_left fun hup => by cases hup
      simp [hts] at ht
    | crash hc => simp at ht

theorem ReachBy.threads {I : M.Call → Tid → Prog ε σ M.Reply → Prop}
    (hbody : ∀ c t, I c t (M.body t c))
    (hstep : ∀ c t p e s p' s', I c t p → p.step e s = some (p', s') → I c t p')
    {c₀ c : Config M} (hnone : c₀.threads = []) (h : M.ReachBy ok c₀ c) :
    ∀ t d p, c.threads[t]? = some ⟨d, p⟩ → I d t p := by
  induction h with
  | refl => simp [hnone]
  | @step a b l hr hs hok ih =>
    intro t d p ht
    cases hs with
    | @start s ts c hc =>
      rcases getElem?_concat_eq_some ht with hold | ⟨rfl, hnew⟩
      · exact ih t d p hold
      · cases hnew
        exact hbody _ _
    | @act s s' ts c q q' u e hu hq =>
      rcases getElem?_set_eq_some hu ht with ⟨rfl, hnew⟩ | ht
      · cases hnew
        exact hstep d t q e s p s' (ih t d q hu) hq
      · exact ih t d p ht
    | boot e hp => exact ih t d p ht
    | ready v => exact ih t d p ht
    | crash hc => simp at ht

end Machine

end Conc

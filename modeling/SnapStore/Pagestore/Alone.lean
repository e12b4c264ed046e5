import SnapStore.Conc.Sequential
import SnapStore.Pagestore.Contents
import SnapStore.Pagestore.Open

/-!
# Rules for calls that run alone

What one action of the store does if no other thread runs, and the calls that may fail are those the
oracles allow.
-/

namespace SnapStore

open Disk Conc

variable {E E' α : Type} {may : Oracle → Prop} {bad : E → World → Prop} {s : World}

theorem twpE_action {f : Oracle → World → Except E α × World} {Q : α → World → Prop}
    (h : ∀ o, may o → ∃ a u, f o s = (.ok a, u) ∧ Q a u) : twpE may bad (action f) Q s := by
  refine twp_atomic fun o ho => ?_
  obtain ⟨a, u, hf, hQ⟩ := h o ho
  rw [hf]
  exact hQ

theorem twpE_observe {f : Oracle → World → Except E α} {Q : α → World → Prop}
    (h : ∀ o, may o → ∃ a, f o s = .ok a ∧ Q a s) : twpE may bad (observe f) Q s := by
  refine twpE_action fun o ho => ?_
  obtain ⟨a, hf, hQ⟩ := h o ho
  exact ⟨a, s, by rw [hf], hQ⟩

theorem twpE_attempt {f : Oracle → World → Except E (α × World)} {Q : α → World → Prop}
    (h : ∀ o, may o → ∃ a u, f o s = .ok (a, u) ∧ Q a u) : twpE may bad (attempt f) Q s := by
  refine twpE_action fun o ho => ?_
  obtain ⟨a, u, hf, hQ⟩ := h o ho
  exact ⟨a, u, by rw [hf], hQ⟩

theorem twpE_attempt_fault (a : Area) (op : IoOp) {f : Oracle → World → Except E (α × World)}
    {Q : α → World → Prop}
    (hfault : ∀ o n, may o → o.fault a op = some n → ∃ e, f o s = .error e ∧ bad e s)
    (h : ∀ o, may o → o.fault a op = none → ∃ a u, f o s = .ok (a, u) ∧ Q a u) :
    twpE may bad (attempt f) Q s := by
  refine twp_atomic fun o ho => ?_
  cases hf : o.fault a op with
  | some n =>
    obtain ⟨e, hres, hbad⟩ := hfault o n ho hf
    rw [hres]
    exact hbad
  | none =>
    obtain ⟨a, u, hres, hQ⟩ := h o ho hf
    rw [hres]
    exact hQ

theorem twpE_look {f : World → α} {Q : α → World → Prop} (h : Q (f s) s) :
    twpE may bad (look f) Q s := twp_atomic fun _ _ => h

theorem twpE_change {f : World → World} {Q : Unit → World → Prop} (h : Q () (f s)) :
    twpE may bad (change f) Q s := twp_atomic fun _ _ => h

theorem twpE_withError {f : E' → E} {x : ExceptT E' P α} {Q : α → World → Prop}
    (h : twpE may (fun e t => bad (f e) t) x Q s) : twpE may bad (withError f x) Q s := by
  refine twp_bind (twp_mono (fun r t hr => ?_) h)
  cases r with
  | ok a => exact hr
  | error e => exact hr

theorem twpE_ofExcept {f : E' → E} {a : α} {Q : α → World → Prop} (h : Q a s) :
    twpE may bad (ofExcept f (.ok a)) Q s := h

theorem twpE_withActive {t : Tid} {body : ExceptT E P α} {Q : α → World → Prop}
    (hfree : s.activeLock = none)
    (hbad : ∀ e u, bad e u → bad e { u with activeLock := none })
    (h : twpE may bad body (fun a u => Q a { u with activeLock := none })
      { s with activeLock := some t }) : twpE may bad (withActive t body) Q s := by
  refine twp_bind (twp_await fun o _ => ⟨(), _, by rw [hfree], ?_⟩)
  refine twp_bind (twp_mono (fun r u hr => ?_) h)
  refine twp_bind (twp_atomic fun _ _ => ?_)
  cases r with
  | ok a => exact hr
  | error e => exact hbad e u hr

theorem twpE_onWriter {bad : PageStoreError → World → Prop}
    {f : Oracle → PackWriter → PagesFs → Except PackError α × PackWriter × PagesFs}
    {Q : α → World → Prop}
    (h : ∀ o, may o → ∃ a w fs, f o s.active.writer s.pages = (.ok a, w, fs) ∧
      Q a { s with pages := fs, active := { s.active with writer := w } }) :
    twpE may bad (PageStore.onWriter f) Q s := by
  refine twpE_action fun o ho => ?_
  obtain ⟨a, w, fs, hf, hQ⟩ := h o ho
  exact ⟨a, _, by rw [hf]; rfl, hQ⟩

end SnapStore

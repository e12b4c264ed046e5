import Mathlib.Logic.Basic
import Mathlib.Data.List.Basic

/-!
# Programs over a shared state

A program is a sequence of atomic actions on a shared state.  Each action reads what the
environment supplies for it (a fault, a clock value, an iteration order) and may be blocked, as
the acquisition of a lock is.  Control flow between two actions is local to the program.
-/

namespace Conc

/-- Programs with atomic actions on `σ`; `ε` is what the environment supplies to one action.
An action that returns `none` is blocked. -/
inductive Prog (ε σ α : Type) : Type 1 where
  | ret (a : α)
  | act {β : Type} (f : ε → σ → Option (β × σ)) (k : β → Prog ε σ α)

namespace Prog

variable {ε σ α β γ : Type}

def bind : Prog ε σ α → (α → Prog ε σ β) → Prog ε σ β
  | ret a, k => k a
  | act f g, k => act f fun b => (g b).bind k

instance : Monad (Prog ε σ) where
  pure := ret
  bind := bind

def await (f : ε → σ → Option (α × σ)) : Prog ε σ α := act f ret

def atomic (f : ε → σ → α × σ) : Prog ε σ α := await fun e s => some (f e s)

def read (f : σ → α) : Prog ε σ α := atomic fun _ s => (f s, s)

def update (f : σ → σ) : Prog ε σ Unit := atomic fun _ s => ((), f s)

/-- A program that never takes another step. -/
def stuck : Prog ε σ α := await fun _ _ => none

def isDone : Prog ε σ α → Bool
  | ret _ => true
  | act _ _ => false

def step (e : ε) (s : σ) : Prog ε σ α → Option (Prog ε σ α × σ)
  | ret _ => none
  | act f k => (f e s).map fun r => (k r.1, r.2)

theorem bind_eq (p : Prog ε σ α) (k : α → Prog ε σ β) : p >>= k = p.bind k := rfl

@[simp] theorem ret_bind (a : α) (k : α → Prog ε σ β) : (ret a).bind k = k a := rfl

@[simp] theorem act_bind (f : ε → σ → Option (γ × σ)) (g : γ → Prog ε σ α)
    (k : α → Prog ε σ β) : (act f g).bind k = act f fun b => (g b).bind k := rfl

/-- The run of a program alone, with one supply of the environment for every action and at most
`n` actions. -/
def run (e : ε) : Nat → Prog ε σ α → σ → Option (α × σ)
  | _, ret a, s => some (a, s)
  | 0, act _ _, _ => none
  | n + 1, act f k, s =>
    match f e s with
    | none => none
    | some (b, s') => run e n (k b) s'

end Prog

end Conc

import SnapStore.Store.SnapshotStore

/-!
# The group-commit barrier

`GroupCommit::barrier` as a protocol: any number of calls, each critical section one step, a
condition variable whose waiters may wake at any time, and flushes that may fail.  The log of a
run records the generations, the executions of `sync_fn` and the returns.
-/

namespace SnapStore

namespace GroupCommit

/-! ## The critical sections -/

def stamp (g : GroupCommit) : GroupCommit := { g with pendingGen := g.pendingGen + 1 }

inductive Verdict where
  /-- A flush that covered the generation has finished. -/
  | covered
  | wait
  /-- This thread flushes up to the generation. -/
  | flush (upTo : Nat)

def pass (g : GroupCommit) (myGen : Nat) : Verdict × GroupCommit :=
  if myGen ≤ g.completedGen then (.covered, g)
  else if g.flushing then (.wait, g)
  else (.flush g.pendingGen, { g with flushing := true })

def settle (g : GroupCommit) (upTo : Nat) (ok : Bool) : GroupCommit :=
  { g with
    completedGen := if ok ∧ g.completedGen < upTo then upTo else g.completedGen
    flushing := false }

/-! ## Runs -/

inductive Phase where
  | entering
  /-- About to take the lock for a pass of the loop. -/
  | looping (myGen : Nat)
  | waiting (myGen : Nat)
  /-- The flag is set; `sync_fn` has not been called yet. -/
  | flushing (upTo : Nat)
  /-- The execution of `sync_fn` with this number is going on. -/
  | syncing (upTo exec : Nat)
  | synced (upTo exec : Nat) (ok : Bool)
  | returned (ok : Bool)

inductive Event where
  | stamped (call : Nat)
  | syncStarted (exec : Nat)
  | syncEnded (exec : Nat) (ok : Bool)
  | returned (call : Nat) (ok : Bool)

def Phase.notified : Phase → Phase
  | .waiting myGen => .looping myGen
  | p => p

structure Run where
  commit : GroupCommit
  calls : List Phase
  log : List Event
  /-- The executions of a `sync_fn` begun so far. -/
  execs : Nat

namespace Run

def initial : Run := ⟨⟨0, 0, false⟩, [], [], 0⟩

inductive Step (r : Run) : Run → Prop where
  | call : Step r { r with calls := r.calls ++ [.entering] }
  | stamp (c : Nat) (h : r.calls[c]? = some .entering) :
      Step r { r with
        commit := r.commit.stamp
        calls := r.calls.set c (.looping r.commit.stamp.pendingGen)
        log := r.log ++ [.stamped c] }
  | covered (c myGen : Nat) (h : r.calls[c]? = some (.looping myGen))
      (hp : (r.commit.pass myGen).1 = .covered) :
      Step r { r with
        commit := (r.commit.pass myGen).2
        calls := r.calls.set c (.returned true)
        log := r.log ++ [.returned c true] }
  | wait (c myGen : Nat) (h : r.calls[c]? = some (.looping myGen))
      (hp : (r.commit.pass myGen).1 = .wait) :
      Step r { r with
        commit := (r.commit.pass myGen).2
        calls := r.calls.set c (.waiting myGen) }
  | flush (c myGen upTo : Nat) (h : r.calls[c]? = some (.looping myGen))
      (hp : (r.commit.pass myGen).1 = .flush upTo) :
      Step r { r with
        commit := (r.commit.pass myGen).2
        calls := r.calls.set c (.flushing upTo) }
  /-- A wakeup that nobody caused. -/
  | wake (c myGen : Nat) (h : r.calls[c]? = some (.waiting myGen)) :
      Step r { r with calls := r.calls.set c (.looping myGen) }
  | syncStart (c upTo : Nat) (h : r.calls[c]? = some (.flushing upTo)) :
      Step r { r with
        calls := r.calls.set c (.syncing upTo r.execs)
        log := r.log ++ [.syncStarted r.execs]
        execs := r.execs + 1 }
  | syncEnd (c upTo exec : Nat) (ok : Bool) (h : r.calls[c]? = some (.syncing upTo exec)) :
      Step r { r with
        calls := r.calls.set c (.synced upTo exec ok)
        log := r.log ++ [.syncEnded exec ok] }
  | settle (c upTo exec : Nat) (ok : Bool) (h : r.calls[c]? = some (.synced upTo exec ok)) :
      Step r { r with
        commit := r.commit.settle upTo ok
        calls := (r.calls.set c (.returned ok)).map Phase.notified
        log := r.log ++ [.returned c ok] }

inductive Reach : Run → Prop where
  | initial : Reach initial
  | step {r r' : Run} (hr : Reach r) (hs : Step r r') : Reach r'

end Run

theorem pass_cases (g : GroupCommit) (myGen : Nat) :
    (g.pass myGen = (.covered, g) ∧ myGen ≤ g.completedGen) ∨ g.pass myGen = (.wait, g) ∨
      (g.pass myGen = (.flush g.pendingGen, { g with flushing := true }) ∧ g.flushing = false) := by
  unfold pass
  by_cases hc : myGen ≤ g.completedGen
  · exact .inl ⟨if_pos hc, hc⟩
  · rw [if_neg hc]
    cases hf : g.flushing with
    | true => exact .inr (.inl (if_pos rfl))
    | false => exact .inr (.inr ⟨if_neg (by simp), rfl⟩)

/-! ## What the log says -/

def Event.isStamp : Event → Bool
  | .stamped _ => true
  | _ => false

def stamps (log : List Event) : Nat := log.countP Event.isStamp

theorem stamps_take_mono {log : List Event} {i j : Nat} (h : i ≤ j) :
    stamps (log.take i) ≤ stamps (log.take j) := by
  unfold stamps
  exact (List.take_sublist_take_left h).countP_le

theorem stamps_append (log log' : List Event) :
    stamps (log ++ log') = stamps log + stamps log' := List.countP_append

theorem stamps_take_succ {log : List Event} {c p : Nat} (hp : log[p]? = some (.stamped c)) :
    stamps (log.take (p + 1)) = stamps (log.take p) + 1 := by
  rw [List.take_add_one, hp, stamps_append]
  rfl

theorem lt_of_stamps_le {log : List Event} {c p j : Nat} (hp : log[p]? = some (.stamped c))
    (h : stamps (log.take (p + 1)) ≤ stamps (log.take j)) : p < j := by
  by_contra hle
  have hstep := stamps_take_succ hp
  have hmono : stamps (log.take j) ≤ stamps (log.take p) := stamps_take_mono (by omega)
  omega

def Took (log : List Event) (c gen : Nat) : Prop :=
  ∃ p, log[p]? = some (.stamped c) ∧ stamps (log.take (p + 1)) = gen

def BeganAt (log : List Event) (exec upTo j : Nat) : Prop :=
  log[j]? = some (.syncStarted exec) ∧ upTo ≤ stamps (log.take j)

def Flushed (log : List Event) (gen : Nat) : Prop :=
  ∃ exec j k, j < k ∧ BeganAt log exec gen j ∧ log[k]? = some (.syncEnded exec true)

/-- Before position `i`, and after call `c` took its generation, a `sync_fn` began and succeeded. -/
def Served (log : List Event) (c i : Nat) : Prop :=
  ∃ exec p j k, p < j ∧ j < k ∧ k < i ∧ log[p]? = some (.stamped c) ∧
    log[j]? = some (.syncStarted exec) ∧ log[k]? = some (.syncEnded exec true)

section Extend

variable {log : List Event} (es : List Event) {c gen exec upTo i j p : Nat}

theorem getElem?_extend {e : Event} (h : log[i]? = some e) : (log ++ es)[i]? = some e := by
  rw [List.getElem?_append_left (List.getElem?_eq_some_iff.mp h).1, h]

theorem Took.extend (h : Took log c gen) : Took (log ++ es) c gen := by
  obtain ⟨p, hp, hs⟩ := h
  have hlt := (List.getElem?_eq_some_iff.mp hp).1
  exact ⟨p, getElem?_extend es hp, by rw [List.take_append_of_le_length hlt, hs]⟩

theorem BeganAt.extend (h : BeganAt log exec upTo j) : BeganAt (log ++ es) exec upTo j := by
  have hlt := (List.getElem?_eq_some_iff.mp h.1).1
  exact ⟨getElem?_extend es h.1, by rw [List.take_append_of_le_length hlt.le]; exact h.2⟩

theorem Flushed.extend (h : Flushed log gen) : Flushed (log ++ es) gen := by
  obtain ⟨exec, j, k, hjk, hj, hk⟩ := h
  exact ⟨exec, j, k, hjk, hj.extend es, getElem?_extend es hk⟩

theorem Served.extend {i' : Nat} (h : Served log c i) (hi : i ≤ i') : Served (log ++ es) c i' := by
  obtain ⟨exec, p, j, k, hpj, hjk, hki, hp, hj, hk⟩ := h
  exact ⟨exec, p, j, k, hpj, hjk, by omega, getElem?_extend es hp, getElem?_extend es hj,
    getElem?_extend es hk⟩

end Extend

theorem Took.pos {log : List Event} {c gen : Nat} (h : Took log c gen) : 0 < gen := by
  obtain ⟨p, hp, hs⟩ := h
  have hstep := stamps_take_succ hp
  omega

theorem Took.served {log : List Event} {c gen upTo : Nat} (h : Took log c gen)
    (hf : Flushed log upTo) (hle : gen ≤ upTo) : Served log c log.length := by
  obtain ⟨p, hp, hs⟩ := h
  obtain ⟨exec, j, k, hjk, ⟨hj, hupTo⟩, hk⟩ := hf
  have hpj : p < j := lt_of_stamps_le hp (by omega)
  exact ⟨exec, p, j, k, hpj, hjk, (List.getElem?_eq_some_iff.mp hk).1, hp, hj, hk⟩

/-! ## The invariant -/

def PhaseOk (log : List Event) (c : Nat) : Phase → Prop
  | .entering => True
  | .looping gen => Took log c gen
  | .waiting gen => Took log c gen
  | .flushing upTo => upTo ≤ stamps log ∧ ∃ p : Nat, log[p]? = some (.stamped c)
  | .syncing upTo exec => ∃ p j : Nat, p < j ∧ log[p]? = some (.stamped c) ∧ BeganAt log exec upTo j
  | .synced upTo exec ok => ∃ p j k : Nat, p < j ∧ j < k ∧ log[p]? = some (.stamped c) ∧
      BeganAt log exec upTo j ∧ log[k]? = some (.syncEnded exec ok)
  | .returned _ => True

def Phase.busy : Phase → Bool
  | .flushing _ => true
  | .syncing _ _ => true
  | .synced _ _ _ => true
  | _ => false

theorem PhaseOk.extend {log : List Event} {c : Nat} {ph : Phase} (es : List Event)
    (h : PhaseOk log c ph) : PhaseOk (log ++ es) c ph := by
  cases ph with
  | entering => trivial
  | looping gen => exact Took.extend es h
  | waiting gen => exact Took.extend es h
  | flushing upTo =>
    obtain ⟨hle, p, hp⟩ := h
    exact ⟨by rw [stamps_append]; omega, p, getElem?_extend es hp⟩
  | syncing upTo exec =>
    obtain ⟨p, j, hpj, hp, hj⟩ := h
    exact ⟨p, j, hpj, getElem?_extend es hp, hj.extend es⟩
  | synced upTo exec ok =>
    obtain ⟨p, j, k, hpj, hjk, hp, hj, hk⟩ := h
    exact ⟨p, j, k, hpj, hjk, getElem?_extend es hp, hj.extend es, getElem?_extend es hk⟩
  | returned ok => trivial

structure Sound (r : Run) : Prop where
  pending : r.commit.pendingGen = stamps r.log
  phases : ∀ (c : Nat) (ph : Phase), r.calls[c]? = some ph → PhaseOk r.log c ph
  completed : r.commit.completedGen = 0 ∨ Flushed r.log r.commit.completedGen
  flag : ∀ (c : Nat) (ph : Phase), r.calls[c]? = some ph → ph.busy = true →
    r.commit.flushing = true
  one : ∀ (c d : Nat) (ph ph' : Phase), r.calls[c]? = some ph → r.calls[d]? = some ph' →
    ph.busy = true → ph'.busy = true → c = d
  returns : ∀ (i c : Nat), r.log[i]? = some (.returned c true) → Served r.log c i

theorem Sound.move {r : Run} (h : Sound r) {c : Nat} {ph ph' : Phase} {g : GroupCommit}
    {es : List Event} {execs : Nat} (hc : r.calls[c]? = some ph)
    (hpending : g.pendingGen = stamps (r.log ++ es))
    (hcompleted : g.completedGen = 0 ∨ Flushed (r.log ++ es) g.completedGen)
    (hphase : PhaseOk (r.log ++ es) c ph')
    (hflag : ph'.busy = ph.busy ∧ g.flushing = r.commit.flushing ∨
      r.commit.flushing = false ∧ g.flushing = true ∨ ph.busy = true ∧ ph'.busy = false)
    (hreturns : ∀ d, Event.returned d true ∈ es → Served r.log d r.log.length) :
    Sound ⟨g, r.calls.set c ph', r.log ++ es, execs⟩ := by
  have hget : ∀ (d : Nat) (phd : Phase), (r.calls.set c ph')[d]? = some phd →
      (d = c ∧ phd = ph') ∨ (d ≠ c ∧ r.calls[d]? = some phd) := by
    intro d phd hd
    by_cases hdc : d = c
    · subst hdc
      rw [List.getElem?_set_self (List.getElem?_eq_some_iff.mp hc).1] at hd
      exact .inl ⟨rfl, (Option.some.inj hd).symm⟩
    · rw [List.getElem?_set_ne (Ne.symm hdc)] at hd
      exact .inr ⟨hdc, hd⟩
  -- whoever else is busy has been so before, and then this call is not
  have hother : ∀ (d : Nat) (phd : Phase), d ≠ c → r.calls[d]? = some phd → phd.busy = true →
      g.flushing = true ∧ ph'.busy = false := by
    intro d phd hdc hd hb
    have hset := h.flag d phd hd hb
    have hidle : ph.busy = false := by
      by_contra hbusy
      exact hdc (h.one d c phd ph hd hc hb (by simpa using hbusy))
    rcases hflag with ⟨hbusy, hf⟩ | ⟨hf, -⟩ | ⟨hbusy, -⟩
    · exact ⟨hf.trans hset, hbusy.trans hidle⟩
    · rw [hset] at hf
      cases hf
    · rw [hidle] at hbusy
      cases hbusy
  refine ⟨hpending, ?_, hcompleted, ?_, ?_, ?_⟩
  · intro d phd hd
    rcases hget d phd hd with ⟨rfl, rfl⟩ | ⟨-, hd⟩
    · exact hphase
    · exact (h.phases d phd hd).extend es
  · intro d phd hd hb
    rcases hget d phd hd with ⟨rfl, rfl⟩ | ⟨hdc, hd⟩
    · rcases hflag with ⟨hbusy, hf⟩ | ⟨-, hf⟩ | ⟨-, hbusy⟩
      · exact hf.trans (h.flag d ph hc (hbusy ▸ hb))
      · exact hf
      · rw [hbusy] at hb
        cases hb
    · exact (hother d phd hdc hd hb).1
  · intro d e phd phe hd he hbd hbe
    rcases hget d phd hd with ⟨hdc, hph⟩ | ⟨hdc, hd'⟩
    · rcases hget e phe he with ⟨hec, -⟩ | ⟨hec, he'⟩
      · rw [hdc, hec]
      · rw [hph, (hother e phe hec he' hbe).2] at hbd
        cases hbd
    · rcases hget e phe he with ⟨-, hph⟩ | ⟨-, he'⟩
      · rw [hph, (hother d phd hdc hd' hbd).2] at hbe
        cases hbe
      · exact h.one d e phd phe hd' he' hbd hbe
  · intro i d hi
    by_cases hlt : i < r.log.length
    · rw [List.getElem?_append_left hlt] at hi
      exact (h.returns i d hi).extend es (Nat.le_refl i)
    · rw [List.getElem?_append_right (by omega)] at hi
      exact (hreturns d (List.mem_of_getElem? hi)).extend es (by omega)

theorem Sound.notify {r : Run} (h : Sound r) :
    Sound { r with calls := r.calls.map Phase.notified } := by
  have hget : ∀ (c : Nat) (ph : Phase), (r.calls.map Phase.notified)[c]? = some ph →
      ∃ ph₀, r.calls[c]? = some ph₀ ∧ ph₀.busy = ph.busy ∧
        (PhaseOk r.log c ph₀ → PhaseOk r.log c ph) := by
    intro c ph hc
    rw [List.getElem?_map, Option.map_eq_some_iff] at hc
    obtain ⟨ph₀, hc, rfl⟩ := hc
    exact ⟨ph₀, hc, by cases ph₀ <;> rfl, by cases ph₀ <;> exact id⟩
  refine ⟨h.pending, ?_, h.completed, ?_, ?_, h.returns⟩
  · intro c ph hc
    obtain ⟨ph₀, hc₀, -, hok⟩ := hget c ph hc
    exact hok (h.phases c ph₀ hc₀)
  · intro c ph hc hb
    obtain ⟨ph₀, hc₀, hbusy, -⟩ := hget c ph hc
    exact h.flag c ph₀ hc₀ (hbusy.trans hb)
  · intro c d ph ph' hc hd hb hb'
    obtain ⟨ph₀, hc₀, hbusy, -⟩ := hget c ph hc
    obtain ⟨ph₁, hd₀, hbusy', -⟩ := hget d ph' hd
    exact h.one c d ph₀ ph₁ hc₀ hd₀ (hbusy.trans hb) (hbusy'.trans hb')

theorem sound_initial : Sound Run.initial := by
  refine ⟨rfl, ?_, .inl rfl, ?_, ?_, ?_⟩ <;> simp [Run.initial]

theorem Sound.call {r : Run} (h : Sound r) :
    Sound { r with calls := r.calls ++ [.entering] } := by
  have hget : ∀ (c : Nat) (ph : Phase), (r.calls ++ [Phase.entering])[c]? = some ph →
      r.calls[c]? = some ph ∨ ph = .entering := by
    intro c ph hc
    by_cases hlt : c < r.calls.length
    · exact .inl (by rwa [List.getElem?_append_left hlt] at hc)
    · rw [List.getElem?_append_right (by omega)] at hc
      exact .inr (List.mem_singleton.mp (List.mem_of_getElem? hc))
  refine ⟨h.pending, ?_, h.completed, ?_, ?_, h.returns⟩
  · intro c ph hc
    rcases hget c ph hc with hc | rfl
    · exact h.phases c ph hc
    · trivial
  · intro c ph hc hb
    rcases hget c ph hc with hc | rfl
    · exact h.flag c ph hc hb
    · cases hb
  · intro c d ph ph' hc hd hb hb'
    rcases hget c ph hc with hc | rfl
    · rcases hget d ph' hd with hd | rfl
      · exact h.one c d ph ph' hc hd hb hb'
      · cases hb'
    · cases hb

theorem Sound.flush {r : Run} (h : Sound r) {c myGen : Nat}
    (hc : r.calls[c]? = some (.looping myGen)) (hfree : r.commit.flushing = false) :
    Sound { r with
      commit := { r.commit with flushing := true }
      calls := r.calls.set c (.flushing r.commit.pendingGen) } := by
  obtain ⟨p, hp, -⟩ : Took r.log c myGen := h.phases c _ hc
  have hmove : Sound ⟨{ r.commit with flushing := true },
      r.calls.set c (.flushing r.commit.pendingGen), r.log ++ [], r.execs⟩ :=
    h.move hc (by simpa using h.pending) (by simpa using h.completed)
      ⟨by simp [h.pending], p, by simpa using hp⟩ (.inr (.inl ⟨hfree, rfl⟩)) (by simp)
  simpa using hmove

theorem Sound.covered {r : Run} (h : Sound r) {c myGen : Nat}
    (hc : r.calls[c]? = some (.looping myGen)) (hle : myGen ≤ r.commit.completedGen) :
    Sound { r with
      calls := r.calls.set c (.returned true)
      log := r.log ++ [.returned c true] } := by
  have htook : Took r.log c myGen := h.phases c _ hc
  have hserved : Served r.log c r.log.length := by
    rcases h.completed with hzero | hflushed
    · have hpos := htook.pos
      omega
    · exact htook.served hflushed hle
  refine h.move hc ?_ (h.completed.imp id (Flushed.extend _)) trivial (.inl ⟨rfl, rfl⟩) ?_
  · rw [stamps_append, h.pending]
    rfl
  · intro d hd
    obtain ⟨rfl, -⟩ := Event.returned.inj (List.mem_singleton.mp hd)
    exact hserved

theorem Sound.loop {r : Run} (h : Sound r) {c : Nat} {ph ph' : Phase} (hc : r.calls[c]? = some ph)
    (hph : PhaseOk r.log c ph → PhaseOk r.log c ph') (hbusy : ph'.busy = ph.busy) :
    Sound { r with calls := r.calls.set c ph' } := by
  have hmove : Sound ⟨r.commit, r.calls.set c ph', r.log ++ [], r.execs⟩ :=
    h.move hc (by simpa using h.pending) (by simpa using h.completed)
      (by simpa using hph (h.phases c ph hc)) (.inl ⟨hbusy, rfl⟩) (by simp)
  simpa using hmove

theorem Sound.settle {r : Run} (h : Sound r) {c upTo exec : Nat} {ok : Bool}
    (hc : r.calls[c]? = some (.synced upTo exec ok)) :
    Sound { r with
      commit := r.commit.settle upTo ok
      calls := r.calls.set c (.returned ok)
      log := r.log ++ [.returned c ok] } := by
  obtain ⟨p, j, k, hpj, hjk, hp, hj, hk⟩ := h.phases c _ hc
  refine h.move hc ?_ ?_ trivial (.inr (.inr ⟨rfl, rfl⟩)) ?_
  · rw [stamps_append, GroupCommit.settle, h.pending]
    rfl
  · -- a success moves `completed_gen` to what this execution has covered
    show (if ok = true ∧ r.commit.completedGen < upTo then upTo else r.commit.completedGen) = 0 ∨ _
    by_cases hnew : ok = true ∧ r.commit.completedGen < upTo
    · refine .inr (Flushed.extend _ ⟨exec, j, k, hjk, ?_, by rw [hk, hnew.1]⟩)
      rw [GroupCommit.settle, if_pos hnew]
      exact hj
    · rw [GroupCommit.settle, if_neg hnew]
      exact h.completed.imp id (Flushed.extend _)
  · intro d hd
    obtain ⟨rfl, rfl⟩ := Event.returned.inj (List.mem_singleton.mp hd)
    exact ⟨exec, p, j, k, hpj, hjk, (List.getElem?_eq_some_iff.mp hk).1, hp, hj.1, hk⟩

theorem Sound.step {r r' : Run} (h : Sound r) (hs : r.Step r') : Sound r' := by
  cases hs with
  | call => exact h.call
  | stamp c hc =>
    have hstamps : stamps (r.log ++ [.stamped c]) = stamps r.log + 1 := by
      rw [stamps_append]
      rfl
    have htook : Took (r.log ++ [.stamped c]) c (r.commit.pendingGen + 1) := by
      refine ⟨r.log.length, by simp, ?_⟩
      rw [List.take_of_length_le (by simp), hstamps, h.pending]
    refine h.move hc ?_ (h.completed.imp id (Flushed.extend _)) htook (.inl ⟨rfl, rfl⟩) (by simp)
    rw [hstamps, ← h.pending]
    rfl
  | covered c myGen hc hp =>
    rcases pass_cases r.commit myGen with ⟨hpass, hle⟩ | hpass | ⟨hpass, -⟩ <;> rw [hpass] at hp ⊢
    · exact h.covered hc hle
    · cases hp
    · cases hp
  | wait c myGen hc hp =>
    rcases pass_cases r.commit myGen with ⟨hpass, -⟩ | hpass | ⟨hpass, -⟩ <;> rw [hpass] at hp ⊢
    · cases hp
    · exact h.loop hc id rfl
    · cases hp
  | flush c myGen upTo hc hp =>
    rcases pass_cases r.commit myGen with ⟨hpass, -⟩ | hpass | ⟨hpass, hfree⟩ <;>
      rw [hpass] at hp ⊢
    · cases hp
    · cases hp
    · cases hp
      exact h.flush hc hfree
  | wake c myGen hc => exact h.loop hc id rfl
  | syncStart c upTo hc =>
    obtain ⟨hle, p, hp⟩ := h.phases c _ hc
    refine h.move hc ?_ (h.completed.imp id (Flushed.extend _)) ?_ (.inl ⟨rfl, rfl⟩) (by simp)
    · rw [stamps_append, h.pending]
      rfl
    · refine ⟨p, r.log.length, (List.getElem?_eq_some_iff.mp hp).1, getElem?_extend _ hp,
        by simp, ?_⟩
      rwa [List.take_left]
  | syncEnd c upTo exec ok hc =>
    obtain ⟨p, j, hpj, hp, hj⟩ := h.phases c _ hc
    refine h.move hc ?_ (h.completed.imp id (Flushed.extend _)) ?_ (.inl ⟨rfl, rfl⟩) (by simp)
    · rw [stamps_append, h.pending]
      rfl
    · exact ⟨p, j, r.log.length, hpj, (List.getElem?_eq_some_iff.mp hj.1).1,
        getElem?_extend _ hp, hj.extend _, by simp⟩
  | settle c upTo exec ok hc => exact (h.settle hc).notify

theorem sound_of_reach {r : Run} (h : r.Reach) : Sound r := by
  induction h with
  | initial => exact sound_initial
  | step _ hs ih => exact ih.step hs

/-- If a call of `barrier` returns Ok, a `sync_fn` began after the call took its generation and
returned Ok before the call did; and at most one `sync_fn` executes at any time. -/
theorem barrier_waits_for_sync {r : Run} (h : r.Reach) :
    (∀ i c : Nat, r.log[i]? = some (.returned c true) → ∃ exec p j k : Nat, p < j ∧ j < k ∧ k < i ∧
      r.log[p]? = some (.stamped c) ∧ r.log[j]? = some (.syncStarted exec) ∧
      r.log[k]? = some (.syncEnded exec true)) ∧
    ∀ (c d upTo upTo' exec exec' : Nat), r.calls[c]? = some (.syncing upTo exec) →
      r.calls[d]? = some (.syncing upTo' exec') → c = d := by
  have hsound := sound_of_reach h
  refine ⟨fun i c hi => hsound.returns i c hi, ?_⟩
  intro c d upTo upTo' exec exec' hc hd
  exact hsound.one c d _ _ hc hd rfl rfl

theorem barrier_waits_for_sync_shared : ∃ r : Run, r.Reach ∧
    r.log[5]? = some (.returned 1 true) ∧ ∃ exec p j k : Nat, p < j ∧ j < k ∧ k < 5 ∧
      r.log[p]? = some (.stamped 1) ∧ r.log[j]? = some (.syncStarted exec) ∧
      r.log[k]? = some (.syncEnded exec true) := by
  have h₂ := (Run.Reach.initial.step .call).step .call
  have h₄ := (h₂.step (.stamp 0 rfl)).step (.stamp 1 rfl)
  have h₆ := (h₄.step (.flush 0 1 2 rfl rfl)).step (.wait 1 2 rfl rfl)
  have h₈ := (h₆.step (.syncStart 0 2 rfl)).step (.syncEnd 0 2 0 true rfl)
  have h₁₀ := (h₈.step (.settle 0 2 0 true rfl)).step (.covered 1 2 rfl rfl)
  exact ⟨_, h₁₀, rfl, (barrier_waits_for_sync h₁₀).1 5 1 rfl⟩

end GroupCommit

/-- The barrier of the store takes its steps from these sections; a thread that would wait is
blocked there. -/
theorem SnapshotStore.barrier_eq [Primitives] (t : Conc.Tid) (hashes : List PageHash)
    (sync : PE Unit) :
    barrier t hashes sync = (do
      let myGen ← action fun _ s => (.ok s.commit.stamp.pendingGen, { s with
        commit := s.commit.stamp
        ghost := { s.ghost with
          demand := (t, s.commit.stamp.pendingGen, hashes) :: s.ghost.demand } })
      let upTo ← ExceptT.mk <| Conc.Prog.await fun _ s =>
        match s.commit.pass myGen with
        | (.covered, _) => some (.ok none, s)
        | (.wait, _) => none
        | (.flush upTo, g) => some (.ok (some upTo), { s with
            commit := g
            ghost := { s.ghost with flusher := some t } })
      match upTo with
      | none => return ()
      | some upTo => ExceptT.mk do
        let result ← sync.run
        Conc.Prog.update fun s => { s with
          commit := s.commit.settle upTo result.isOk
          ghost := { s.ghost with flusher := none } }
        return result) := by
  unfold barrier
  refine congrArg (action _ >>= ·) (funext fun myGen => ?_)
  have hsettle : ∀ (upTo : Nat) (g : GroupCommit),
      { g with completedGen := max upTo g.completedGen, flushing := false } =
        g.settle upTo true := by
    intro upTo g
    simp only [GroupCommit.settle, true_and]
    congr 1
    by_cases hlt : g.completedGen < upTo
    · rw [if_pos hlt]
      omega
    · rw [if_neg hlt]
      omega
  congr 1
  · refine congrArg (fun f => ExceptT.mk (Conc.Prog.await f)) (funext fun _ => funext fun s => ?_)
    unfold GroupCommit.pass
    by_cases hle : myGen ≤ s.commit.completedGen
    · rw [if_pos hle, if_pos hle]
    · rw [if_neg hle, if_neg hle]
      split <;> rfl
  · funext upTo
    cases upTo with
    | none => rfl
    | some upTo =>
      refine congrArg ExceptT.mk (congrArg (sync.run >>= ·) (funext fun result => ?_))
      refine congrArg (· >>= fun _ => pure result)
        (congrArg Conc.Prog.update (funext fun s => ?_))
      refine congrArg
        (fun g => { s with commit := g, ghost := { s.ghost with flusher := none } }) ?_
      cases result with
      | ok a => exact hsettle upTo s.commit
      | error e => simp [GroupCommit.settle, Except.isOk, Except.toBool]

end SnapStore

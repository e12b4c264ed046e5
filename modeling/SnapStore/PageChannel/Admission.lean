import Mathlib.Algebra.BigOperators.Fin
import Mathlib.Algebra.Order.BigOperators.Group.Finset
import SnapStore.Conc.Script
import SnapStore.PageChannel.Channel
import SnapStore.System

/-!
# Admission of `PUT_BATCH`

All connections share one counter of the pages in flight.  A handler adds its batch first and then
looks whether the counter has passed the limit; every path on which it leaves takes the batch off
again.
-/

namespace SnapStore.PageChannel

open Disk Conc

abbrev RawFd := Fin (2 ^ 31)

def i64 (x : Int) : Int := x.bmod (2 ^ 64)

structure PutBatch where
  conn : RawFd
  hdr : PcHdr
  body : Bytes
  fd : Option Memfd

inductive PutReply where
  | error (code : ErrorCode) (detail : String)
  | ok (count : UInt32) (body : PutOkBody)

def PutReply.datagram (seq : UInt64) : PutReply → Datagram
  | .error code detail => errorReply seq code detail
  | .ok count body => ⟨encodePutBatchOk seq count body, none⟩

structure Added where
  count : Nat
  prev : Int
  contended : Prop

structure Turn where
  added : List Added
  subtracted : List Nat

structure Exit where
  batch : PutBatch
  turn : Turn
  reply : PutReply

structure Admission where
  inFlight : Int
  turns : RawFd → Option Turn
  exits : List Exit

namespace Admission

def start : Admission := ⟨0, fun _ => none, []⟩

def record (s : Admission) (conn : RawFd) (f : Turn → Turn) : RawFd → Option Turn :=
  Function.update s.turns conn ((s.turns conn).map f)

def add (s : Admission) (conn : RawFd) (count : Nat) : Admission :=
  { s with
    inFlight := i64 (s.inFlight + count)
    turns := s.record conn fun t =>
      { t with added := ⟨count, s.inFlight, ∃ d ≠ conn, s.turns d ≠ none⟩ :: t.added } }

def sub (s : Admission) (conn : RawFd) (count : Nat) : Admission :=
  { s with
    inFlight := i64 (s.inFlight - count)
    turns := s.record conn fun t => { t with subtracted := count :: t.subtracted } }

variable [Primitives]

abbrev P (α : Type) : Type 1 := Prog ServerEnv Admission α

def ask {α : Type} (f : ServerEnv → α) : P α := Prog.atomic fun e s => (f e, s)

def fetchAdd (conn : RawFd) (count : Nat) : P Int :=
  Prog.atomic fun _ s => (s.inFlight, s.add conn count)

def fetchSub (conn : RawFd) (count : Nat) : P Unit := Prog.update (·.sub conn count)

def enter (conn : RawFd) : P Unit := Prog.update fun s =>
  { s with turns := Function.update s.turns conn (some ⟨[], []⟩) }

def leave (b : PutBatch) (r : PutReply) : P Unit := Prog.update fun s =>
  { s with
    turns := Function.update s.turns b.conn none
    exits := (s.turns b.conn).toList.map (⟨b, ·, r⟩) ++ s.exits }

def handlePutBatch (cfg : ServerConfig) (b : PutBatch) : P (PutReply × Bool) := do
  match decodePutBatch b.hdr b.body with
  | .error e => return (.error .invalid e.toString, true)
  | .ok count =>
  match b.fd with
  | none => return (.error .invalid "PUT_BATCH requires a memfd", true)
  | some fd =>
  match ← ask (·.getSeals) with
  | some e => return (.error .invalid s!"F_GET_SEALS: {e}", true)
  | none =>
  if !fd.sealed then
    return (.error .invalid "memfd is not sealed with F_SEAL_WRITE|F_SEAL_SHRINK", false)
  else
  match ← ask (·.fstat) with
  | some e => return (.error .invalid s!"fstat: {e}", true)
  | none =>
  let expectedLen := count.toNat * pageSize
  if fd.content.length ≠ expectedLen then
    return (.error .invalid s!"memfd size {fd.content.length} != count*4096 = {expectedLen}", false)
  else do
  let prev ← fetchAdd b.conn count.toNat
  if i64 (prev + count.toNat) > cfg.ingestQueuePages.toNat then do
    fetchSub b.conn count.toNat
    return (.error .overload s!"ingest queue full ({prev} in-flight)", false)
  else
  match ← ask (·.mmap) with
  | some e => do
    fetchSub b.conn count.toNat
    return (.error .invalid s!"mmap pages: {e}", true)
  | none =>
  match ← ask (·.ingest (asChunks pageSize fd.content)) with
  | .error e => do
    fetchSub b.conn count.toNat
    return (.error .invalid s!"ingest: {e}", true)
  | .ok outcomes => do
    fetchSub b.conn count.toNat
    let pagesNew := outcomes.countP (·.newlyWritten)
    let check := batchCrossCheck (outcomes.map (·.hash))
    return (.ok count ⟨.ofNat pagesNew, .ofNat (outcomes.length - pagesNew),
      if cfg.corruptCrossCheckForTest then corruptDigest check else check⟩, false)

def handler (cfg : ServerConfig) (b : PutBatch) : P (PutReply × Bool) := do
  enter b.conn
  let r ← handlePutBatch cfg b
  leave b r.1
  return r

def listener (cfg : ServerConfig) : Machine ServerEnv Admission where
  Call := PutBatch
  Reply := PutReply × Bool
  body := fun _ b => handler cfg b
  boot := .ret true
  overlap := fun b b' => b.conn ≠ b'.conn
  crash := fun _ s => s = start

/-! ## A handler alone -/

variable {α β : Type} {e : ServerEnv} {n : Nat} {s : Admission}

theorem run_ask {f : ServerEnv → α} {k : α → P β} :
    (ask f >>= k).run e (n + 1) s = (k (f e)).run e n s := rfl

theorem run_fetchAdd {conn : RawFd} {count : Nat} {k : Int → P β} :
    (fetchAdd conn count >>= k).run e (n + 1) s =
      (k s.inFlight).run e n (s.add conn count) := rfl

theorem run_handlePutBatch (cfg : ServerConfig) (e : ServerEnv) (b : PutBatch) (s : Admission)
    (hfits : ∀ n : Nat, n < 2 ^ 32 → i64 (s.inFlight + n) = s.inFlight + n) :
    ∃ r s', (handlePutBatch cfg b).run e 6 s = some (r, s') ∧
      (r.1.datagram b.hdr.seq, r.2) =
        PageChannel.handlePutBatch cfg { e with inFlight := s.inFlight } b.hdr b.body b.fd := by
  unfold handlePutBatch PageChannel.handlePutBatch
  cases decodePutBatch b.hdr b.body with
  | error x => exact ⟨_, _, rfl, rfl⟩
  | ok count =>
  cases b.fd with
  | none => exact ⟨_, _, rfl, rfl⟩
  | some fd =>
  dsimp only
  rw [run_ask]
  cases e.getSeals with
  | some x => exact ⟨_, _, rfl, rfl⟩
  | none =>
  dsimp only
  by_cases hsealed : (!fd.sealed) = true
  · rw [if_pos hsealed, if_pos hsealed]
    exact ⟨_, _, rfl, rfl⟩
  rw [if_neg hsealed, if_neg hsealed, run_ask]
  cases e.fstat with
  | some x => exact ⟨_, _, rfl, rfl⟩
  | none =>
  dsimp only
  by_cases hlen : fd.content.length ≠ count.toNat * pageSize
  · rw [if_pos hlen, if_pos hlen]
    exact ⟨_, _, rfl, rfl⟩
  rw [if_neg hlen, if_neg hlen, run_fetchAdd, hfits count.toNat count.toNat_lt]
  by_cases hover : s.inFlight + count.toNat > cfg.ingestQueuePages.toNat
  · rw [if_pos hover, if_pos hover]
    exact ⟨_, _, rfl, rfl⟩
  rw [if_neg hover, if_neg hover, run_ask]
  cases e.mmap with
  | some x => exact ⟨_, _, rfl, rfl⟩
  | none =>
  dsimp only
  rw [run_ask]
  cases e.ingest (asChunks pageSize fd.content) with
  | error x => exact ⟨_, _, rfl, rfl⟩
  | ok outcomes => exact ⟨_, _, rfl, rfl⟩

/-! ## The books -/

end Admission

namespace Turn

def held (t : Turn) : Int := (t.added.map (·.count)).sum - t.subtracted.sum

def admitted (limit : Nat) (t : Turn) : Int :=
  if t.subtracted = [] then
    ((t.added.filter fun a => i64 (a.prev + a.count) ≤ limit).map (·.count)).sum
  else 0

inductive Regular : Turn → Prop where
  | entered : Regular ⟨[], []⟩
  | counted {a : Added} (h : a.count ≤ putBatchMaxPages) : Regular ⟨[a], []⟩
  | released {a : Added} (h : a.count ≤ putBatchMaxPages) : Regular ⟨[a], [a.count]⟩

theorem Regular.bounds {t : Turn} (h : t.Regular) (limit : Nat) :
    0 ≤ t.admitted limit ∧ t.admitted limit ≤ t.held ∧ t.held ≤ 8192 := by
  cases h with
  | entered => simp [held, admitted]
  | @counted a h =>
    have hle : a.count ≤ 8192 := h
    by_cases hadm : i64 (a.prev + a.count) ≤ limit <;> simp [held, admitted, hadm] <;> omega
  | released h => simp [held, admitted]

end Turn

/-- What a handler that has returned has done: whatever it added it subtracted once, and it refused
a batch for the load only next to another handler or because the batch alone is too large. -/
structure Exit.Settled (limit : Nat) (x : Exit) : Prop where
  once : x.turn.added.length ≤ 1
  subtracted : x.turn.subtracted = x.turn.added.map (·.count)
  count : ∀ a ∈ x.turn.added, a.count = x.batch.hdr.count.toNat
  overload : ∀ detail, x.reply = .error .overload detail →
    ∃ a, x.turn.added = [a] ∧ (¬ a.contended → limit < a.count)

namespace Admission

def admitted (limit : Nat) (s : Admission) : Int :=
  ∑ c, ((s.turns c).map (·.admitted limit)).getD 0

structure Balanced (limit : Nat) (s : Admission) : Prop where
  regular : ∀ c t, s.turns c = some t → t.Regular
  inFlight : s.inFlight = ∑ c, ((s.turns c).map Turn.held).getD 0
  admitted : s.admitted limit ≤ limit
  exits : ∀ x ∈ s.exits, x.Settled limit

theorem sum_update {κ α : Type*} [Fintype κ] [DecidableEq κ] (g : α → Int) (f : κ → α) (c : κ)
    (a : α) : ∑ d, g (Function.update f c a d) = ∑ d, g (f d) - g (f c) + g a := by
  rw [← Finset.add_sum_erase _ _ (Finset.mem_univ c),
    ← Finset.add_sum_erase _ (fun d => g (f d)) (Finset.mem_univ c), Function.update_self]
  have hrest : ∑ d ∈ Finset.univ.erase c, g (Function.update f c a d) =
      ∑ d ∈ Finset.univ.erase c, g (f d) := by
    refine Finset.sum_congr rfl fun d hd => ?_
    rw [Function.update_of_ne (Finset.ne_of_mem_erase hd)]
  rw [hrest]
  omega

variable {limit n : Nat} {s : Admission} {c : RawFd}

theorem i64_eq {x : Int} (h : -2 ^ 63 ≤ x) (h' : x < 2 ^ 63) : i64 x = x := by
  rw [i64, Int.bmod_def]
  split <;> omega

theorem turns_add (hc : s.turns c = some ⟨[], []⟩) :
    (s.add c n).turns = Function.update s.turns c
      (some ⟨[⟨n, s.inFlight, ∃ d ≠ c, s.turns d ≠ none⟩], []⟩) := by
  rw [add, record, hc]
  rfl

theorem turns_sub {a : Added} (hc : s.turns c = some ⟨[a], []⟩) :
    (s.sub c a.count).turns = Function.update s.turns c (some ⟨[a], [a.count]⟩) := by
  rw [sub, record, hc]
  rfl

namespace Balanced

theorem bounds (h : s.Balanced limit) :
    0 ≤ s.admitted limit ∧ s.admitted limit ≤ s.inFlight ∧ s.inFlight ≤ 2 ^ 44 := by
  have hturn (c : RawFd) : 0 ≤ ((s.turns c).map (·.admitted limit)).getD 0 ∧
      ((s.turns c).map (·.admitted limit)).getD 0 ≤ ((s.turns c).map Turn.held).getD 0 ∧
      ((s.turns c).map Turn.held).getD 0 ≤ 8192 := by
    cases ht : s.turns c with
    | none => simp
    | some t => exact (h.regular c t ht).bounds limit
  refine ⟨Finset.sum_nonneg fun c _ => (hturn c).1, ?_, ?_⟩
  · rw [h.inFlight]
    exact Finset.sum_le_sum fun c _ => (hturn c).2.1
  · calc s.inFlight = ∑ c, ((s.turns c).map Turn.held).getD 0 := h.inFlight
      _ ≤ ∑ _ : RawFd, 8192 := Finset.sum_le_sum fun c _ => (hturn c).2.2
      _ ≤ 2 ^ 44 := by simp

theorem update (h : s.Balanced limit) {o : Option Turn} {s' : Admission}
    (hturns : s'.turns = Function.update s.turns c o) (hregular : ∀ t, o = some t → t.Regular)
    (hinFlight : s'.inFlight = s.inFlight - ((s.turns c).map Turn.held).getD 0 +
      (o.map Turn.held).getD 0)
    (hadmitted : s.admitted limit - ((s.turns c).map (·.admitted limit)).getD 0 +
      (o.map (·.admitted limit)).getD 0 ≤ limit)
    (hexits : ∀ x ∈ s'.exits, x.Settled limit) : s'.Balanced limit where
  regular d t ht := by
    rw [hturns] at ht
    by_cases hd : d = c
    · subst hd
      rw [Function.update_self] at ht
      exact hregular t ht
    · rw [Function.update_of_ne hd] at ht
      exact h.regular d t ht
  inFlight := by
    rw [hinFlight, h.inFlight, hturns, sum_update fun o : Option Turn => (o.map Turn.held).getD 0]
  admitted := by
    rw [Admission.admitted, hturns,
      sum_update fun o : Option Turn => (o.map (·.admitted limit)).getD 0]
    exact hadmitted
  exits := hexits

theorem enter (h : s.Balanced limit) (hc : s.turns c = none) :
    Balanced limit { s with turns := Function.update s.turns c (some ⟨[], []⟩) } := by
  refine h.update rfl ?_ ?_ ?_ h.exits
  · rintro t ⟨⟩
    exact .entered
  · simp [hc, Turn.held]
  · simpa [hc, Turn.admitted] using h.admitted

theorem add (h : s.Balanced limit) (hc : s.turns c = some ⟨[], []⟩) (hn : n ≤ putBatchMaxPages) :
    (s.add c n).Balanced limit := by
  have hle : n ≤ 8192 := hn
  have hb := h.bounds
  have hi64 : i64 (s.inFlight + n) = s.inFlight + n := i64_eq (by omega) (by omega)
  refine h.update (turns_add hc) ?_ ?_ ?_ h.exits
  · rintro t ⟨⟩
    exact .counted hn
  · rw [hc]
    simpa [Admission.add, Turn.held] using hi64
  · -- the batch is admitted only if the counter with it is within the limit
    rw [hc]
    by_cases hadm : i64 (s.inFlight + n) ≤ limit
    · have hsum : s.inFlight + n ≤ limit := hi64 ▸ hadm
      simp [Turn.admitted, hadm]
      omega
    · simpa [Turn.admitted, hadm] using h.admitted

theorem sub {a : Added} (h : s.Balanced limit) (hc : s.turns c = some ⟨[a], []⟩) :
    (s.sub c a.count).Balanced limit := by
  have hb := h.bounds
  have hregular := h.regular c _ hc
  have hle : a.count ≤ putBatchMaxPages := by
    cases hregular with
    | counted h => exact h
  have hi64 : i64 (s.inFlight - a.count) = s.inFlight - a.count := by
    have : a.count ≤ 8192 := hle
    exact i64_eq (by omega) (by omega)
  have hadm := (hregular.bounds limit).1
  refine h.update (turns_sub hc) ?_ ?_ ?_ h.exits
  · rintro t ⟨⟩
    exact .released hle
  · rw [hc]
    simpa [Admission.sub, Turn.held] using hi64
  · have hlimit := h.admitted
    rw [hc]
    simp [Turn.admitted] at hadm ⊢
    omega

theorem leave {t : Turn} {b : PutBatch} {r : PutReply} (h : s.Balanced limit)
    (hc : s.turns b.conn = some t) (hx : Exit.Settled limit ⟨b, t, r⟩) :
    Balanced limit { s with
      turns := Function.update s.turns b.conn none
      exits := (s.turns b.conn).toList.map (⟨b, ·, r⟩) ++ s.exits } := by
  have hsub : t.subtracted = t.added.map (·.count) := hx.subtracted
  have hadm := (h.regular _ t hc).bounds limit
  refine h.update rfl (fun t ht => nomatch ht) ?_ ?_ ?_
  · rw [hc]
    simp [Turn.held, hsub]
  · have hlimit := h.admitted
    rw [hc]
    simp
    omega
  · rw [hc]
    exact List.forall_mem_cons.mpr ⟨hx, h.exits⟩

end Balanced

/-! ## The handler keeps the books -/

theorem Balanced.inFlight_eq_zero (h : s.Balanced limit) (hc : s.turns c = some ⟨[], []⟩)
    (hother : ∀ d ≠ c, s.turns d = none) : s.inFlight = 0 := by
  rw [h.inFlight]
  refine Finset.sum_eq_zero fun d _ => ?_
  by_cases hd : d = c
  · rw [hd, hc]
    rfl
  · rw [hother d hd]
    rfl

variable {b : PutBatch}

def Ready (limit : Nat) (b : PutBatch) (r : PutReply × Bool) (s : Admission) : Prop :=
  ∃ t, s.turns b.conn = some t ∧ Exit.Settled limit ⟨b, t, r.1⟩

theorem ready_early {r : PutReply × Bool} (hs : s.turns b.conn = some ⟨[], []⟩)
    (hr : ∀ detail, r.1 ≠ .error .overload detail) : Ready limit b r s :=
  ⟨_, hs, Nat.zero_le 1, rfl, fun _ ha => (nomatch ha), fun detail hd => absurd hd (hr detail)⟩

theorem ready_released {a : Added} {r : PutReply × Bool}
    (hs : s.turns b.conn = some ⟨[a], [a.count]⟩) (hcount : a.count = b.hdr.count.toNat)
    (hr : ∀ detail, r.1 = .error .overload detail → ¬ a.contended → limit < a.count) :
    Ready limit b r s := by
  refine ⟨_, hs, Nat.le_refl 1, rfl, ?_, fun detail hd => ⟨a, rfl, hr detail hd⟩⟩
  rintro a' ha'
  rw [List.mem_singleton.mp ha']
  exact hcount

variable [Primitives] {cfg : ServerConfig} {α : Type}

def rules (limit : Nat) (conn : RawFd) : Rules ServerEnv Admission where
  may := fun _ _ _ => True
  inv := Balanced limit
  rely := fun s s' => s'.turns conn = s.turns conn
  guar := fun s s' => ∀ d ≠ conn, s'.turns d = s.turns d
  rely_refl := fun _ => rfl
  rely_trans := fun _ _ _ h h' => h'.trans h

theorem stable_turn (o : Option Turn) : Stable (rules limit c) fun s => s.turns c = o :=
  fun _ _ h hr _ => hr.trans h

theorem wp_ask {f : ServerEnv → α} {o : Option Turn} {Q : α → Admission → Prop}
    (hs : s.turns c = o) (h : ∀ a s, s.turns c = o → Q a s) :
    wp (rules limit c) (ask f) Q s :=
  wp_atomic (stable_turn o) hs fun e t hi ht _ => ⟨hi, fun _ _ => rfl, h (f e) t ht⟩

theorem wp_enter {Q : Unit → Admission → Prop} (hs : s.turns c = none)
    (h : ∀ s, s.turns c = some ⟨[], []⟩ → Q () s) : wp (rules limit c) (enter c) Q s := by
  refine wp_atomic (stable_turn none) hs fun _ t hi ht _ => ⟨Balanced.enter hi ht, ?_, h _ ?_⟩
  · exact fun d hd => Function.update_of_ne hd _ _
  · exact Function.update_self _ _ _

theorem wp_fetchAdd {Q : Int → Admission → Prop} (hs : s.turns c = some ⟨[], []⟩)
    (hn : n ≤ putBatchMaxPages)
    (h : ∀ (a : Added) s, a.count = n → (¬ a.contended → a.prev = 0) →
      s.turns c = some ⟨[a], []⟩ → Q a.prev s) :
    wp (rules limit c) (fetchAdd c n) Q s := by
  refine wp_atomic (stable_turn _) hs fun _ t hi ht _ => ⟨Balanced.add hi ht hn, ?_, ?_⟩
  · intro d hd
    show (t.add c n).turns d = _
    rw [turns_add ht, Function.update_of_ne hd]
  · refine h ⟨n, t.inFlight, ∃ d ≠ c, t.turns d ≠ none⟩ _ rfl ?_ ?_
    · intro hfree
      refine Balanced.inFlight_eq_zero hi ht fun d hd => ?_
      by_contra hne
      exact hfree ⟨d, hd, hne⟩
    · show (t.add c n).turns c = _
      rw [turns_add ht, Function.update_self]

theorem wp_fetchSub {a : Added} {Q : Unit → Admission → Prop} (hs : s.turns c = some ⟨[a], []⟩)
    (h : ∀ s, s.turns c = some ⟨[a], [a.count]⟩ → Q () s) :
    wp (rules limit c) (fetchSub c a.count) Q s := by
  refine wp_atomic (stable_turn _) hs fun _ t hi ht _ => ⟨Balanced.sub hi ht, ?_, h _ ?_⟩
  · intro d hd
    show (t.sub c a.count).turns d = _
    rw [turns_sub ht, Function.update_of_ne hd]
  · show (t.sub c a.count).turns c = _
    rw [turns_sub ht, Function.update_self]

theorem wp_leave {t : Turn} {r : PutReply} {Q : Unit → Admission → Prop}
    (hs : s.turns b.conn = some t) (hx : Exit.Settled limit ⟨b, t, r⟩)
    (h : ∀ s, s.turns b.conn = none → Q () s) : wp (rules limit b.conn) (leave b r) Q s := by
  refine wp_atomic (stable_turn _) hs fun _ u hi hu _ => ⟨Balanced.leave hi hu hx, ?_, h _ ?_⟩
  · exact fun d hd => Function.update_of_ne hd _ _
  · exact Function.update_self _ _ _

omit [Primitives] in
theorem decodePutBatch_ok {hdr : PcHdr} {body : Bytes} {count : UInt32}
    (h : decodePutBatch hdr body = .ok count) :
    count = hdr.count ∧ count.toNat ≤ putBatchMaxPages := by
  unfold decodePutBatch at h
  by_cases hrange : hdr.count.toNat = 0 ∨ hdr.count.toNat > putBatchMaxPages
  · rw [if_pos hrange] at h
    cases h
  · rw [if_neg hrange] at h
    by_cases hbody : body ≠ []
    · rw [if_pos hbody] at h
      cases h
    · rw [if_neg hbody] at h
      obtain rfl : hdr.count = count := Except.ok.inj h
      exact ⟨rfl, by omega⟩

theorem wp_handlePutBatch (hs : s.turns b.conn = some ⟨[], []⟩) :
    wp (rules cfg.ingestQueuePages.toNat b.conn) (handlePutBatch cfg b)
      (Ready cfg.ingestQueuePages.toNat b) s := by
  unfold handlePutBatch
  cases hdecode : decodePutBatch b.hdr b.body with
  | error e => exact wp_ret (ready_early hs nofun)
  | ok count =>
  obtain ⟨rfl, hmax⟩ := decodePutBatch_ok hdecode
  cases b.fd with
  | none => exact wp_ret (ready_early hs nofun)
  | some fd =>
  refine wp_bind (wp_ask hs fun seals s hs => ?_)
  cases seals with
  | some e => exact wp_ret (ready_early hs nofun)
  | none =>
  dsimp only
  split
  · exact wp_ret (ready_early hs nofun)
  refine wp_bind (wp_ask hs fun fstat s hs => ?_)
  cases fstat with
  | some e => exact wp_ret (ready_early hs nofun)
  | none =>
  dsimp only
  split
  · exact wp_ret (ready_early hs nofun)
  refine wp_bind (wp_fetchAdd hs hmax fun a s hcount hfree hs => ?_)
  rw [← hcount]
  split
  · next hover =>
    refine wp_bind (wp_fetchSub hs fun s hs => wp_ret (ready_released hs hcount ?_))
    intro _ _ hcontended
    -- nothing else was in flight, so the batch alone is over the limit
    rw [hfree hcontended, Int.zero_add, i64_eq (by omega) (by have : a.count ≤ 8192 := hcount ▸ hmax; omega)] at hover
    omega
  refine wp_bind (wp_ask hs fun mmap s hs => ?_)
  cases mmap with
  | some e => exact wp_bind (wp_fetchSub hs fun s hs => wp_ret (ready_released hs hcount nofun))
  | none =>
  refine wp_bind (wp_ask hs fun ingest s hs => ?_)
  cases ingest with
  | error e => exact wp_bind (wp_fetchSub hs fun s hs => wp_ret (ready_released hs hcount nofun))
  | ok outcomes =>
    exact wp_bind (wp_fetchSub hs fun s hs => wp_ret (ready_released hs hcount nofun))

theorem wp_handler (hs : s.turns b.conn = none) :
    wp (rules cfg.ingestQueuePages.toNat b.conn) (handler cfg b)
      (fun _ s => s.turns b.conn = none) s := by
  refine wp_bind (wp_enter hs fun s hs => ?_)
  refine wp_bind (wp_mono ?_ (wp_handlePutBatch hs))
  rintro r s ⟨t, ht, hx⟩
  exact wp_bind (wp_leave ht hx fun s hs => wp_ret hs)

omit [Primitives] in
theorem balanced_start (limit : Nat) : start.Balanced limit where
  regular := nofun
  inFlight := by simp [start]
  admitted := by simp [Admission.admitted, start]
  exits := nofun

/-- The outline of the listener: the books are balanced, and a connection without a running handler
has no turn. -/
def outline (cfg : ServerConfig) : Outline (listener cfg) fun _ _ _ => True where
  inv := Balanced cfg.ingestQueuePages.toNat
  down := fun s => s = start
  rely := fun b _ s s' => s'.turns b.conn = s.turns b.conn
  guar := fun b _ s s' => ∀ d ≠ b.conn, s'.turns d = s.turns d
  post := fun b _ _ s => s.turns b.conn = none
  idle := fun _ _ => True
  Kind := RawFd
  alone := fun c b => b.conn = c
  lull := fun c s => s.turns c = none
  rely_refl := fun _ _ _ => rfl
  rely_trans := fun _ _ _ _ _ h h' => h'.trans h
  guar_rely := fun _ d _ _ _ _ _ hconn _ _ hg => hg d.conn (Ne.symm hconn)
  guar_idle := fun _ _ _ _ _ _ _ _ _ => trivial
  alone_overlap := fun _ _ _ hc hd hne => hne (hc.trans hd.symm)
  guar_lull := fun k _ _ _ _ hne _ hg hk => (hg k (Ne.symm hne)).trans hk
  post_lull := fun _ _ _ _ _ hc hpost => hc ▸ hpost
  body := fun b _ _ _ _ hlull _ => wp_handler (hlull b.conn rfl)
  boot := fun _ hs _ => hs ▸ ⟨balanced_start _, fun _ => trivial, fun _ => rfl⟩
  crash_up := fun _ _ _ h _ => h
  crash_down := fun _ _ _ h _ => h

/-- In every interleaving of the handlers: the batches past admission stay within the limit; a
handler that has returned has subtracted once what it added, and refused a batch for the load only
next to another handler or because the batch alone exceeds the limit; a turn belongs to a running
handler; and the counter is zero when no handler runs. -/
theorem admission_control (cfg : ServerConfig) (c : Config (listener cfg))
    (h : (listener cfg).Reach (fun _ _ _ => True) ((listener cfg).initial start) c)
    (hup : c.mode = .up) :
    c.store.admitted cfg.ingestQueuePages.toNat ≤ cfg.ingestQueuePages.toNat ∧
    (∀ x ∈ c.store.exits, x.turn.added.length ≤ 1 ∧
      x.turn.subtracted = x.turn.added.map (·.count) ∧
      (∀ a ∈ x.turn.added, a.count = x.batch.hdr.count.toNat) ∧
      ∀ detail, x.reply = .error .overload detail → ∃ a, x.turn.added = [a] ∧
        (¬ a.contended → cfg.ingestQueuePages.toNat < a.count)) ∧
    (∀ d, c.store.turns d ≠ none → ∃ th ∈ c.threads, th.prog.isDone = false ∧ th.call.conn = d) ∧
    ((∀ th ∈ c.threads, th.prog.isDone = true) → c.store.inFlight = 0) := by
  have hgood := (outline cfg).good_of_reach rfl h
  rw [Outline.Good, hup] at hgood
  have hbalanced : c.store.Balanced cfg.ingestQueuePages.toNat := hgood.inv
  have hturns : ∀ d, c.store.turns d ≠ none →
      ∃ th ∈ c.threads, th.prog.isDone = false ∧ th.call.conn = d := by
    intro d hd
    by_contra hnot
    exact hd (hgood.lull d fun th hth hrun hconn => hnot ⟨th, hth, hrun, hconn⟩)
  refine ⟨hbalanced.admitted, fun x hx => ?_, hturns, fun hdone => ?_⟩
  · obtain ⟨honce, hsub, hcount, hover⟩ := hbalanced.exits x hx
    exact ⟨honce, hsub, hcount, hover⟩
  · rw [hbalanced.inFlight]
    refine Finset.sum_eq_zero fun d _ => ?_
    have hnone : c.store.turns d = none := by
      by_contra hd
      obtain ⟨th, hth, hrun, -⟩ := hturns d hd
      rw [hdone th hth] at hrun
      cases hrun
    rw [hnone]
    rfl

end Admission

namespace Sample

attribute [local instance] SnapStore.Sample.primitives

open Admission

def onePage : ServerConfig := ⟨1, false⟩

def calm : ServerEnv where
  getSeals := none
  fstat := none
  inFlight := 0
  mmap := none
  ingest := fun pages => .ok (pages.map fun p => ⟨blake3 p, ⟨0, 0⟩, true⟩)
  getBatch := fun hs => .ok (hs.map fun _ => none)
  createMemfd := none
  writePages := none
  sealMemfd := none
  getBatch_ok := by
    intro hs rs hrs
    cases hrs
    rw [List.forall₂_map_right_iff, List.forall₂_same]
    rintro h - p ⟨⟩

def batch (conn : RawFd) : PutBatch :=
  ⟨conn, ⟨.putBatch, 0, 7, 1⟩, [], some ⟨List.replicate 4096 0, true⟩⟩

instance : DecidableRel (listener onePage).overlap := fun b b' =>
  inferInstanceAs (Decidable (b.conn ≠ b'.conn))

def twoBatches : List (Cmd (listener onePage)) :=
  [.ready, .start (batch 0), .run 0 calm 4, .start (batch 1), .run 1 calm 100, .run 0 calm 100]

def overloaded (x : Exit) : Bool :=
  match x.reply with
  | .error .overload _ => true
  | _ => false

theorem second_batch_refused : ∃ c : Config (listener onePage), c.store.inFlight = 0 ∧
    c.store.exits.map overloaded = [false, true] ∧
    ∀ x ∈ c.store.exits, x.turn.subtracted = x.turn.added.map (·.count) := by
  have hcomp : ((listener onePage).execAll (fun _ _ => true) twoBatches
      ((listener onePage).initial start)).any (fun c => c.mode.isUp && decide (c.store.exits.map overloaded = [false, true]) &&
        c.threads.all fun th => th.prog.isDone) = true := by
    decide +kernel
  simp only [Option.any_eq_true, Bool.and_eq_true, decide_eq_true_eq, List.all_eq_true] at hcomp
  obtain ⟨c, hc, ⟨hmode, hexits⟩, hdone⟩ := hcomp
  have hup : c.mode = .up := by
    cases hm : c.mode with
    | up => rfl
    | booting p =>
      rw [hm] at hmode
      cases hmode
    | down =>
      rw [hm] at hmode
      cases hmode
  have hreach : (listener onePage).Reach (fun _ _ _ => True) ((listener onePage).initial start) c :=
    Machine.reach_of_execAll (by simp [twoBatches, Machine.Meets]) hc
  obtain ⟨-, hsettled, -, hzero⟩ := admission_control onePage c hreach hup
  exact ⟨c, hzero hdone, hexits, fun x hx => (hsettled x hx).2.1⟩

end Sample

end SnapStore.PageChannel

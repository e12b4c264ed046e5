import SnapStore.Meta.Batches
import SnapStore.Meta.Moves

/-!
# Generations of key-value entries

A put writes a generation above the one it finds, so between two deletes of a key its generations
increase and an expected generation identifies one put.  A delete forgets the generation: the next
put starts again at 1.
-/

namespace SnapStore

open Disk

variable {db : MetaDb} {key : Bytes} {m : Nat}

namespace MetaDb

theorem fetchKv_upsertKv (row : KvRow) :
    (db.upsertKv row).fetchKv key = if row.key = key then some row else db.fetchKv key := by
  unfold fetchKv upsertKv
  by_cases hkey : row.key = key
  · simp [hkey]
  · rw [if_neg hkey, List.find?_cons_of_neg (by simpa using hkey), List.find?_filter]
    congr 1
    funext r
    by_cases hr : r.key = key
    · simp [hr, Ne.symm hkey]
    · simp [hr]

theorem fetchKv_delete {other : Bytes} (hne : other ≠ key) :
    ({ db with kvMetadata := db.kvMetadata.filter fun r => r.key ≠ other } : MetaDb).fetchKv key =
      db.fetchKv key := by
  unfold fetchKv
  rw [List.find?_filter]
  congr 1
  funext r
  by_cases hr : r.key = key
  · simp [hr, Ne.symm hne]
  · simp [hr]

end MetaDb

namespace WriterActor

section Runs

variable [Primitives]

variable {a : WriterActor} {c : ActorCmd} {g : Nat}

def Puts (m : Nat) (key : Bytes) (a : WriterActor) (c : ActorCmd) (g : Nat) : Prop :=
  (∃ value expected, c = .putMetadata key value expected) ∧ a.reply m c = .ok (.u64 g)

def Deletes (m : Nat) (key : Bytes) (a : WriterActor) (c : ActorCmd) : Prop :=
  (∃ expected, c = .deleteMetadata key expected) ∧ a.reply m c = .ok (.bool true)

def Along (m : Nat) (P : WriterActor → ActorCmd → Prop) (a : WriterActor) (cs : List ActorCmd) :
    Prop :=
  ∀ before c rest, cs = before ++ c :: rest → P (serial m a before).1 c

def Obtained (m : Nat) (key : Bytes) (g : Nat) (a : WriterActor) : Prop :=
  (∃ row, a.db.fetchKv key = some row ∧ row.generation = g) ∨
    ∃ a₀ c, Puts m key a₀ c g ∧ a = a₀.next m c

def Expects (key : Bytes) (g : Nat) (c : ActorCmd) : Prop :=
  (∃ value, c = .putMetadata key value (some g)) ∨ c = .deleteMetadata key (some g)

theorem along_cons {P : WriterActor → ActorCmd → Prop} {cs : List ActorCmd} :
    Along m P a (c :: cs) ↔ P a c ∧ Along m P (a.next m c) cs := by
  constructor
  · intro h
    refine ⟨h [] c cs rfl, fun before d rest hcs => ?_⟩
    exact h (c :: before) d rest (by rw [hcs, List.cons_append])
  · intro h before d rest hcs
    cases before with
    | nil =>
      obtain ⟨rfl, rfl⟩ := List.cons.inj hcs
      exact h.1
    | cons b before =>
      obtain ⟨rfl, htail⟩ := List.cons.inj hcs
      exact h.2 before d rest htail

/-! ## One command -/

theorem put_of_reply {value : Bytes} {expected : Option Nat} {v : CmdValue}
    (h : a.reply m (.putMetadata key value expected) = .ok v) :
    ∃ g, v = .u64 g ∧ a.db.Put key value expected a.counter g
      (a.db.after m (.putMetadata key value expected) a.counter) := by
  unfold reply MetaDb.after at *
  simp only [MetaDb.dispatchCmd] at h ⊢
  cases hput : a.db.putMetadata key value expected a.counter with
  | error e =>
    rw [hput] at h
    cases h
  | ok x =>
    rw [hput] at h
    cases h
    exact ⟨x.1, rfl, MetaDb.putMetadata_ok hput⟩

theorem delete_of_reply {expected : Option Nat} {v : CmdValue}
    (h : a.reply m (.deleteMetadata key expected) = .ok v) :
    v = .bool false ∧ a.db.fetchKv key = none ∧
      a.db.after m (.deleteMetadata key expected) a.counter = a.db ∨
    v = .bool true ∧ (∃ row, a.db.fetchKv key = some row ∧
        ∀ e, expected = some e → row.generation = e) ∧
      a.db.after m (.deleteMetadata key expected) a.counter =
        { a.db with kvMetadata := a.db.kvMetadata.filter fun r => r.key ≠ key } := by
  unfold reply MetaDb.after at *
  simp only [MetaDb.dispatchCmd] at h ⊢
  cases hdelete : a.db.deleteMetadata key expected with
  | error e =>
    rw [hdelete] at h
    cases h
  | ok x =>
    rw [hdelete] at h
    cases h
    rcases MetaDb.deleteMetadata_ok hdelete with ⟨rfl, hnone⟩ | ⟨rfl, hrow⟩
    · exact .inl ⟨rfl, hnone, rfl⟩
    · exact .inr ⟨rfl, hrow, rfl⟩

theorem after_of_error {e : MetaError} (h : a.reply m c = .error e) :
    a.db.after m c a.counter = a.db := by
  unfold reply at h
  unfold MetaDb.after
  split
  · next heq =>
    rw [heq] at h
    cases h
  · rfl

theorem Puts.spec (h : Puts m key a c g) :
    (∀ row, a.db.fetchKv key = some row → row.generation < g) ∧
      ∃ row, (a.next m c).db.fetchKv key = some row ∧ row.generation = g := by
  obtain ⟨⟨value, expected, rfl⟩, hreply⟩ := h
  obtain ⟨g', heq, hput⟩ := put_of_reply hreply
  cases heq
  refine ⟨hput.above, ⟨key, value, g, a.counter⟩, ?_, rfl⟩
  show (a.db.after m _ a.counter).fetchKv key = _
  rw [hput.write, MetaDb.fetchKv_upsertKv, if_pos rfl]

theorem kvMetadata_move {k : Nat} {db' : MetaDb} (h : MetaDb.Move k c db db')
    (hput : ∀ key value expected, c ≠ .putMetadata key value expected)
    (hdelete : ∀ key expected, c ≠ .deleteMetadata key expected) :
    db'.kvMetadata = db.kvMetadata := by
  cases h with
  | upsertKv key value expected row hstamp => exact absurd rfl (hput key value expected)
  | deleteKv key expected => exact absurd rfl (hdelete key expected)
  | insertLog row hstamp hid hnew => rfl
  | insertNode p depth hdepth hlog hnew => rfl
  | updateNode exp us u hu => rfl
  | insertPin r note => rfl
  | unpin r => rfl
  | prune exp id allowRoot hnode => rfl
  | reap exp id hnode hpruned => rfl
  | setGcState state => rfl

theorem fetchKv_next (hkept : ¬ Deletes m key a c) (hputs : ¬ ∃ g, Puts m key a c g) :
    (a.next m c).db.fetchKv key = a.db.fetchKv key := by
  show (a.db.after m c a.counter).fetchKv key = _
  have hother : (∀ key value expected, c ≠ .putMetadata key value expected) →
      (∀ key expected, c ≠ .deleteMetadata key expected) →
      (a.db.after m c a.counter).fetchKv key = a.db.fetchKv key := by
    intro hput hdelete
    have hkv : (a.db.after m c a.counter).kvMetadata = a.db.kvMetadata :=
      MetaDb.after_induction (P := fun db => db.kvMetadata = a.db.kvMetadata) rfl
        fun _ _ hsame hm => (kvMetadata_move hm hput hdelete).trans hsame
    rw [MetaDb.fetchKv, hkv, MetaDb.fetchKv]
  cases hreply : a.reply m c with
  | error e => rw [after_of_error hreply]
  | ok v =>
    cases c with
    | putMetadata other value expected =>
      obtain ⟨g, rfl, hput⟩ := put_of_reply hreply
      rw [hput.write, MetaDb.fetchKv_upsertKv, if_neg]
      intro heq
      cases heq
      exact hputs ⟨g, ⟨value, expected, rfl⟩, hreply⟩
    | deleteMetadata other expected =>
      rcases delete_of_reply hreply with ⟨rfl, -, hdb⟩ | ⟨rfl, -, hdb⟩
      · rw [hdb]
      · rw [hdb, MetaDb.fetchKv_delete]
        intro heq
        cases heq
        exact hkept ⟨⟨expected, rfl⟩, hreply⟩
    | _ => exact hother nofun nofun

theorem generation_next {row : KvRow} (hrow : a.db.fetchKv key = some row)
    (hkept : ¬ Deletes m key a c) :
    ∃ row', (a.next m c).db.fetchKv key = some row' ∧ row.generation ≤ row'.generation ∧
      ∀ g, Puts m key a c g → row.generation < row'.generation := by
  by_cases hputs : ∃ g, Puts m key a c g
  · obtain ⟨g, hg⟩ := hputs
    obtain ⟨habove, row', hrow', hgen⟩ := hg.spec
    have hlt := habove row hrow
    rw [← hgen] at hlt
    exact ⟨row', hrow', hlt.le, fun _ _ => hlt⟩
  · exact ⟨row, (fetchKv_next hkept hputs).trans hrow, le_rfl, fun g hg => absurd ⟨g, hg⟩ hputs⟩

/-! ## A run -/

theorem generation_serial (cs : List ActorCmd) : ∀ (a : WriterActor) (row : KvRow),
    a.db.fetchKv key = some row → Along m (fun a c => ¬ Deletes m key a c) a cs →
    ∃ row', (serial m a cs).1.db.fetchKv key = some row' ∧ row.generation ≤ row'.generation ∧
      (row'.generation = row.generation → Along m (fun a c => ¬ ∃ g, Puts m key a c g) a cs) := by
  induction cs with
  | nil =>
    intro a row hrow _
    exact ⟨row, hrow, le_rfl, fun _ before c rest hcs => by simp at hcs⟩
  | cons c cs ih =>
    intro a row hrow hkept
    obtain ⟨hc, hcs⟩ := along_cons.mp hkept
    obtain ⟨row₁, hrow₁, hle₁, hlt₁⟩ := generation_next hrow hc
    obtain ⟨row₂, hrow₂, hle₂, hputs₂⟩ := ih (a.next m c) row₁ hrow₁ hcs
    refine ⟨row₂, hrow₂, hle₁.trans hle₂, fun heq => along_cons.mpr ⟨?_, hputs₂ ?_⟩⟩
    · intro hputs
      obtain ⟨g, hg⟩ := hputs
      have hlt := hlt₁ g hg
      omega
    · omega

/-- Between two deletes of a key the generations that its puts return increase, and a put or a
delete that expects a generation obtained earlier succeeds only if nothing was put since then. -/
theorem generations_increase_between_deletes (m : Nat) (key : Bytes) (a : WriterActor)
    (cs : List ActorCmd) (d : ActorCmd)
    (hkept : Along m (fun a c => ¬ Deletes m key a c) a cs) :
    (∀ a₀ c g g', Puts m key a₀ c g → a = a₀.next m c → Puts m key (serial m a cs).1 d g' →
      g < g') ∧
    ∀ g v, 1 ≤ g → Obtained m key g a → Expects key g d → (serial m a cs).1.reply m d = .ok v →
      Along m (fun a c => ¬ ∃ g', Puts m key a c g') a cs := by
  constructor
  · intro a₀ c g g' hputs ha hputs'
    obtain ⟨-, row, hrow, hgen⟩ := hputs.spec
    rw [← ha] at hrow
    obtain ⟨row', hrow', hle, -⟩ := generation_serial cs a row hrow hkept
    have hlt := hputs'.spec.1 row' hrow'
    omega
  · intro g v hg hobtained hexpects hreply
    obtain ⟨row, hrow, hgen⟩ : ∃ row, a.db.fetchKv key = some row ∧ row.generation = g := by
      rcases hobtained with hrow | ⟨a₀, c, hputs, rfl⟩
      · exact hrow
      · exact hputs.spec.2
    obtain ⟨row', hrow', hle, hputs⟩ := generation_serial cs a row hrow hkept
    -- the command succeeds only at the generation it expects
    have hcur : row'.generation = g := by
      rcases hexpects with ⟨value, rfl⟩ | rfl
      · obtain ⟨g', -, hput⟩ := put_of_reply hreply
        obtain ⟨r, hr, hrgen⟩ := hput.guard g hg rfl
        cases hr.symm.trans hrow'
        exact hrgen
      · rcases delete_of_reply hreply with ⟨-, hnone, -⟩ | ⟨-, ⟨r, hr, hrgen⟩, -⟩
        · cases hnone.symm.trans hrow'
        · cases hr.symm.trans hrow'
          exact hrgen g rfl
    exact hputs (hcur.trans hgen.symm)

end Runs

section Sample

attribute [local instance] Sample.primitives

def Sample.start : WriterActor := ⟨MetaDb.empty, MetaDb.empty.rederiveCounter⟩

/-- A put after a delete returns a generation that an earlier put has returned, and a put that
expects the earlier one succeeds. -/
theorem generation_reused : ∃ c d e f : ActorCmd,
    Puts 100 [1] Sample.start c 1 ∧ Deletes 100 [1] (serial 100 Sample.start [c]).1 d ∧
    Puts 100 [1] (serial 100 Sample.start [c, d]).1 e 1 ∧ Expects [1] 1 f ∧
    Puts 100 [1] (serial 100 Sample.start [c, d, e]).1 f 2 := by
  refine ⟨.putMetadata [1] [5] none, .deleteMetadata [1] none, .putMetadata [1] [6] none,
    .putMetadata [1] [7] (some 1), ⟨⟨_, _, rfl⟩, ?_⟩, ⟨⟨_, rfl⟩, ?_⟩, ⟨⟨_, _, rfl⟩, ?_⟩,
    .inl ⟨_, rfl⟩, ⟨⟨_, _, rfl⟩, ?_⟩⟩
  all_goals decide +kernel

theorem generations_increase_twice : ∃ c d : ActorCmd,
    Puts 100 [1] Sample.start c 1 ∧
    Puts 100 [1] (serial 100 (Sample.start.next 100 c) [.unpin Sample.ref]).1 d 2 ∧ 1 < 2 ∧
    Along 100 (fun a c => ¬ ∃ g, Puts 100 [1] a c g) (Sample.start.next 100 c)
      [.unpin Sample.ref] := by
  have hfirst : Puts 100 [1] Sample.start (.putMetadata [1] [5] none) 1 :=
    ⟨⟨_, _, rfl⟩, by decide +kernel⟩
  have hsecond : Puts 100 [1] (serial 100 (Sample.start.next 100 (.putMetadata [1] [5] none))
      [.unpin Sample.ref]).1 (.putMetadata [1] [6] (some 1)) 2 := ⟨⟨_, _, rfl⟩, by decide +kernel⟩
  have hkept : Along 100 (fun a c => ¬ Deletes 100 [1] a c)
      (Sample.start.next 100 (.putMetadata [1] [5] none)) [.unpin Sample.ref] := by
    refine along_cons.mpr ⟨?_, fun before c rest hcs => by simp at hcs⟩
    intro hdelete
    obtain ⟨⟨expected, hc⟩, -⟩ := hdelete
    cases hc
  obtain ⟨hlt, hcas⟩ := generations_increase_between_deletes 100 [1] _ _
    (.putMetadata [1] [6] (some 1)) hkept
  exact ⟨_, _, hfirst, hsecond, hlt _ _ 1 2 hfirst rfl hsecond,
    hcas 1 _ le_rfl (.inr ⟨_, _, hfirst, rfl⟩) (.inl ⟨_, rfl⟩) hsecond.2⟩

end Sample

end WriterActor

end SnapStore

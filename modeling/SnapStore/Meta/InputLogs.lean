import SnapStore.Meta.History
import SnapStore.Meta.Kv
import SnapStore.Manifest.LogExact

/-!
# Stored input logs

A row of `input_logs` is made from a container that came with a command: its id is the hash of the
container's body and its version is read from the raw bytes, by the database itself.  For containers
that decode these are the id and the version of the codec.
-/

namespace SnapStore

open Disk History

def ActorCmd.container : ActorCmd → Option Bytes
  | .createNode p => p.inlineLogContainer
  | .putInputLog _ container => some container
  | _ => none

def InputLogRow.Derived [Primitives] (l : InputLogRow) : Prop :=
  InputLogContainer.logId l.content = l.logId ∧
    l.innerFormatVersion = leNat (slice l.content 8 4)

namespace MetaDb

variable [Primitives] {db db' : MetaDb} {m k : Nat} {p : CreateNodeParams} {l : InputLogRow}

theorem mem_putInputLog {logId : LogId} {container : Bytes} {b : Bool}
    (h : db.putInputLog logId container m k = .ok (b, db')) (hl : l ∈ db'.inputLogs) :
    l ∈ db.inputLogs ∨ l.content = container ∧ l.logId = logId ∧ l.Derived := by
  simp only [putInputLog, ite_error_eq_ok, not_not] at h
  obtain ⟨-, -, hid, h⟩ := h
  split at h
  · cases h
    exact .inl hl
  · cases h
    rcases List.mem_cons.mp hl with rfl | hl
    · exact .inr ⟨rfl, rfl, hid, rfl⟩
    · exact .inl hl

theorem mem_ensureInputLog (h : db.ensureInputLog p m k = .ok db') (hl : l ∈ db'.inputLogs) :
    l ∈ db.inputLogs ∨ p.inlineLogContainer = some l.content ∧ l.Derived := by
  unfold ensureInputLog at h
  split at h
  · cases h
    exact .inl hl
  · next logId hlog =>
    split at h
    · cases h
      exact .inl hl
    · split at h
      · next container hinline =>
        cases hput : db.putInputLog logId container m k with
        | error e => simp [hput, Except.map] at h
        | ok x =>
          simp only [hput, Except.map, Except.ok.injEq] at h
          subst h
          rcases mem_putInputLog hput hl with hold | ⟨hcontent, -, hderived⟩
          · exact .inl hold
          · rw [hcontent]
            exact .inr ⟨hinline, hderived⟩
      · cases h

theorem createNodeImpl_logs (db : MetaDb) (p : CreateNodeParams) (m k : Nat) :
    (∃ db₁, db.ensureInputLog p m k = .ok db₁ ∧
      (db.createNodeImpl p m k).2.inputLogs = db₁.inputLogs) ∨
    (∃ e, db.createNodeImpl p m k = (.error e, db)) := by
  unfold createNodeImpl
  split
  · next e _ => exact .inr ⟨e, rfl⟩
  · split
    · next e _ => exact .inr ⟨e, rfl⟩
    · next db₁ hensure =>
      refine .inl ⟨db₁, hensure, ?_⟩
      split
      · split <;> rfl
      · rfl

omit [Primitives] in
theorem inputLogs_updates (exp : ExperimentId) (k : Nat) (us : List NodeUpdate) (db : MetaDb) :
    (us.foldl (applyUpdate exp k) db).inputLogs = db.inputLogs := by
  induction us generalizing db with
  | nil => rfl
  | cons u us ih =>
    rw [List.foldl_cons, ih]
    rfl

omit [Primitives] in
theorem mem_settle {α : Type} {value : α → CmdValue} {x : Except MetaError (α × MetaDb)}
    {P : Prop} (hl : l ∈ (db.settle value x).2.inputLogs)
    (hx : ∀ y, x = .ok y → l ∈ y.2.inputLogs → l ∈ db.inputLogs ∨ P) : l ∈ db.inputLogs ∨ P := by
  cases x with
  | ok y => exact hx y rfl hl
  | error e => exact .inl hl

theorem mem_inputLogs_dispatchCmd {cmd : ActorCmd} (hl : l ∈ (db.dispatchCmd m cmd k).2.inputLogs) :
    l ∈ db.inputLogs ∨ cmd.container = some l.content ∧ l.Derived := by
  cases cmd with
  | createNode p =>
    rcases createNodeImpl_logs db p m k with ⟨db₁, hensure, hlogs⟩ | ⟨e, heq⟩
    · exact mem_ensureInputLog hensure (hlogs ▸ hl)
    · have hl' : l ∈ (db.createNodeImpl p m k).2.inputLogs := hl
      rw [heq] at hl'
      exact .inl hl'
  | putInputLog logId container =>
    refine mem_settle hl fun y hput hy => ?_
    rcases mem_putInputLog hput hy with hold | ⟨hcontent, -, hderived⟩
    · exact .inl hold
    · exact .inr ⟨by rw [hcontent]; rfl, hderived⟩
  | updateNodes exp us =>
    refine mem_settle hl fun y hy hly => .inl ?_
    unfold updateNodes at hy
    dsimp only at hy
    split at hy
    · cases hy
    · cases hy
      rwa [inputLogs_updates] at hly
  | putMetadata key value expected =>
    refine mem_settle hl fun y hy hly => .inl ?_
    rw [(putMetadata_ok hy).write] at hly
    exact hly
  | deleteMetadata key expected =>
    refine mem_settle hl fun y hy hly => .inl ?_
    rcases deleteMetadata_ok hy with ⟨rfl, -⟩ | ⟨rfl, -⟩ <;> exact hly
  | pin r note =>
    have hl' : l ∈ (db.pin r note k).inputLogs := hl
    unfold MetaDb.pin at hl'
    split at hl' <;> exact .inl hl'
  | unpin r => exact .inl hl
  | pruneSubtree exp id allowRoot =>
    refine mem_settle hl fun y hy hly => .inl ?_
    rw [(pruneSubtree_ok hy).2] at hly
    exact hly
  | reapTombstone exp id =>
    refine mem_settle hl fun y hy hly => .inl ?_
    rcases reapTombstone_ok hy with ⟨-, heq⟩ | ⟨-, heq, -⟩
    · rwa [heq] at hly
    · rw [heq] at hly
      exact (List.mem_filter.mp hly).1
  | setGcState state => exact .inl hl

def LogsDerived (db : MetaDb) : Prop := ∀ l ∈ db.inputLogs, l.Derived

theorem LogsDerived.dispatchCmd {cmd : ActorCmd} (h : db.LogsDerived) :
    (db.dispatchCmd m cmd k).2.LogsDerived := by
  intro l hl
  rcases mem_inputLogs_dispatchCmd hl with hold | ⟨-, hderived⟩
  · exact h l hold
  · exact hderived

end MetaDb

section

variable [Primitives] {m k : Nat} {db : MetaDb} {b : Bytes} {c : InputLogContainer}

open MetaDb

theorem History.Reach.logsDerived {ok : MetaDb → ActorCmd → Prop} {s : History}
    (h : Reach m ok s) : s.contents.LogsDerived := by
  have hinv := h.invariant (P := LogsDerived) (fun l hl => nomatch hl) (fun _ _ hdb => hdb)
    fun db c k hdb _ => hdb.dispatchCmd
  unfold contents
  split
  · next l i hb => exact hinv.2 l i hb
  · exact hinv.1

/-- The strings whose hashes decide whether a container is found under its own id: its body and the
bodies of the stored logs. -/
def MetaDb.hashed (db : MetaDb) (b : Bytes) : Set Bytes :=
  {x | x = b.take (b.length - 32) ∨
    ∃ l ∈ db.inputLogs, x = l.content.take (l.content.length - 32)}

theorem InputLogRow.Derived.content_eq {l : InputLogRow} (h : l.Derived) (hl : l ∈ db.inputLogs)
    (hstored : ∃ c', InputLogContainer.decode l.content = .ok c')
    (hfree : (db.hashed b).InjOn blake3) (hb : InputLogContainer.decode b = .ok c)
    (hid : l.logId = InputLogContainer.logId b) :
    l.content = b ∧ l.innerFormatVersion = c.innerFormatVersion := by
  obtain ⟨c', hc'⟩ := hstored
  have hbody : l.content.take (l.content.length - 32) = b.take (b.length - 32) :=
    hfree (.inr ⟨l, hl, rfl⟩) (.inl rfl) (h.1.trans hid)
  have hcontent : l.content = b := InputLogContainer.eq_of_body_eq hc' hb hbody
  refine ⟨hcontent, ?_⟩
  rw [h.2, hcontent]
  exact (InputLogContainer.accepted_of_decode hb).version.symm

theorem MetaDb.putInputLog_accepted (hb : InputLogContainer.decode b = .ok c)
    (hmax : b.length ≤ m) :
    ∃ fresh db', db.putInputLog (InputLogContainer.logId b) b m k = .ok (fresh, db') ∧
      (db' = db ∧ (∃ l ∈ db.inputLogs, l.logId = InputLogContainer.logId b) ∨
        db'.inputLogs = ⟨InputLogContainer.logId b, leNat (slice b 8 4), b, k⟩ :: db.inputLogs) := by
  have hmin : ¬ b.length < inputLogMinBytes :=
    Nat.not_lt.mpr (InputLogContainer.footer_of_decode hb).1
  have hhash : ¬ blake3 (b.take (b.length - 32)) ≠ InputLogContainer.logId b := not_not.mpr rfl
  rw [putInputLog, if_neg hmin, if_neg (Nat.not_lt.mpr hmax), if_neg hhash]
  split
  · next hany =>
    obtain ⟨l, hl, hid⟩ := List.any_eq_true.mp hany
    exact ⟨_, _, rfl, .inl ⟨rfl, l, hl, of_decide_eq_true hid⟩⟩
  · exact ⟨_, _, rfl, .inr rfl⟩

/-- The codec is exact, and the database agrees with it: in every history, if the stored containers
all decode and no two of the hashed bodies collide, a container that decodes is stored under its id
with the version the codec reads. -/
theorem input_log_codec_exact (m k : Nat) (s : History) (h : Reach m (fun _ _ => True) s)
    (hstored : ∀ l ∈ s.contents.inputLogs, ∃ c, InputLogContainer.decode l.content = .ok c) :
    (∀ b : Checked.ByteSlice, InputLogContainer.Machine.decode b.bytes ≠ .error .panic ∧
      ∀ v p, InputLogContainer.Machine.decode b.bytes = .ok ⟨v, p⟩ ↔
        v < 2 ^ 32 ∧ b.bytes = InputLogContainer.encode ⟨v, p⟩) ∧
    ∀ b c, InputLogContainer.decode b = .ok c → b.length ≤ m →
      (s.contents.hashed b).InjOn blake3 →
      ∃ fresh db', s.contents.putInputLog (InputLogContainer.logId b) b m k = .ok (fresh, db') ∧
        (∃ l ∈ db'.inputLogs, l.logId = InputLogContainer.logId b) ∧
        ∀ l ∈ db'.inputLogs, l.logId = InputLogContainer.logId b →
          l.content = b ∧ l.innerFormatVersion = c.innerFormatVersion := by
  refine ⟨InputLogContainer.machine_decode_iff, fun b c hb hmax hfree => ?_⟩
  have hold : ∀ l ∈ s.contents.inputLogs, l.logId = InputLogContainer.logId b →
      l.content = b ∧ l.innerFormatVersion = c.innerFormatVersion := fun l hl =>
    (h.logsDerived l hl).content_eq hl (hstored l hl) hfree hb
  obtain ⟨fresh, db', hput, ⟨rfl, hthere⟩ | hlogs⟩ := putInputLog_accepted hb hmax
  · exact ⟨fresh, _, hput, hthere, hold⟩
  · refine ⟨fresh, db', hput, ⟨_, hlogs ▸ List.mem_cons_self, rfl⟩, fun l hl hid => ?_⟩
    rw [hlogs] at hl
    rcases List.mem_cons.mp hl with rfl | hl
    · exact ⟨rfl, (InputLogContainer.accepted_of_decode hb).version.symm⟩
    · exact hold l hl hid

end

namespace Sample

attribute [local instance] primitives

open MetaDb

def emptyLog : Bytes := InputLogContainer.encode ⟨1, []⟩

def shortLog : Bytes := InputLogContainer.encode ⟨1, [5]⟩

theorem empty_log_is_stored : ∃ s, Reach 100 (fun _ _ => True) s ∧
    s.contents.inputLogs.map (·.content) = [shortLog] ∧
    ∃ fresh db', s.contents.putInputLog (InputLogContainer.logId emptyLog) emptyLog 100 2 =
        .ok (fresh, db') ∧
      (∃ l ∈ db'.inputLogs, l.logId = InputLogContainer.logId emptyLog) ∧
      ∀ l ∈ db'.inputLogs, l.logId = InputLogContainer.logId emptyLog →
        l.content = emptyLog ∧ l.innerFormatVersion = 1 := by
  have hbegun : Reach 100 (fun _ _ => True) _ := .step .initial (.begin rfl)
  have hput := Reach.step hbegun (.command rfl .good
    (.putInputLog (InputLogContainer.logId shortLog) shortLog) rfl trivial)
  refine ⟨_, hput, by decide +kernel, ?_⟩
  have hempty : InputLogContainer.decode emptyLog = .ok ⟨1, []⟩ :=
    InputLogContainer.decode_encode _ (by decide) (by decide)
  have hcontent : ∀ l ∈ (MetaDb.empty.dispatchCmd 100
      (.putInputLog (InputLogContainer.logId shortLog) shortLog) 1).2.inputLogs,
      l.content = shortLog := by decide +kernel
  have hne : blake3 (emptyLog.take (emptyLog.length - 32)) ≠
      blake3 (shortLog.take (shortLog.length - 32)) := by decide +kernel
  refine (input_log_codec_exact 100 2 _ hput ?_).2 emptyLog ⟨1, []⟩ hempty (by decide +kernel) ?_
  · intro l hl
    rw [hcontent l hl]
    exact ⟨⟨1, [5]⟩, InputLogContainer.decode_encode _ (by decide) (by decide)⟩
  · rintro x (rfl | ⟨l, hl, rfl⟩) y (rfl | ⟨l', hl', rfl⟩) hxy
    · rfl
    · rw [hcontent l' hl'] at hxy
      exact absurd hxy hne
    · rw [hcontent l hl] at hxy
      exact absurd hxy.symm hne
    · rw [hcontent l hl, hcontent l' hl']

end Sample

end SnapStore

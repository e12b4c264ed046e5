import SnapStore.Checked
import SnapStore.Pagestore.Flushes

/-!
# The pack parsers on arbitrary files

`PackReader::open`, `scan`, `open_unsealed` and `PackWriter::reopen` as they run on an open file:
with its cursor, reads that can fail or go past its end, `u64` arithmetic, slices and conversions
that can panic.  Each of them computes what its function of the file's bytes says.
-/

namespace SnapStore

open Disk Checked

structure Handle where
  content : Bytes
  pos : Nat
  faults : List Bool
  failed : Bool
  strayed : Bool

namespace PackFile

abbrev Io (α : Type) := ExceptT (Halt PackError) (StateM Handle) α

/-! ## Calls on the file -/

def lift {α : Type} (x : Except (Halt PackError) α) : Io α := ExceptT.mk (pure x)

def call {α : Type} (e : PackError) (f : Handle → Except (Halt PackError) α × Handle) : Io α :=
  ExceptT.mk fun h => match h.faults with
    | true :: rest => (.error (.error e), { h with faults := rest, failed := true })
    | false :: rest => f { h with faults := rest }
    | [] => f h

def readExactAt (eof e : PackError) (off n : Nat) : Io Bytes := call e fun h =>
  if off + n ≤ h.content.length then (.ok (slice h.content off n), h)
  else (.error (.error eof), { h with strayed := true })

def readExact (n : Nat) : Io Bytes := call (.io .other) fun h =>
  if h.pos + n ≤ h.content.length then
    (.ok (slice h.content h.pos n), { h with pos := h.pos + n })
  else (.error (.error (.io .unexpectedEof)), { h with strayed := true })

/-- `seek` to the position that `f` gives for the length of the file and the cursor. -/
def seek (f : Nat → Nat → Nat) : Io Nat := call (.io .other) fun h =>
  (.ok (f h.content.length h.pos), { h with pos := f h.content.length h.pos })

def setLen (n : Nat) : Io Unit := call (.io .other) fun h =>
  (.ok (), { h with content := h.content.take n })

/-- `open` of the same path: a new handle with its cursor at the start. -/
def openAgain : Io Unit := call (.io .other) fun h => (.ok (), { h with pos := 0 })

/-! ## The functions of the source -/

def headerHash (recHeader : Bytes) : Except (Halt PackError) PageHash := do
  let hashBytes ← index recHeader 0 32
  let hashBytes ← toArray 32 hashBytes
  return Digest.ofBytes hashBytes

def headerLen (recHeader : Bytes) : Except (Halt PackError) Nat := uintAt 4 recHeader 33 37

def headerFlags (recHeader : Bytes) : Except (Halt PackError) UInt8 := do
  let b ← index recHeader 32 33
  return b.getD 0 0

def countRecordsLoop (checks : Bool) (bodyEnd : Nat) : Nat → Nat → Nat → Io Nat
  | 0, _, _ => throw .panic
  | fuel + 1, offset, count =>
    if offset < bodyEnd then do
      let remaining ← lift (minus bodyEnd offset)
      if remaining < recordHeaderSize then pure count else do
      let recHeader ← readExact recordHeaderSize
      let len ← lift (headerLen recHeader)
      let next ← lift (arith checks (offset + (recordHeaderSize + len)))
      if bodyEnd < next then pure count else do
      let _ ← seek fun _ pos => pos + len
      let count ← lift (arith checks (count + 1))
      countRecordsLoop checks bodyEnd fuel next count
    else pure count

def openSealed (checks : Bool) : Io Nat := do
  let magic ← readExact 4
  if magic ≠ packMagic then throw (.error .badMagic) else do
  let fileLen ← seek fun len _ => len
  if fileLen < packHeaderSize + packFooterSize then throw (.error .badFooterMagic) else do
  let _ ← seek fun len _ => len - packFooterSize
  let footer ← readExact packFooterSize
  let footerMagic' ← lift (index footer 0 4)
  if footerMagic' ≠ footerMagic then throw (.error .badFooterMagic) else do
  let bodyEnd ← lift (minus fileLen packFooterSize)
  let footerRecordCount ← lift (uintAt 8 footer 4 12)
  let _ ← seek fun _ _ => packHeaderSize
  let scanned ← countRecordsLoop checks bodyEnd (fileLen + 1) packHeaderSize 0
  if scanned ≠ footerRecordCount then
    throw (.error (.footerMismatch footerRecordCount scanned))
  else pure bodyEnd

def scanLoop (checks : Bool) (scanEnd : Nat) : Nat → Nat → List (Nat × PageHash) →
    Io (List (Nat × PageHash))
  | 0, _, _ => throw .panic
  | fuel + 1, offset, results =>
    if scanEnd ≤ offset then pure results else do
    let remaining ← lift (minus scanEnd offset)
    if remaining < recordHeaderSize then pure results else do
    let recHeader ← readExactAt (.truncatedRecord offset) (.truncatedRecord offset) offset
      recordHeaderSize
    let hash ← lift (headerHash recHeader)
    let len ← lift (headerLen recHeader)
    let next ← lift (arith checks (offset + (recordHeaderSize + len)))
    scanLoop checks scanEnd fuel next (results ++ [(offset, hash)])

def scan (checks : Bool) (bodyEnd : Nat) : Io (List (Nat × PageHash)) := do
  let fileLen ← seek fun len _ => len
  scanLoop checks bodyEnd (fileLen + 1) packHeaderSize []

def openUnsealedLoop [Primitives] (checks : Bool) (fileLen : Nat) : Nat → Nat → Nat →
    Io (Nat × Nat × Option Nat)
  | 0, _, _ => throw .panic
  | fuel + 1, offset, good =>
    if fileLen - offset = 0 then pure (offset, good, none) else
    if fileLen - offset < recordHeaderSize then pure (offset, good, some offset) else do
    let recHeader ← readExact recordHeaderSize
    let hash ← lift (headerHash recHeader)
    let flags ← lift (headerFlags recHeader)
    let len ← lift (headerLen recHeader)
    let expectedLen := if flags &&& 0x01 ≠ 0 then pageSize else len
    if len ≠ expectedLen ∨ pageSize * 2 < len then pure (offset, good, some offset) else do
    let payloadAt ← lift (arith checks (offset + recordHeaderSize))
    if fileLen - payloadAt < len then pure (offset, good, some offset) else do
    lift (withCapacity len 1)
    let payload ← readExact len
    if blake3 payload ≠ hash then pure (offset, good, some offset) else do
    let good ← lift (arith checks (good + 1))
    let next ← lift (arith checks (offset + (recordHeaderSize + len)))
    openUnsealedLoop checks fileLen fuel next good

def truncateTo : Option Nat → Io Unit
  | some trunc => setLen trunc
  | none => pure ()

def openUnsealed [Primitives] (checks : Bool) : Io (Nat × Nat) := do
  let magic ← readExact 4
  if magic ≠ packMagic then throw (.error .badMagic) else do
  let fileLen ← seek fun len _ => len
  let _ ← seek fun _ _ => packHeaderSize
  let (offset, good, truncateAt) ← openUnsealedLoop checks fileLen (fileLen + 1) packHeaderSize 0
  truncateTo truncateAt
  openAgain
  pure (truncateAt.getD offset, good)

def reopenLoop (checks : Bool) (fileLen : Nat) : Nat → Nat → Nat → Bytes → Io (Nat × Nat × Bytes)
  | 0, _, _, _ => throw .panic
  | fuel + 1, offset, count, hasher =>
    if offset < fileLen then do
      let remaining ← lift (minus fileLen offset)
      if remaining < recordHeaderSize then pure (offset, count, hasher) else do
      let recHeader ← readExactAt (.io .unexpectedEof) (.io .other) offset recordHeaderSize
      let len ← lift (headerLen recHeader)
      if pageSize * 2 < len then pure (offset, count, hasher) else do
      let next ← lift (arith checks (offset + recordHeaderSize + len))
      if fileLen < next then pure (offset, count, hasher) else do
      lift (withCapacity len 1)
      let payload ← readExactAt (.io .unexpectedEof) (.io .other) (offset + recordHeaderSize) len
      let count ← lift (arith checks (count + 1))
      reopenLoop checks fileLen fuel next count (hasher ++ (recHeader ++ payload))
    else pure (offset, count, hasher)

/-- `PackWriter::reopen`: the writer starts at the cursor of the new handle. -/
def reopen (checks : Bool) (file : Ino) (packId : PackId) : Io PackWriter := do
  let magic ← readExactAt (.io .unexpectedEof) (.io .other) 0 4
  if magic ≠ packMagic then throw (.error .badMagic) else do
  let fileLen ← seek fun len _ => len
  let (offset, count, hasher) ← reopenLoop checks fileLen (fileLen + 1) packHeaderSize 0 []
  openAgain
  let pos ← seek fun _ _ => offset
  pure ⟨file, packId, pos, hasher, [], offset, count, false, packMaxBytes⟩

/-! ## Runs -/

variable {α β : Type} {b b' b₁ : Bytes} {p p' p₁ : Nat}

def Runs (b : Bytes) (p : Nat) (x : Io α) (v : Except PackError α) (b' : Bytes) (p' : Nat) : Prop :=
  ∀ h : Handle, h.content = b → h.pos = p → h.failed = false → h.strayed = false →
    ∃ r h', x.run h = (r, h') ∧ h'.strayed = false ∧
      ((∃ e, r = .error (.error e)) ∧ h'.failed = true ∨
        r = v.mapError .error ∧ h'.content = b' ∧ h'.pos = p' ∧ h'.failed = false)

theorem Runs.pure (a : α) : Runs b p (pure a) (.ok a) b p :=
  fun h hb hp hf hs => ⟨_, h, rfl, hs, .inr ⟨rfl, hb, hp, hf⟩⟩

theorem Runs.throw (e : PackError) : Runs b p (throw (.error e) : Io α) (.error e) b p :=
  fun h hb hp hf hs => ⟨_, h, rfl, hs, .inr ⟨rfl, hb, hp, hf⟩⟩

theorem Runs.bind {x : Io α} {k : α → Io β} {a : α} {v : Except PackError β}
    (hx : Runs b p x (.ok a) b₁ p₁) (hk : Runs b₁ p₁ (k a) v b' p') : Runs b p (x >>= k) v b' p' := by
  intro h hb hp hf hs
  obtain ⟨r, h₁, hrun, hs₁, hr⟩ := hx h hb hp hf hs
  have hbind : (x >>= k).run h = ExceptT.bindCont k r h₁ := by
    show (match x.run h with | (r, s) => ExceptT.bindCont k r s) = _
    rw [hrun]
  rw [hbind]
  rcases hr with ⟨⟨e, rfl⟩, hf₁⟩ | ⟨rfl, hb₁, hp₁, hf₁⟩
  · exact ⟨_, h₁, rfl, hs₁, .inl ⟨⟨e, rfl⟩, hf₁⟩⟩
  · exact hk h₁ hb₁ hp₁ hf₁ hs₁

theorem Runs.lift {x : Except (Halt PackError) α} {k : α → Io β} {a : α} {v : Except PackError β}
    (hx : x = .ok a) (hk : Runs b p (k a) v b' p') : Runs b p (lift x >>= k) v b' p' := by
  subst hx
  exact Runs.bind (Runs.pure a) hk

theorem runs_call {e : PackError} {f : Handle → Except (Halt PackError) α × Handle} {a : α}
    (hf : ∀ h, h.content = b → h.pos = p → h.failed = false → h.strayed = false →
      ∃ h', f h = (.ok a, h') ∧ h'.content = b' ∧ h'.pos = p' ∧ h'.failed = false ∧
        h'.strayed = false) : Runs b p (call e f) (.ok a) b' p' := by
  intro h hb hp hfail hs
  have hok : ∀ g : Handle, g.content = b → g.pos = p → g.failed = false → g.strayed = false →
      ∃ r h', f g = (r, h') ∧ h'.strayed = false ∧ ((∃ e, r = .error (.error e)) ∧ h'.failed = true ∨
        r = (Except.ok a).mapError .error ∧ h'.content = b' ∧ h'.pos = p' ∧ h'.failed = false) := by
    intro g hb hp hfail hs
    obtain ⟨h', hrun, hb', hp', hfail', hs'⟩ := hf g hb hp hfail hs
    exact ⟨_, h', hrun, hs', .inr ⟨rfl, hb', hp', hfail'⟩⟩
  show ∃ r h', (match h.faults with | true :: rest => _ | false :: rest => _ | [] => _) = (r, h') ∧ _
  split
  · exact ⟨_, _, rfl, hs, .inl ⟨⟨e, rfl⟩, rfl⟩⟩
  · exact hok _ hb hp hfail hs
  · exact hok h hb hp hfail hs

theorem runs_readExactAt {eof e : PackError} {off n : Nat} (h : off + n ≤ b.length) :
    Runs b p (readExactAt eof e off n) (.ok (slice b off n)) b p := by
  refine runs_call fun g hb hp hf hs => ⟨g, ?_, hb, hp, hf, hs⟩
  subst hb
  rw [if_pos h]

theorem runs_readExact {n : Nat} (h : p + n ≤ b.length) :
    Runs b p (readExact n) (.ok (slice b p n)) b (p + n) := by
  refine runs_call fun g hb hp hf hs => ⟨{ g with pos := g.pos + n }, ?_, hb, ?_, hf, hs⟩
  · subst hb hp
    rw [if_pos h]
  · rw [← hp]

theorem runs_seek (f : Nat → Nat → Nat) :
    Runs b p (seek f) (.ok (f b.length p)) b (f b.length p) := by
  refine runs_call fun g hb hp hf hs => ⟨{ g with pos := f b.length p }, ?_, hb, rfl, hf, hs⟩
  subst hb hp
  rfl

theorem runs_setLen (n : Nat) : Runs b p (setLen n) (.ok ()) (b.take n) p := by
  refine runs_call fun g hb hp hf hs => ⟨{ g with content := g.content.take n }, rfl, ?_, hp, hf, hs⟩
  rw [← hb]

theorem runs_openAgain : Runs b p openAgain (.ok ()) b 0 :=
  runs_call fun g hb _ hf hs => ⟨{ g with pos := 0 }, rfl, hb, rfl, hf, hs⟩

def RunsTo (b : Bytes) (p : Nat) (x : Io α) (v : Except PackError α) (b' : Bytes) : Prop :=
  ∃ p', Runs b p x v b' p'

namespace RunsTo

variable {x y : Io α} {v : Except PackError β}

theorem pure (a : α) : RunsTo b p (pure a) (.ok a) b := ⟨p, .pure a⟩

theorem throw (e : PackError) : RunsTo b p (throw (.error e) : Io α) (.error e) b := ⟨p, .throw e⟩

theorem bind {k : α → Io β} {a : α} (hx : Runs b p x (.ok a) b₁ p₁) (hk : RunsTo b₁ p₁ (k a) v b') :
    RunsTo b p (x >>= k) v b' := hk.imp fun _ => hx.bind

theorem lift {x : Except (Halt PackError) α} {k : α → Io β} {a : α} (hx : x = .ok a)
    (hk : RunsTo b p (k a) v b') : RunsTo b p (lift x >>= k) v b' := hk.imp fun _ => .lift hx

theorem ite {γ : Type} {c : Prop} [Decidable c] {u w : γ} (f : γ → Except PackError α)
    (hx : c → RunsTo b p x (f u) b') (hy : ¬ c → RunsTo b p y (f w) b') :
    RunsTo b p (if c then x else y) (f (if c then u else w)) b' := by
  split
  · next hc => exact hx hc
  · next hc => exact hy hc

end RunsTo

/-! ## Record headers -/

variable {off : Nat}

theorem length_recHeader (h : off + recordHeaderSize ≤ b.length) :
    (slice b off recordHeaderSize).length = 37 := by
  rw [length_slice]
  exact Nat.min_eq_left (by omega)

theorem recordLen_lt (b : Bytes) (off : Nat) : recordLen b off < 2 ^ 32 := leNat_slice_lt _ _ 4

theorem headerLen_eq (h : off + recordHeaderSize ≤ b.length) :
    headerLen (slice b off recordHeaderSize) = .ok (recordLen b off) := by
  have hlen := length_recHeader h
  rw [headerLen, uintAt_eq rfl (by omega), slice_slice (by decide)]
  rfl

theorem headerHash_eq (h : off + recordHeaderSize ≤ b.length) :
    headerHash (slice b off recordHeaderSize) = .ok (recordHash b off) := by
  have hlen := length_recHeader h
  have hslice : (slice b off recordHeaderSize).take 32 = slice b off 32 := by
    rw [slice, List.take_take]
    rfl
  have h32 : (slice b off 32).length = 32 := by
    rw [← hslice, List.length_take, hlen]
    rfl
  simp only [headerHash, index_take (show 32 ≤ (slice b off recordHeaderSize).length by omega),
    hslice, toArray_eq h32, bind, Except.bind]
  rfl

theorem headerFlags_eq (h : off + recordHeaderSize ≤ b.length) :
    headerFlags (slice b off recordHeaderSize) = .ok (recordFlags b off) := by
  have hlen := length_recHeader h
  simp only [headerFlags, index_eq (show 32 ≤ 33 by decide)
    (show 33 ≤ (slice b off recordHeaderSize).length by omega), bind, Except.bind]
  rw [slice_slice (by decide)]
  simp [slice, recordFlags, pure, Except.pure]

/-! ## The loops -/

section

variable {checks : Bool} {e : Nat} (hlt : b.length < isizeBound)

include hlt

theorem arith_next {off : Nat} (h : off ≤ b.length) :
    (arith checks (off + (recordHeaderSize + recordLen b off)) : Except (Halt PackError) Nat) =
      .ok (off + (recordHeaderSize + recordLen b off)) := by
  have hlen := recordLen_lt b off
  refine arith_eq ?_
  simp only [recordHeaderSize, usizeBound, isizeBound] at hlt ⊢
  omega

omit hlt in
theorem header_le_next (b : Bytes) (off : Nat) :
    off + 37 ≤ off + (recordHeaderSize + recordLen b off) := by
  simp only [recordHeaderSize]
  omega

theorem runs_countRecordsLoop (checks : Bool) (he : e ≤ b.length) (fuel : Nat) :
    ∀ (f offset count : Nat), e - offset < fuel → e - offset ≤ f → count ≤ offset →
      RunsTo b offset (countRecordsLoop checks e fuel offset count)
        (.ok (SnapStore.countRecordsLoop b e f offset count)) b := by
  induction fuel with
  | zero =>
    intro f offset count h
    omega
  | succ fuel ih =>
    intro f offset count hfuel hf hcount
    cases f with
    | zero =>
      rw [countRecordsLoop, if_neg (by omega)]
      exact .pure count
    | succ f =>
      rw [countRecordsLoop, SnapStore.countRecordsLoop]
      refine .ite .ok (fun hend => .lift (if_pos (Nat.le_of_lt hend))
        (.ite .ok (fun _ => .pure count) fun hheader => ?_)) fun _ => .pure count
      have hroom : offset + recordHeaderSize ≤ b.length := by omega
      refine .bind (runs_readExact hroom) (.lift (headerLen_eq hroom) (.lift (arith_next hlt
        (by omega)) (.ite .ok (fun _ => .pure count) fun hpayload => ?_)))
      have hnext := header_le_next b offset
      refine .bind (runs_seek _) (.lift (arith_eq ?_) ?_)
      · simp only [usizeBound, isizeBound] at hlt ⊢
        omega
      · rw [Nat.add_assoc]
        exact ih f _ _ (by omega) (by omega) (by omega)

theorem runs_scanLoop (checks : Bool) (he : e ≤ b.length) (fuel : Nat) :
    ∀ (f offset : Nat) (results : List (Nat × PageHash)), e - offset < fuel → e - offset ≤ f →
      ∃ rest, SnapStore.scanLoop b e f offset = .ok rest ∧
        Runs b p (scanLoop checks e fuel offset results) (.ok (results ++ rest)) b p := by
  induction fuel with
  | zero =>
    intro f offset results h
    omega
  | succ fuel ih =>
    intro f offset results hfuel hf
    cases f with
    | zero =>
      refine ⟨[], rfl, ?_⟩
      rw [scanLoop, if_pos (by omega), List.append_nil]
      exact .pure results
    | succ f =>
      rw [scanLoop, SnapStore.scanLoop]
      by_cases hend : e ≤ offset
      · refine ⟨[], if_pos hend, ?_⟩
        rw [if_pos hend, List.append_nil]
        exact .pure results
      rw [if_neg hend, if_neg hend]
      by_cases hheader : e - offset < recordHeaderSize
      · refine ⟨[], if_pos hheader, .lift (if_pos (by omega)) ?_⟩
        rw [if_pos hheader, List.append_nil]
        exact .pure results
      have hroom : offset + recordHeaderSize ≤ b.length := by omega
      have hnext := header_le_next b offset
      obtain ⟨rest, hpure, hrest⟩ := ih f (offset + (recordHeaderSize + recordLen b offset))
        (results ++ [(offset, recordHash b offset)]) (by omega) (by omega)
      refine ⟨(offset, recordHash b offset) :: rest, ?_, .lift (if_pos (by omega)) ?_⟩
      · rw [if_neg hheader, if_neg (by omega), hpure]
      · rw [if_neg hheader]
        refine .bind (runs_readExactAt hroom) (.lift (headerHash_eq hroom)
          (.lift (headerLen_eq hroom) (.lift (arith_next hlt (by omega)) ?_)))
        rwa [List.append_assoc] at hrest

theorem runs_reopenLoop (checks : Bool) (fuel : Nat) :
    ∀ (f offset count : Nat) (hasher : Bytes), b.length - offset < fuel → b.length - offset ≤ f →
      count ≤ offset → RunsTo b p (reopenLoop checks b.length fuel offset count hasher)
        (.ok (SnapStore.reopenLoop b f offset count hasher)) b := by
  induction fuel with
  | zero =>
    intro f offset count hasher h
    omega
  | succ fuel ih =>
    intro f offset count hasher hfuel hf hcount
    cases f with
    | zero =>
      rw [reopenLoop, if_neg (by omega)]
      exact .pure _
    | succ f =>
      rw [reopenLoop, SnapStore.reopenLoop]
      refine .ite .ok (fun hend => .lift (if_pos (Nat.le_of_lt hend))
        (.ite .ok (fun _ => .pure _) fun hheader => ?_)) fun _ => .pure _
      have hroom : offset + recordHeaderSize ≤ b.length := by omega
      refine .bind (runs_readExactAt hroom) (.lift (headerLen_eq hroom) (.ite .ok (fun _ => .pure _)
        fun hlen => ?_))
      rw [Nat.add_assoc offset]
      refine .lift (arith_next hlt (by omega)) (.ite .ok (fun _ => .pure _) fun hpayload => ?_)
      have hnext := header_le_next b offset
      simp only [pageSize, isizeBound] at hlen hlt
      refine .lift (withCapacity_eq (by simp only [isizeBound]; omega)) (.bind (runs_readExactAt
        (by omega)) (.lift (arith_eq (by simp only [usizeBound]; omega)) ?_))
      rw [← slice_add]
      exact ih f _ _ _ (by omega) (by omega) (by omega)

variable [Primitives]

def cutAt (r : Nat × Nat × Bool) : Nat × Nat × Option Nat :=
  (r.1, r.2.1, if r.2.2 then some r.1 else none)

theorem runs_openUnsealedLoop (checks : Bool) (fuel : Nat) :
    ∀ (f offset good : Nat), b.length - offset < fuel → b.length - offset ≤ f → good ≤ offset →
      RunsTo b offset (openUnsealedLoop checks b.length fuel offset good)
        (.ok (cutAt (SnapStore.openUnsealedLoop b f offset good))) b := by
  induction fuel with
  | zero =>
    intro f offset good h
    omega
  | succ fuel ih =>
    intro f offset good hfuel hf hgood
    cases f with
    | zero =>
      rw [openUnsealedLoop, if_pos (by omega)]
      exact .pure _
    | succ f =>
      rw [openUnsealedLoop, SnapStore.openUnsealedLoop]
      -- after the header has been read, the cursor stays behind it if the file is cut here
      refine .ite (.ok ∘ cutAt) (fun _ => .pure _) fun hend =>
        .ite (.ok ∘ cutAt) (fun _ => .pure _) fun hheader => ?_
      have hroom : offset + recordHeaderSize ≤ b.length := by omega
      have hlt' : b.length < 2 ^ 63 := hlt
      refine .bind (runs_readExact hroom) (.lift (headerHash_eq hroom) (.lift (headerFlags_eq hroom)
        (.lift (headerLen_eq hroom) (.ite (.ok ∘ cutAt) (fun _ => .pure _) fun hlen => ?_))))
      have hle := Nat.not_lt.mp (not_or.mp hlen).2
      simp only [pageSize] at hle
      refine .lift (arith_eq (by simp only [usizeBound]; omega)) (.ite (.ok ∘ cutAt)
        (fun _ => .pure _) fun hpayload => .lift (withCapacity_eq (by simp only [isizeBound]; omega))
          (.bind (runs_readExact (by omega)) (.ite (.ok ∘ cutAt) (fun _ => .pure _) fun _ => ?_)))
      have hnext := header_le_next b offset
      refine .lift (arith_eq (by simp only [usizeBound]; omega)) (.lift (arith_next hlt
        (by omega)) ?_)
      rw [Nat.add_assoc offset]
      exact ih f _ _ (by omega) (by omega) (by omega)

end

/-! ## The calls -/

section

variable (checks : Bool) (hmagic : slice b 0 4 = packMagic) (hheader : packHeaderSize ≤ b.length)
  (hlt : b.length < isizeBound)

include hmagic hheader hlt

theorem runs_openSealed : RunsTo b 0 (openSealed checks) (PackReader.openSealed b) b := by
  simp only [packHeaderSize] at hheader
  have hsize : packFooterSize = 44 := rfl
  unfold PackReader.openSealed openSealed
  rw [if_neg (show ¬ b.length < 4 by omega), if_neg (not_not.mpr hmagic)]
  refine .bind (runs_readExact (by omega)) ?_
  rw [hmagic, if_neg (not_not.mpr rfl)]
  refine .bind (runs_seek _) (.ite id (fun _ => .throw _) fun hshort => ?_)
  have hend : b.length - packFooterSize + packFooterSize = b.length := by omega
  have hfooter : (slice b (b.length - packFooterSize) packFooterSize).length = 44 := by
    rw [length_slice]
    omega
  have hfmagic : index (slice b (b.length - packFooterSize) packFooterSize) 0 4 =
      (.ok (slice b (b.length - packFooterSize) 4) : Except (Halt PackError) Bytes) := by
    rw [index_eq (by decide) (by omega), slice_slice (by decide)]
    rfl
  have hfcount : uintAt 8 (slice b (b.length - packFooterSize) packFooterSize) 4 12 =
      (.ok (leNat (slice b (b.length - packFooterSize + 4) 8)) : Except (Halt PackError) Nat) := by
    rw [uintAt_eq rfl (by omega), slice_slice (by decide)]
  refine .bind (runs_seek _) (.bind (runs_readExact (Nat.le_of_eq hend)) (.lift hfmagic
    (.ite id (fun _ => .throw _) fun _ => ?_)))
  obtain ⟨p', hcount⟩ := runs_countRecordsLoop hlt checks (Nat.sub_le b.length
    packFooterSize) (b.length + 1) (b.length - packFooterSize) packHeaderSize 0 (by omega)
    (Nat.sub_le _ _) (Nat.zero_le _)
  exact .lift (if_pos (by omega)) (.lift hfcount (.bind (runs_seek _) (.bind hcount
    (.ite id (fun _ => .throw _) fun _ => .pure _))))

omit hmagic hheader in
theorem runs_scan {e : Nat} (he : e ≤ b.length) :
    ∃ r p', PackReader.scan b e = .ok r ∧ Runs b p (scan checks e) (.ok r) b p' := by
  obtain ⟨r, hpure, hrun⟩ := runs_scanLoop (p := b.length) hlt checks he (b.length + 1) e
    packHeaderSize [] (by omega) (Nat.sub_le _ _)
  exact ⟨r, b.length, hpure, .bind (runs_seek _) hrun⟩

theorem runs_reopen (file : Ino) (packId : PackId) :
    ∃ w p', PackWriter.reopen file packId b = .ok w ∧ p' = w.writeOffset ∧
      Runs b p (reopen checks file packId) (.ok w) b p' := by
  simp only [packHeaderSize] at hheader
  obtain ⟨_, hloop⟩ := runs_reopenLoop (p := b.length) hlt checks (b.length + 1) b.length
    packHeaderSize 0 [] (by omega) (Nat.sub_le _ _) (Nat.zero_le _)
  rw [PackWriter.reopen, if_neg (show ¬ b.length < 4 by omega), if_neg (not_not.mpr hmagic)]
  refine ⟨_, _, rfl, rfl, .bind (runs_readExactAt (by omega)) ?_⟩
  rw [hmagic, if_neg (not_not.mpr rfl)]
  exact .bind (runs_seek _) (.bind hloop (.bind runs_openAgain (.bind (runs_seek _) (.pure _))))

variable [Primitives]

theorem runs_openUnsealed {e n : Nat} {cut : Bool}
    (hloop : SnapStore.openUnsealedLoop b b.length packHeaderSize 0 = (e, n, cut)) :
    Runs b 0 (openUnsealed checks) (.ok (e, n)) (if cut then b.take e else b) 0 := by
  simp only [packHeaderSize] at hheader
  obtain ⟨p₁, hrun⟩ := runs_openUnsealedLoop hlt checks (b.length + 1) b.length
    packHeaderSize 0 (by omega) (Nat.sub_le _ _) (Nat.zero_le _)
  rw [hloop] at hrun
  refine .bind (runs_readExact (by omega)) ?_
  rw [hmagic, if_neg (not_not.mpr rfl)]
  refine .bind (runs_seek _) (.bind (runs_seek _) (.bind hrun ?_))
  cases cut with
  | false => exact .bind (.pure ()) (.bind runs_openAgain (.pure _))
  | true => exact .bind (runs_setLen e) (.bind runs_openAgain (.pure _))

end

/-- The program neither panics nor reads past the end of the file. -/
def Safe (x : Io α) (h : Handle) : Prop :=
  (x.run h).1 ≠ .error .panic ∧ (x.run h).2.strayed = false

def opened (b : Bytes) (faults : List Bool) : Handle := ⟨b, 0, faults, false, false⟩

theorem Runs.safe {x : Io α} {v : Except PackError α} {h : Handle} (hx : Runs b p x v b' p')
    (hb : h.content = b) (hp : h.pos = p) (hf : h.failed = false) (hs : h.strayed = false) :
    Safe x h := by
  obtain ⟨r, h', hrun, hs', hr⟩ := hx h hb hp hf hs
  rw [Safe, hrun]
  refine ⟨?_, hs'⟩
  rcases hr with ⟨⟨e, rfl⟩, -⟩ | ⟨rfl, -⟩
  · rintro ⟨⟩
  · exact ne_panic_of_mapError

theorem Runs.of_ok {x : Io α} {v : Except PackError α} {h h' : Handle} {a : α}
    (hx : Runs b p x v b' p') (hb : h.content = b) (hp : h.pos = p) (hf : h.failed = false)
    (hs : h.strayed = false) (hrun : x.run h = (.ok a, h')) :
    v = .ok a ∧ h'.content = b' ∧ h'.pos = p' ∧ h'.failed = false ∧ h'.strayed = false := by
  obtain ⟨r, h'', hrun', hs', hr⟩ := hx h hb hp hf hs
  obtain ⟨rfl, rfl⟩ := Prod.mk.inj (hrun.symm.trans hrun')
  rcases hr with ⟨⟨e, he⟩, -⟩ | ⟨hv, hb', hp', hf'⟩
  · cases he
  · exact ⟨mapError_eq_ok.mp hv.symm, hb', hp', hf', hs'⟩

/-- On every file with the magic of a pack and at least its header, whatever follows and whichever
calls fail, the parsers end without a panic and read only inside the file.  What `open_unsealed`
leaves is the header and whole records that carry their hash, and `reopen` takes all of them. -/
theorem pack_parsers_total [Primitives] (checks : Bool) (b : Bytes) (faults faults' : List Bool)
    (file : Ino) (id : PackId) (hlt : b.length < isizeBound) (hheader : packHeaderSize ≤ b.length)
    (hmagic : slice b 0 4 = packMagic) :
    Safe (openSealed checks) (opened b faults) ∧
    (∀ e h, (openSealed checks).run (opened b faults) = (.ok e, h) → Safe (scan checks e) h) ∧
    Safe (openUnsealed checks) (opened b faults) ∧
    Safe (reopen checks file id) (opened b faults) ∧
    ∀ e n h, (openUnsealed checks).run (opened b faults) = (.ok (e, n), h) →
      h.content = b.take e ∧ h.content.length = e ∧ packHeaderSize ≤ e ∧
      Whole h.content packHeaderSize n ∧ Safe (reopen checks file id) (opened h.content faults') ∧
      ∀ w h', (reopen checks file id).run (opened h.content faults') = (.ok w, h') →
        w.recordCount = n ∧ w.bodyHasher = h.content.drop packHeaderSize ∧
        w.writeOffset = h.content.length ∧ w.pos = h.content.length := by
  obtain ⟨p₁, hopen⟩ := runs_openSealed checks hmagic hheader hlt
  obtain ⟨w₂, p₂, -, -, hreopen⟩ := runs_reopen (p := 0) checks hmagic hheader hlt file id
  rcases hloop : SnapStore.openUnsealedLoop b b.length packHeaderSize 0 with ⟨e, n, cut⟩
  have hunsealed := runs_openUnsealed checks hmagic hheader hlt hloop
  refine ⟨hopen.safe rfl rfl rfl rfl, fun e h hrun => ?_, hunsealed.safe rfl rfl rfl rfl,
    hreopen.safe rfl rfl rfl rfl, fun e' n' h hrun => ?_⟩
  · obtain ⟨hpure, hb, hp, hf, hs⟩ := hopen.of_ok rfl rfl rfl rfl hrun
    have he : e ≤ b.length := by
      rw [(bodyEnd_of_openSealed hpure).1]
      exact Nat.sub_le _ _
    obtain ⟨r, p', -, hscan⟩ := runs_scan (p := h.pos) checks hlt he
    exact hscan.safe hb rfl hf hs
  · obtain ⟨hpure, hb, -, -, -⟩ := hunsealed.of_ok rfl rfl rfl rfl hrun
    obtain ⟨rfl, rfl⟩ := Prod.mk.inj (Except.ok.inj hpure)
    obtain ⟨hle, he, huncut, k, hk, hwhole⟩ :=
      whole_of_openUnsealedLoop _ _ _ (Nat.sub_le _ _) hheader hloop
    rw [Nat.zero_add] at hk
    subst hk
    have hcontent : h.content = b.take e := by
      rw [hb]
      cases cut with
      | false => rw [huncut rfl, List.take_length]; rfl
      | true => rfl
    have hlen : (b.take e).length = e := by rw [List.length_take, Nat.min_eq_left he]
    have hmagic' : slice (b.take e) 0 4 = packMagic := by
      simp only [packHeaderSize] at hle
      rw [slice_take (by omega), hmagic]
    rw [hcontent]
    obtain ⟨w, p', hpure, -, hrun'⟩ := runs_reopen (p := 0) checks hmagic'
      (by omega) (by omega) file id
    refine ⟨rfl, hlen, hle, hwhole, hrun'.safe rfl rfl rfl rfl, fun w' h' hok => ?_⟩
    obtain ⟨hw, -⟩ := hrun'.of_ok rfl rfl rfl rfl hok
    rw [hw, hwhole.reopen_eq hmagic' (by omega)] at hpure
    obtain rfl := Except.ok.inj hpure
    exact ⟨rfl, rfl, rfl, rfl⟩

end PackFile

namespace Sample

attribute [local instance] primitives

theorem torn_header_recovered :
    ∃ h, (PackFile.openUnsealed true).run (PackFile.opened (packHeader 0 0 ++ [1, 2, 3]) []) =
        (.ok (20, 0), h) ∧ Whole h.content packHeaderSize 0 := by
  obtain ⟨h, hrun⟩ : ∃ h, (PackFile.openUnsealed true).run
    (PackFile.opened (packHeader 0 0 ++ [1, 2, 3]) []) = (.ok (20, 0), h) := ⟨_, rfl⟩
  exact ⟨h, hrun, ((PackFile.pack_parsers_total true _ [] [] 0 0 (by decide) (by decide)
    (by decide)).2.2.2.2 _ _ _ hrun).2.2.2.1⟩

end Sample

end SnapStore

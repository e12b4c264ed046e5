import SnapStore.Checked
import SnapStore.Client.Retry
import SnapStore.Manifest.Exact
import SnapStore.PageChannel.Channel
import SnapStore.Scatter
import SnapStore.System

/-!
# `resolve_pages` of the client

The hashes of a snapshot come over gRPC, in messages of 512 pages.  A client with a page channel
fetches the payloads there, by hash, and checks each of them against the slot it was asked for.
-/

namespace SnapStore.Client

open Disk Checked PageChannel

section

variable [Primitives]

/-! ## Payloads from the channel -/

/-- One delivery.  A `usize` has 64 bits, so the conversion of `dst_slot` does not fail. -/
def placePayload (resolved : List (Nat × PageHash)) (payloads : List (Option Bytes))
    (r : UInt64 × Bytes) : Except ClientError (List (Option Bytes)) :=
  let slot := r.1.toNat
  match resolved[slot]? with
  | none => .error (.corruptPayload "page-channel GET_BATCH returned out-of-range dst_slot"
      s!"0..{resolved.length}" (toString slot))
  | some (pageIndex, expected) =>
    if (payloads[slot]?.getD none).isSome then
      .error (.corruptPayload "page-channel GET_BATCH returned duplicate dst_slot"
        "unique dense ordinal slots" (toString slot))
    else if r.2.length ≠ pageSize then
      .error (.corruptPayload
        s!"page-channel GET_BATCH returned wrong payload length for page_index {pageIndex}"
        (toString pageSize) (toString r.2.length))
    else if blake3 r.2 ≠ expected then
      .error (.corruptPayload
        s!"page-channel GET_BATCH payload hash mismatch for page_index {pageIndex}"
        (hex expected.bytes) (hex (blake3 r.2).bytes))
    else .ok (payloads.set slot (some r.2))

def takePayload (p : Option Bytes × Nat) : Except ClientError Bytes :=
  match p.1 with
  | some payload => .ok payload
  | none => .error (.corruptPayload "page-channel GET_BATCH missing dst_slot" (toString p.2)
      "<missing>")

def attachPayloadsFromChannelResults (resolved : List (Nat × PageHash)) (channelResults : Fetched) :
    Except ClientError (List Bytes) := do
  if channelResults.length ≠ resolved.length then
    throw (.corruptPayload "page-channel GET_BATCH scatter cardinality mismatch"
      (toString resolved.length) (toString channelResults.length))
  let payloads ← channelResults.foldlM (placePayload resolved)
    (List.replicate resolved.length none)
  payloads.zipIdx.mapM takePayload

inductive ResolveViaChannelError where
  | fallback (e : ChannelError)
  | fatal (e : ClientError)

def codeName : ErrorCode → String
  | .notFound => "NotFound"
  | .invalid => "Invalid"
  | .overload => "Overload"

def classifyGetBatchError : ChannelError → Halt ResolveViaChannelError
  | .io => .error (.fallback .io)
  | .peer .overload detail => .error (.fallback (.peer .overload detail))
  | .protocol msg =>
    if "server closed connection".toList <:+: msg.toList then
      .error (.fallback (.protocol msg))
    else .error (.fatal (.corruptPayload "page-channel GET_BATCH protocol violation"
      "valid GET_BATCH_DATA response" msg))
  | .peer .notFound detail => .error (.fatal (.corruptPayload
      "page-channel GET_BATCH returned NotFound for a hash from ResolvePages"
      "all committed ResolvePages hashes readable through the connected page channel" detail))
  | .peer code detail => .error (.fatal (.corruptPayload "page-channel GET_BATCH peer error"
      "valid GET_BATCH_DATA response" s!"{codeName code}: {detail}"))
  | .wire e => .error (.fatal (.corruptPayload "page-channel GET_BATCH wire error"
      "valid GET_BATCH_DATA response" e.toString))
  | .crossCheckMismatch expected actual =>
    .error (.fatal (.batchBlake3Mismatch expected actual))
  | .panicked => .panic

/-- The `GET_BATCH` calls for a list of hashes: the number of the chunk and its requests, with the
ordinals of the hashes as slots. -/
def getBatchCalls (resolved : List (Nat × PageHash)) : List (Nat × List (PageHash × UInt64)) :=
  (chunks getBatchMaxPerDatagram resolved.length resolved).zipIdx.map fun (chunk, chunkIndex) =>
    let base := chunkIndex * getBatchMaxPerDatagram
    (chunkIndex, chunk.zipIdx.map fun (e, i) => (e.2, UInt64.ofNat (base + i)))

abbrev ChannelAnswers := Nat → List (PageHash × UInt64) → Except ChannelError Fetched

def resolvePayloadsViaChannel (pc : ChannelAnswers) (resolved : List (Nat × PageHash)) :
    Except (Halt ResolveViaChannelError) (List Bytes) := do
  if resolved = [] then
    return []
  let channelResults ← (getBatchCalls resolved).foldlM (fun results call => do
    let got ← (pc call.1 call.2).mapError classifyGetBatchError
    return results ++ got) []
  (attachPayloadsFromChannelResults resolved channelResults).mapError fun e => .error (.fatal e)

/-! ## Metadata over gRPC -/

structure ResolvedPage where
  pageIndex : Nat
  pageHash : Bytes
  payload : Bytes

abbrev ResolveMessage := Except Status (List ResolvedPage)

abbrev PageEntry := Nat × PageHash × Option Bytes

def toResolvedPage (e : PageEntry) : ResolvedPage := ⟨e.1, e.2.1.bytes, e.2.2.getD []⟩

def sendPages (batch : List ResolvedPage) : List (Except String PageEntry) → List ResolveMessage
  | [] => if batch = [] then [] else [.ok batch]
  | .error e :: _ => [.error ⟨.internal, s!"resolve error: {e}", none⟩]
  | .ok e :: rest =>
    let batch := batch ++ [toResolvedPage e]
    if 512 ≤ batch.length then .ok batch :: sendPages [] rest else sendPages batch rest

def receivePage (hashesOnly : Bool) (page : ResolvedPage) : Except ClientError PageEntry :=
  if page.pageHash.length ≠ 32 then
    .error (.transport "resolved page has non-32-byte hash")
  else .ok (page.pageIndex, Digest.ofBytes page.pageHash,
    if hashesOnly || page.payload.isEmpty then none else some page.payload)

def receivePages (hashesOnly : Bool) : List ResolveMessage → Except ClientError (List PageEntry)
  | [] => .ok []
  | .error s :: _ => .error (decodeStatus s)
  | .ok pages :: rest => do
    let first ← pages.mapM (receivePage hashesOnly)
    let others ← receivePages hashesOnly rest
    return first ++ others

/-- `with_retry`, from its `n`-th attempt on.  `elapsed n` is the time since its start after that
attempt; `none` if it goes on after `fuel` attempts. -/
def withRetry {α : Type} (elapsed : Nat → Nat) (attempt : Nat → Except ClientError α) :
    Nat → Nat → Backoff → Option (Except ClientError α)
  | 0, _, _ => none
  | fuel + 1, n, b =>
    match afterAttempt (elapsed n) b (attempt n) with
    | .finish r => some r
    | .retry _ b' => withRetry elapsed attempt fuel (n + 1) b'

/-- The gRPC side of one call of `resolve_pages`: for each value of `hashes_only` the clock and
the messages of the attempts. -/
structure Grpc where
  elapsed : Bool → Nat → Nat
  messages : Bool → Nat → List ResolveMessage

def Grpc.resolvePagesViaGrpc (g : Grpc) (hashesOnly : Bool) (fuel : Nat) :
    Option (Except ClientError (List PageEntry)) :=
  withRetry (g.elapsed hashesOnly) (fun n => receivePages hashesOnly (g.messages hashesOnly n))
    fuel 0 .start

def resolvePages (g : Grpc) (pageChannel : Option ChannelAnswers) (hashesOnly : Bool) (fuel : Nat) :
    Option (Except (Halt ClientError) (List PageEntry)) :=
  let viaGrpc := (g.resolvePagesViaGrpc hashesOnly fuel).map (·.mapError .error)
  match hashesOnly, pageChannel with
  | false, some pc =>
    (g.resolvePagesViaGrpc true fuel).bind fun
      | .error e => some (.error (.error e))
      | .ok resolved =>
        if resolved = [] then some (.ok resolved) else
        let resolvedHashes := resolved.map fun e => (e.1, e.2.1)
        match resolvePayloadsViaChannel pc resolvedHashes with
        | .ok payloads =>
          some (.ok ((resolvedHashes.zip payloads).map fun (e, p) => (e.1, e.2, some p)))
        | .error .panic => some (.error .panic)
        | .error (.error (.fatal e)) => some (.error (.error e))
        | .error (.error (.fallback _)) => viaGrpc
  | _, _ => viaGrpc

/-! ## The scatter loop -/

variable {resolved : List (Nat × PageHash)} {results : Fetched}

def Delivers (resolved : List (Nat × PageHash)) (r : UInt64 × Bytes) : Prop :=
  r.2.length = 4096 ∧ ∃ e, resolved[r.1.toNat]? = some e ∧ blake3 r.2 = e.2

def slotted (results : Fetched) : List (Nat × Bytes) := results.map fun r => (r.1.toNat, r.2)

omit [Primitives] in
theorem map_fst_slotted : (slotted results).map (·.1) = results.map (·.1.toNat) := by
  rw [slotted, List.map_map]
  rfl

theorem placePayload_ok {t t' : List (Option Bytes)} {r : UInt64 × Bytes}
    (ht : t.length = resolved.length) :
    placePayload resolved t r = .ok t' ↔
      Delivers resolved r ∧ t[r.1.toNat]? = some none ∧ t' = t.set r.1.toNat (some r.2) := by
  unfold placePayload Delivers
  dsimp only
  cases he : resolved[r.1.toNat]? with
  | none => simp
  | some e =>
    have hlt : r.1.toNat < t.length := ht ▸ (List.getElem?_eq_some_iff.mp he).1
    have hget : t[r.1.toNat]? = some (t[r.1.toNat]) := List.getElem?_eq_getElem hlt
    simp only [hget, Option.getD_some, ite_error_eq_ok, Except.ok.injEq, not_not,
      Bool.not_eq_true, Option.isSome_eq_false_iff, Option.isNone_iff_eq_none, Option.some.injEq]
    constructor
    · rintro ⟨hnone, hlen, hhash, rfl⟩
      exact ⟨⟨hlen, e, rfl, hhash⟩, hnone, rfl⟩
    · rintro ⟨⟨hlen, e', rfl, hhash⟩, hnone, rfl⟩
      exact ⟨hnone, hlen, hhash, rfl⟩

theorem scatter_ok {t t' : List (Option Bytes)} (ht : t.length = resolved.length) :
    results.foldlM (placePayload resolved) t = .ok t' ↔
      (∀ r ∈ results, Delivers resolved r ∧ t[r.1.toNat]? = some none) ∧
        (results.map (·.1.toNat)).Nodup ∧ t' = Scatter.fill t (slotted results) := by
  induction results generalizing t with
  | nil =>
    simp only [List.foldlM_nil, pure, Except.pure, Except.ok.injEq, List.not_mem_nil, slotted,
      List.map_nil, List.nodup_nil, Scatter.fill_nil]
    exact ⟨fun h => ⟨fun _ h => h.elim, trivial, h.symm⟩, fun h => h.2.2.symm⟩
  | cons r rs ih =>
    rw [List.foldlM_cons]
    constructor
    · intro h
      cases hplace : placePayload resolved t r with
      | error e => simp [hplace, bind, Except.bind] at h
      | ok t₁ =>
        rw [hplace] at h
        obtain ⟨hr, hempty, rfl⟩ := (placePayload_ok ht).mp hplace
        obtain ⟨hrs, hnodup, hfill⟩ := (ih (by rw [List.length_set, ht])).mp h
        have hother : ∀ r' ∈ rs, r'.1.toNat ≠ r.1.toNat := by
          intro r' hr' heq
          have hlt := (List.getElem?_eq_some_iff.mp hempty).1
          have hget := (hrs r' hr').2
          rw [heq, List.getElem?_set_self hlt] at hget
          cases hget
        refine ⟨?_, ?_, hfill⟩
        · intro r' hr'
          rcases List.mem_cons.mp hr' with rfl | hr'
          · exact ⟨hr, hempty⟩
          · have hget := (hrs r' hr').2
            rw [List.getElem?_set_ne (hother r' hr').symm] at hget
            exact ⟨(hrs r' hr').1, hget⟩
        · rw [List.map_cons, List.nodup_cons]
          refine ⟨fun hmem => ?_, hnodup⟩
          obtain ⟨r', hr', heq⟩ := List.mem_map.mp hmem
          exact hother r' hr' heq
    · intro ⟨hall, hnodup, hfill⟩
      rw [List.map_cons, List.nodup_cons] at hnodup
      obtain ⟨hr, hempty⟩ := hall r List.mem_cons_self
      have hplace : placePayload resolved t r = .ok (t.set r.1.toNat (some r.2)) :=
        (placePayload_ok ht).mpr ⟨hr, hempty, rfl⟩
      rw [hplace]
      refine (ih (by rw [List.length_set, ht])).mpr ⟨fun r' hr' => ?_, hnodup.2, hfill⟩
      have hne : r.1.toNat ≠ r'.1.toNat := fun heq =>
        hnodup.1 (List.mem_map.mpr ⟨r', hr', heq.symm⟩)
      rw [List.getElem?_set_ne hne]
      exact hall r' (List.mem_cons_of_mem r hr')

omit [Primitives] in
theorem takePayloads_map (ps : List Bytes) (k : Nat) :
    ((ps.map some).zipIdx k).mapM takePayload = .ok ps := by
  induction ps generalizing k with
  | nil => rfl
  | cons p ps ih =>
    rw [List.map_cons, List.zipIdx_cons, List.mapM_cons, ih]
    rfl

omit [Primitives] in
theorem eq_of_takePayloads {t : List (Option Bytes)} {ps : List Bytes} {k : Nat}
    (h : (t.zipIdx k).mapM takePayload = .ok ps) : t = ps.map some := by
  induction t generalizing ps k with
  | nil =>
    cases h
    rfl
  | cons x t ih =>
    rw [List.zipIdx_cons, List.mapM_cons] at h
    cases x with
    | none => cases h
    | some p =>
      cases hrest : (t.zipIdx (k + 1)).mapM takePayload with
      | error e =>
        rw [hrest] at h
        cases h
      | ok qs =>
        rw [hrest] at h
        cases h
        rw [List.map_cons, ← ih hrest]

theorem Delivers.slot_lt {r : UInt64 × Bytes} (h : Delivers resolved r) :
    r.1.toNat < resolved.length := by
  obtain ⟨-, e, he, -⟩ := h
  exact (List.getElem?_eq_some_iff.mp he).1

theorem attachPayloads_eq_ok {ps : List Bytes} :
    attachPayloadsFromChannelResults resolved results = .ok ps ↔
      (results.map (·.1.toNat)).Perm (List.range resolved.length) ∧
        (∀ r ∈ results, Delivers resolved r) ∧
        Scatter.fill (List.replicate resolved.length none) (slotted results) = ps.map some := by
  have htable : (List.replicate resolved.length (none : Option Bytes)).length = resolved.length :=
    List.length_replicate
  rw [Scatter.perm_range_iff, List.length_map]
  unfold attachPayloadsFromChannelResults
  simp only [bind, Except.bind, throw, throwThe, MonadExceptOf.throw, ite_error_eq_ok,
    not_not]
  constructor
  · intro ⟨hlen, h⟩
    split at h
    · cases h
    · next t hscatter =>
      obtain ⟨hall, hnodup, rfl⟩ := (scatter_ok htable).mp hscatter
      refine ⟨⟨hlen, hnodup, ?_⟩, fun r hr => (hall r hr).1, eq_of_takePayloads h⟩
      intro s hs
      obtain ⟨r, hr, rfl⟩ := List.mem_map.mp hs
      exact (hall r hr).1.slot_lt
  · intro ⟨⟨hlen, hnodup, _⟩, hall, hfill⟩
    have hscatter : results.foldlM (placePayload resolved)
        (List.replicate resolved.length none) = .ok (ps.map some) := by
      refine (scatter_ok htable).mpr ⟨fun r hr => ⟨hall r hr, ?_⟩, hnodup, hfill.symm⟩
      rw [List.getElem?_replicate, if_pos (hall r hr).slot_lt]
    refine ⟨hlen, ?_⟩
    rw [hscatter]
    exact takePayloads_map ps 0

theorem attachPayloads_ok :
    ((∃ ps, attachPayloadsFromChannelResults resolved results = .ok ps) ↔
      (results.map (·.1.toNat)).Perm (List.range resolved.length) ∧
        ∀ r ∈ results, Delivers resolved r) ∧
    ∀ ps, attachPayloadsFromChannelResults resolved results = .ok ps →
      ps.length = resolved.length ∧ ∀ r ∈ results, ps[r.1.toNat]? = some r.2 := by
  have hfilled (hperm : (results.map (·.1.toNat)).Perm (List.range resolved.length)) :
      ∃ as : List Bytes,
        Scatter.fill (List.replicate resolved.length none) (slotted results) = as.map some ∧
        as.length = resolved.length ∧ ∀ r ∈ results, as[r.1.toNat]? = some r.2 := by
    have hslots : ((slotted results).map (·.1)).Perm
        (List.range (List.replicate resolved.length (none : Option Bytes)).length) := by
      rwa [map_fst_slotted, List.length_replicate]
    obtain ⟨as, has, hlen, hget⟩ := Scatter.exists_fill_eq hslots
    rw [List.length_replicate] at hlen
    exact ⟨as, has, hlen, fun r hr => hget _ (List.mem_map_of_mem hr)⟩
  refine ⟨⟨fun ⟨ps, h⟩ => ?_, fun ⟨hperm, hall⟩ => ?_⟩, fun ps h => ?_⟩
  · obtain ⟨hperm, hall, -⟩ := attachPayloads_eq_ok.mp h
    exact ⟨hperm, hall⟩
  · obtain ⟨as, has, -, -⟩ := hfilled hperm
    exact ⟨as, attachPayloads_eq_ok.mpr ⟨hperm, hall, has⟩⟩
  · obtain ⟨hperm, -, hps⟩ := attachPayloads_eq_ok.mp h
    obtain ⟨as, has, hlen, hget⟩ := hfilled hperm
    have heq : as = ps := List.map_injective_iff.mpr (Option.some_injective _) (has.symm.trans hps)
    exact heq ▸ ⟨hlen, hget⟩

/-! ## Attempts and messages -/

section Attempts

omit [Primitives]

variable {α : Type} {elapsed : Nat → Nat} {attempt : Nat → Except ClientError α}

def IsLast (elapsed : Nat → Nat) (attempt : Nat → Except ClientError α) (k : Nat) : Prop :=
  ∀ e, attempt k = .error e → isRetryable e = true → maxElapsed ≤ elapsed k

theorem withRetry_of_isLast {n fuel : Nat} {b : Backoff} (h : IsLast elapsed attempt n) :
    withRetry elapsed attempt (fuel + 1) n b = some (attempt n) := by
  unfold withRetry
  cases hn : attempt n with
  | ok v => rfl
  | error e =>
    unfold afterAttempt
    by_cases hretry : isRetryable e = true
    · dsimp only
      rw [if_pos hretry, if_pos (h e hn hretry)]
    · dsimp only
      rw [if_neg hretry]

theorem withRetry_of_not_isLast {n fuel : Nat} {b : Backoff} (h : ¬ IsLast elapsed attempt n) :
    withRetry elapsed attempt (fuel + 1) n b = withRetry elapsed attempt fuel (n + 1) b.next := by
  unfold IsLast at h
  push Not at h
  obtain ⟨e, hn, hretry, htime⟩ := h
  conv_lhs => unfold withRetry
  rw [hn, afterAttempt, if_pos hretry, if_neg (Nat.not_le.mpr htime)]

theorem withRetry_finds_last (fuel n : Nat) (b : Backoff) (h : IsLast elapsed attempt (n + fuel)) :
    ∃ k ≤ n + fuel, withRetry elapsed attempt (fuel + 1) n b = some (attempt k) ∧
      IsLast elapsed attempt k ∧ ∀ j, n ≤ j → j < k → ¬ IsLast elapsed attempt j := by
  induction fuel generalizing n b with
  | zero => exact ⟨n, le_rfl, withRetry_of_isLast h, h, fun j hj hlt => by omega⟩
  | succ fuel ih =>
    by_cases hlast : IsLast elapsed attempt n
    · exact ⟨n, by omega, withRetry_of_isLast hlast, hlast, fun j hj hlt => by omega⟩
    · obtain ⟨k, hk, hrun, hkl, hfirst⟩ := ih (n + 1) b.next (by rwa [Nat.add_right_comm])
      refine ⟨k, by omega, by rw [withRetry_of_not_isLast hlast, hrun], hkl, fun j hj hlt => ?_⟩
      rcases Nat.eq_or_lt_of_le hj with rfl | hj
      · exact hlast
      · exact hfirst j hj hlt

def Backoff.slept (n : Nat) : Nat :=
  ((List.range n).map fun i => (Backoff.next^[i] .start).sleepDur).sum

theorem withRetry_const (x : Except ClientError α)
    (hclock : ∀ n, n * initialDelay ≤ elapsed n) {fuel : Nat} (hfuel : 600 < fuel) :
    withRetry elapsed (fun _ => x) fuel 0 .start = some x := by
  obtain ⟨fuel, rfl⟩ : ∃ k, fuel = k + 1 := ⟨fuel - 1, by omega⟩
  have hlast : IsLast elapsed (fun _ => x) (0 + fuel) := by
    intro _ _ _
    have htime := hclock (0 + fuel)
    unfold initialDelay at htime
    unfold maxElapsed
    omega
  obtain ⟨k, -, hrun, -⟩ := withRetry_finds_last fuel 0 .start hlast
  exact hrun

/-- However the attempts end and however long they take, there are at most 13 of them: the loop
returns the result of the first one that succeeds, fails for good or ends after the time is up. -/
theorem with_retry_ends (attempt : Nat → Except ClientError α)
    (hsleep : ∀ n, elapsed n + (Backoff.next^[n] .start).sleepDur ≤ elapsed (n + 1)) :
    ∃ k ≤ 12, withRetry elapsed attempt 13 0 .start = some (attempt k) ∧
      IsLast elapsed attempt k ∧ ∀ j < k, ¬ IsLast elapsed attempt j := by
  have hslept : ∀ n, Backoff.slept n ≤ elapsed n := by
    intro n
    induction n with
    | zero => exact Nat.zero_le _
    | succ n ih =>
      rw [Backoff.slept, List.range_succ, List.map_append, List.sum_append]
      exact le_trans (Nat.add_le_add_right ih _) (by simpa using hsleep n)
  have hlast : IsLast elapsed attempt 12 := fun _ _ _ =>
    le_trans (by decide : maxElapsed ≤ Backoff.slept 12) (hslept 12)
  obtain ⟨k, hk, hrun, hkl, hfirst⟩ := withRetry_finds_last 12 0 .start hlast
  exact ⟨k, hk, hrun, hkl, fun j hj => hfirst j (Nat.zero_le j) hj⟩

end Attempts

def received (hashesOnly : Bool) (e : PageEntry) : PageEntry :=
  (e.1, e.2.1, if hashesOnly || (e.2.2.getD []).isEmpty then none else some (e.2.2.getD []))

variable {hashesOnly : Bool}

omit [Primitives] in
theorem receivePage_toResolvedPage (e : PageEntry) :
    receivePage hashesOnly (toResolvedPage e) = .ok (received hashesOnly e) := by
  have hlen : ¬ e.2.1.bytes.length ≠ 32 := not_not.mpr e.2.1.length_bytes
  have hhash : Digest.ofBytes e.2.1.bytes = e.2.1 := Digest.ext (Digest.bytes_ofBytes e.2.1.length_bytes)
  rw [receivePage, toResolvedPage, if_neg hlen, hhash]
  rfl

omit [Primitives] in
theorem receivePage_batch (es : List PageEntry) :
    (es.map toResolvedPage).mapM (receivePage hashesOnly) = .ok (es.map (received hashesOnly)) := by
  induction es with
  | nil => rfl
  | cons e es ih =>
    rw [List.map_cons, List.mapM_cons, receivePage_toResolvedPage, ih]
    rfl

omit [Primitives] in
theorem receivePages_sendPages (pre es : List PageEntry) :
    receivePages hashesOnly (sendPages (pre.map toResolvedPage) (es.map .ok)) =
      .ok ((pre ++ es).map (received hashesOnly)) := by
  induction es generalizing pre with
  | nil =>
    rw [List.map_nil, sendPages, List.append_nil]
    split
    · next hnil =>
      rw [List.map_eq_nil_iff.mp hnil]
      rfl
    · rw [receivePages, receivePage_batch]
      simp [receivePages, bind, Except.bind, pure, Except.pure]
  | cons e es ih =>
    have hnext : pre.map toResolvedPage ++ [toResolvedPage e] =
        (pre ++ [e]).map toResolvedPage := by rw [List.map_append, List.map_singleton]
    rw [List.map_cons, sendPages, hnext]
    split
    · have hrest := ih []
      rw [List.map_nil, List.nil_append] at hrest
      rw [receivePages, receivePage_batch]
      simp only [bind, Except.bind, pure, Except.pure, hrest]
      simp
    · rw [ih, List.append_assoc, List.singleton_append]

/-! ## A store behind both ways -/

/-- What the store of the server holds for a request: the resolved entries, or the status of the
error, and the pages. -/
structure StoredSnapshot where
  entries : Except Status (List (Nat × PageHash))
  page : PageHash → Page
  length_lt : ∀ es, entries = .ok es → es.length < isizeBound
  hash_page : ∀ es, entries = .ok es → ∀ e ∈ es, blake3 (page e.2).bytes = e.2

namespace StoredSnapshot

variable (s : StoredSnapshot)

def item (hashesOnly : Bool) (e : Nat × PageHash) : PageEntry :=
  (e.1, e.2, if hashesOnly then none else some (s.page e.2).bytes)

def messages (hashesOnly : Bool) : List ResolveMessage :=
  match s.entries with
  | .error st => [.error st]
  | .ok es => sendPages [] (es.map fun e => .ok (s.item hashesOnly e))

def answer (hashesOnly : Bool) : Except ClientError (List PageEntry) :=
  match s.entries with
  | .error st => .error (decodeStatus st)
  | .ok es => .ok (es.map (s.item hashesOnly))

/-- Every attempt is answered from this store, and time passes. -/
structure Answers (g : Grpc) : Prop where
  messages : ∀ hashesOnly n, g.messages hashesOnly n = s.messages hashesOnly
  clock : ∀ hashesOnly n, n * initialDelay ≤ g.elapsed hashesOnly n

/-- A `get_batch` is answered with the stored pages, in any order. -/
def Fetches (reqs : List (PageHash × UInt64)) (answer : Except ChannelError Fetched) : Prop :=
  ∃ got, answer = .ok got ∧ got.Perm (reqs.map fun r => (r.2, (s.page r.1).bytes))

end StoredSnapshot

variable {s : StoredSnapshot} {g : Grpc}

theorem received_item (e : Nat × PageHash) :
    received hashesOnly (s.item hashesOnly e) = s.item hashesOnly e := by
  have hpage : (s.page e.2).bytes.isEmpty = false := by
    have hlen := (s.page e.2).length_bytes
    cases hb : (s.page e.2).bytes with
    | nil =>
      rw [hb] at hlen
      cases hlen
    | cons => rfl
  cases hashesOnly <;> simp [received, StoredSnapshot.item, hpage]

theorem resolvePagesViaGrpc_eq (h : s.Answers g) {fuel : Nat} (hfuel : 600 < fuel) :
    g.resolvePagesViaGrpc hashesOnly fuel = some (s.answer hashesOnly) := by
  have hattempt : (fun n => receivePages hashesOnly (g.messages hashesOnly n)) =
      fun _ => receivePages hashesOnly (s.messages hashesOnly) := by
    funext n
    rw [h.messages]
  rw [Grpc.resolvePagesViaGrpc, hattempt, withRetry_const _ (h.clock hashesOnly) hfuel,
    StoredSnapshot.messages, StoredSnapshot.answer]
  cases s.entries with
  | error st => rfl
  | ok es =>
    have hsent : receivePages hashesOnly (sendPages [] ((es.map (s.item hashesOnly)).map .ok)) =
        .ok ((es.map (s.item hashesOnly)).map (received hashesOnly)) := receivePages_sendPages [] _
    rw [List.map_map, List.map_map] at hsent
    have hitems : received hashesOnly ∘ s.item hashesOnly = s.item hashesOnly :=
      funext received_item
    rw [hitems] at hsent
    exact congrArg some hsent

omit [Primitives] in
theorem zipIdx_chunks {α : Type} {n fuel : Nat} (hn : 0 < n) (l : List α) (k : Nat)
    (hfuel : l.length ≤ fuel) :
    ((chunks n fuel l).zipIdx k).flatMap (fun c => c.1.zipIdx (c.2 * n)) = l.zipIdx (k * n) := by
  induction fuel generalizing l k with
  | zero =>
    obtain rfl : l = [] := List.length_eq_zero_iff.mp (by omega)
    rfl
  | succ fuel ih =>
    cases l with
    | nil => rfl
    | cons a l =>
      have hdrop : ((a :: l).drop n).length ≤ fuel := by
        rw [List.length_cons] at hfuel
        rw [List.length_drop, List.length_cons]
        omega
      have hsplit : (a :: l).zipIdx (k * n) = ((a :: l).take n).zipIdx (k * n) ++
          ((a :: l).drop n).zipIdx (k * n + ((a :: l).take n).length) := by
        rw [← List.zipIdx_append, List.take_append_drop]
      rw [chunks, List.zipIdx_cons, List.flatMap_cons, ih _ _ hdrop, hsplit]
      by_cases hlong : n ≤ (a :: l).length
      · rw [List.length_take_of_le hlong, Nat.succ_mul]
      · rw [List.drop_eq_nil_of_le (by omega)]
        rfl
      · exact fun h => by cases h

omit [Primitives] in
theorem getBatchCalls_flatMap (resolved : List (Nat × PageHash)) :
    (getBatchCalls resolved).flatMap (·.2) =
      resolved.zipIdx.map fun e => (e.1.2, UInt64.ofNat e.2) := by
  have hzip := zipIdx_chunks (n := getBatchMaxPerDatagram) (by decide) resolved 0 (Nat.le_refl _)
  rw [Nat.zero_mul] at hzip
  rw [← hzip, getBatchCalls, List.flatMap_map, List.map_flatMap]
  congr 1
  funext c
  rw [List.zipIdx_eq_map_add, List.map_map]
  refine List.map_congr_left fun e _ => ?_
  simp [Nat.add_comm]

theorem fetch_calls {pc : ChannelAnswers} {calls : List (Nat × List (PageHash × UInt64))}
    (h : ∀ c ∈ calls, s.Fetches c.2 (pc c.1 c.2)) (pre : Fetched) :
    ∃ got, calls.foldlM (fun results call => do
        let got ← (pc call.1 call.2).mapError classifyGetBatchError
        return results ++ got) pre = .ok (pre ++ got) ∧
      got.Perm ((calls.flatMap (·.2)).map fun r => (r.2, (s.page r.1).bytes)) := by
  induction calls generalizing pre with
  | nil => exact ⟨[], by rw [List.append_nil]; rfl, .refl _⟩
  | cons c calls ih =>
    obtain ⟨first, hfirst, hperm⟩ := h c List.mem_cons_self
    obtain ⟨rest, hrest, hperm'⟩ := ih (fun c' hc' => h c' (List.mem_cons_of_mem c hc')) (pre ++ first)
    refine ⟨first ++ rest, ?_, ?_⟩
    · rw [List.foldlM_cons, hfirst]
      rw [List.append_assoc] at hrest
      exact hrest
    · rw [List.flatMap_cons, List.map_append]
      exact hperm.append hperm'

theorem resolvePayloads_eq {es : List (Nat × PageHash)} {pc : ChannelAnswers}
    (hlen : es.length < isizeBound) (hhash : ∀ e ∈ es, blake3 (s.page e.2).bytes = e.2)
    (h : ∀ c ∈ getBatchCalls es, s.Fetches c.2 (pc c.1 c.2)) (hne : es ≠ []) :
    resolvePayloadsViaChannel pc es = .ok (es.map fun e => (s.page e.2).bytes) := by
  obtain ⟨got, hgot, hperm⟩ := fetch_calls h []
  rw [getBatchCalls_flatMap, List.map_map] at hperm
  -- a delivery is the page of an entry, for the slot of that entry
  have hslot {i : Nat} (hi : i < es.length) : (UInt64.ofNat i).toNat = i :=
    UInt64.toNat_ofNat_of_lt' (lt_trans (lt_trans hi hlen) (by decide))
  have hmem {r : UInt64 × Bytes} (hr : r ∈ got) :
      ∃ i e, es[i]? = some e ∧ r.1.toNat = i ∧ r.2 = (s.page e.2).bytes := by
    obtain ⟨⟨e, i⟩, he, rfl⟩ := List.mem_map.mp (hperm.subset hr)
    have hget := List.mem_zipIdx_iff_getElem?.mp he
    exact ⟨i, e, hget, hslot (List.getElem?_eq_some_iff.mp hget).1, rfl⟩
  have hslots : (got.map (·.1.toNat)).Perm (List.range es.length) := by
    have hnumbers : es.zipIdx.map (fun e => (UInt64.ofNat e.2).toNat) = List.range es.length := by
      rw [List.range_eq_range', ← List.zipIdx_map_snd]
      refine List.map_congr_left fun e he => hslot ?_
      exact (List.getElem?_eq_some_iff.mp (List.mem_zipIdx_iff_getElem?.mp he)).1
    have hgotSlots := hperm.map (·.1.toNat)
    rw [List.map_map] at hgotSlots
    exact hgotSlots.trans (.of_eq hnumbers)
  have hdelivers : ∀ r ∈ got, Delivers es r := by
    intro r hr
    obtain ⟨i, e, he, hi, hpage⟩ := hmem hr
    refine ⟨?_, e, by rw [hi, he], ?_⟩
    · rw [hpage]
      exact (s.page e.2).length_bytes
    · rw [hpage]
      exact hhash e (List.mem_of_getElem? he)
  obtain ⟨ps, hps⟩ := attachPayloads_ok.1.mpr ⟨hslots, hdelivers⟩
  obtain ⟨hpsLen, hpsGet⟩ := attachPayloads_ok.2 ps hps
  have heq : ps = es.map fun e => (s.page e.2).bytes := by
    apply List.ext_getElem?
    intro i
    by_cases hi : i < es.length
    · have hreq : (UInt64.ofNat i, (s.page es[i].2).bytes) ∈ got := by
        apply hperm.symm.subset
        refine List.mem_map.mpr ⟨(es[i], i), ?_, rfl⟩
        exact List.mem_zipIdx_iff_getElem?.mpr (List.getElem?_eq_getElem hi)
      have hget := hpsGet _ hreq
      rw [hslot hi] at hget
      rw [hget, List.getElem?_map, List.getElem?_eq_getElem hi]
      rfl
    · rw [List.getElem?_eq_none (by omega), List.getElem?_eq_none (by rw [List.length_map]; omega)]
  rw [resolvePayloadsViaChannel, if_neg hne]
  simp only [bind, Except.bind, pure, Except.pure] at hgot ⊢
  rw [hgot, List.nil_append]
  dsimp only
  rw [hps, heq]
  rfl

theorem resolvePages_channel {pc : ChannelAnswers} (h : s.Answers g)
    (hfetch : ∀ es, s.entries = .ok es → ∀ c ∈ getBatchCalls es, s.Fetches c.2 (pc c.1 c.2))
    {fuel : Nat} (hfuel : 600 < fuel) :
    resolvePages g (some pc) hashesOnly fuel = resolvePages g none hashesOnly fuel := by
  cases hashesOnly with
  | true => rfl
  | false =>
    unfold resolvePages
    simp only [resolvePagesViaGrpc_eq h hfuel, Option.bind_some, Option.map_some,
      StoredSnapshot.answer]
    cases hes : s.entries with
    | error st => rfl
    | ok es =>
      dsimp only
      by_cases hnil : es = []
      · subst hnil
        rfl
      · have hhashes : (es.map (s.item true)).map (fun e => (e.1, e.2.1)) = es := by
          rw [List.map_map]
          exact List.map_id es
        rw [if_neg (by simpa using hnil), hhashes, resolvePayloads_eq (s.length_lt es hes)
          (s.hash_page es hes) (hfetch es hes) hnil]
        have hzip : es.zip (es.map fun e => (s.page e.2).bytes) =
            es.map fun e => (e, (s.page e.2).bytes) := by
          have hmap := @List.zip_map' _ _ _ id (fun e => (s.page e.2).bytes) es
          rwa [List.map_id] at hmap
        dsimp only
        rw [hzip, List.map_map]
        rfl

/-- Payloads of the channel are attached exactly if they are complete and right, each at the slot
it was delivered for.  So if every `get_batch` fetches the stored pages, a client with a channel
returns what a client without one returns. -/
theorem channel_payloads_attached (s : StoredSnapshot) (g : Grpc) (pc : ChannelAnswers)
    (h : s.Answers g)
    (hfetch : ∀ es, s.entries = .ok es → ∀ c ∈ getBatchCalls es, s.Fetches c.2 (pc c.1 c.2)) :
    (∀ (resolved : List (Nat × PageHash)) (results : Fetched),
      ((∃ ps, attachPayloadsFromChannelResults resolved results = .ok ps) ↔
        (results.map (·.1.toNat)).Perm (List.range resolved.length) ∧
          ∀ r ∈ results, r.2.length = 4096 ∧
            ∃ e, resolved[r.1.toNat]? = some e ∧ blake3 r.2 = e.2) ∧
      ∀ ps, attachPayloadsFromChannelResults resolved results = .ok ps →
        ps.length = resolved.length ∧ ∀ r ∈ results, ps[r.1.toNat]? = some r.2) ∧
    ∀ hashesOnly fuel, 600 < fuel →
      resolvePages g none hashesOnly fuel = some ((s.answer hashesOnly).mapError .error) ∧
        resolvePages g (some pc) hashesOnly fuel =
          some ((s.answer hashesOnly).mapError .error) := by
  refine ⟨fun resolved results => attachPayloads_ok, fun hashesOnly fuel hfuel => ?_⟩
  have hgrpc : resolvePages g none hashesOnly fuel =
      some ((s.answer hashesOnly).mapError .error) := by
    cases hashesOnly <;> simp only [resolvePages, resolvePagesViaGrpc_eq h hfuel, Option.map_some]
  exact ⟨hgrpc, (resolvePages_channel h hfetch hfuel).trans hgrpc⟩

end

namespace Sample

attribute [local instance] SnapStore.Sample.primitives

def page : Page := SnapStore.Sample.page 7

def snapshot : StoredSnapshot where
  entries := .ok [(3, blake3 page.bytes), (7, blake3 page.bytes)]
  page := fun _ => page
  length_lt := by
    rintro es ⟨⟩
    decide
  hash_page := by
    rintro es ⟨⟩ e he
    simp only [List.mem_cons, List.not_mem_nil, or_false] at he
    rcases he with rfl | rfl <;> rfl

def grpc : Grpc := ⟨fun _ n => n * initialDelay, fun hashesOnly _ => snapshot.messages hashesOnly⟩

def channel : ChannelAnswers := fun _ reqs => .ok (reqs.map fun r => (r.2, page.bytes)).reverse

theorem channel_payloads_attached_reversed :
    resolvePages grpc (some channel) false 601 =
        some (.ok [(3, blake3 page.bytes, some page.bytes), (7, blake3 page.bytes, some page.bytes)]) ∧
      resolvePages grpc none false 601 =
        some (.ok [(3, blake3 page.bytes, some page.bytes),
          (7, blake3 page.bytes, some page.bytes)]) := by
  have hanswers : snapshot.Answers grpc := ⟨fun _ _ => rfl, fun _ _ => Nat.le_refl _⟩
  have hboth := (channel_payloads_attached snapshot grpc channel hanswers
    (fun es _ c _ => ⟨_, rfl, List.reverse_perm _⟩)).2 false 601 (by decide)
  exact ⟨hboth.2, hboth.1⟩

theorem refused_calls_end : ∃ k ≤ 12,
    withRetry (· * maxDelay) (fun n => .error (α := Unit) (.transport s!"attempt {n}")) 13 0 .start =
      some (.error (.transport s!"attempt {k}")) := by
  have hsleep (n : Nat) : n * maxDelay + (Backoff.next^[n] .start).sleepDur ≤ (n + 1) * maxDelay := by
    rw [Nat.succ_mul]
    exact Nat.add_le_add_left (Nat.min_le_right _ _) _
  obtain ⟨k, hk, hrun, -⟩ :=
    with_retry_ends (fun n => .error (α := Unit) (.transport s!"attempt {n}")) hsleep
  exact ⟨k, hk, hrun⟩

end Sample

end SnapStore.Client

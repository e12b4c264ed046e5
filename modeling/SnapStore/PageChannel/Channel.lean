import SnapStore.Conc.Machine
import SnapStore.Pagestore.PageStore
import SnapStore.PageChannel.Proto

/-!
# One page channel: a client, a connection loop and the socket between them

The socket is a queue of requests and a queue of replies.  The client's calls run one after
another; the connection loop runs beside them, one datagram at a time.
-/

namespace SnapStore.PageChannel

open Disk Conc

variable [Primitives]

structure Memfd where
  content : Bytes
  sealed : Bool

structure Datagram where
  bytes : Bytes
  fd : Option Memfd

inductive ChannelError where
  | wire (e : WireError)
  | io
  | peer (code : ErrorCode) (detail : String)
  | protocol (detail : String)
  | crossCheckMismatch (expected actual : String)
  | panicked

/-- What the handlers of the server meet at one datagram.  An `Option String` is the text of the
error of a call, if it fails. -/
structure ServerEnv where
  getSeals : Option String
  fstat : Option String
  inFlight : Int
  mmap : Option String
  ingest : List Bytes → Except String (List IngestOutcome)
  getBatch : List PageHash → Except String (List (Option Page))
  createMemfd : Option String
  writePages : Option String
  sealMemfd : Option String
  /-- `PageStore::get_batch`: one result per hash, and a page it finds has the hash asked for. -/
  getBatch_ok : ∀ hs rs, getBatch hs = .ok rs →
    List.Forall₂ (fun h r => ∀ p, r = some p → blake3 p.bytes = h) hs rs

structure ServerConfig where
  ingestQueuePages : UInt32
  corruptCrossCheckForTest : Bool

/-! ## The connection loop -/

def errorReply (seq : UInt64) (code : ErrorCode) (detail : String) : Datagram :=
  ⟨encodeError seq code detail, none⟩

def corruptDigest (d : Digest) : Digest :=
  Digest.ofBytes (writeAt d.bytes 0 ((d.bytes.take 1).map (· ^^^ 0xff)))

def handlePutBatch (cfg : ServerConfig) (env : ServerEnv) (hdr : PcHdr) (body : Bytes)
    (fd : Option Memfd) : Datagram × Bool :=
  match decodePutBatch hdr body with
  | .error e => (errorReply hdr.seq .invalid e.toString, true)
  | .ok count =>
  match fd with
  | none => (errorReply hdr.seq .invalid "PUT_BATCH requires a memfd", true)
  | some fd =>
  match env.getSeals with
  | some e => (errorReply hdr.seq .invalid s!"F_GET_SEALS: {e}", true)
  | none =>
  if !fd.sealed then
    (errorReply hdr.seq .invalid "memfd is not sealed with F_SEAL_WRITE|F_SEAL_SHRINK", false)
  else
  match env.fstat with
  | some e => (errorReply hdr.seq .invalid s!"fstat: {e}", true)
  | none =>
  let expectedLen := count.toNat * pageSize
  if fd.content.length ≠ expectedLen then
    (errorReply hdr.seq .invalid
      s!"memfd size {fd.content.length} != count*4096 = {expectedLen}", false)
  else if env.inFlight + count.toNat > cfg.ingestQueuePages.toNat then
    (errorReply hdr.seq .overload s!"ingest queue full ({env.inFlight} in-flight)", false)
  else
  match env.mmap with
  | some e => (errorReply hdr.seq .invalid s!"mmap pages: {e}", true)
  | none =>
  match env.ingest (asChunks pageSize fd.content) with
  | .error e => (errorReply hdr.seq .invalid s!"ingest: {e}", true)
  | .ok outcomes =>
    let pagesNew := outcomes.countP (·.newlyWritten)
    let check := batchCrossCheck (outcomes.map (·.hash))
    (⟨encodePutBatchOk hdr.seq count ⟨.ofNat pagesNew, .ofNat (outcomes.length - pagesNew),
      if cfg.corruptCrossCheckForTest then corruptDigest check else check⟩, none⟩, false)

def handleGetBatch (env : ServerEnv) (hdr : PcHdr) (body : Bytes) : Datagram × Bool :=
  match decodeGetBatch hdr body with
  | .error e => (errorReply hdr.seq .invalid e.toString, true)
  | .ok reqs =>
  let hashes := reqs.map (·.pageHash)
  match env.getBatch hashes with
  | .error e => (errorReply hdr.seq .invalid s!"get_batch: {e}", true)
  | .ok results =>
  match (hashes.zip results).find? (·.2.isNone) with
  | some missing =>
    (errorReply hdr.seq .notFound s!"page not found: {hex missing.1.bytes}", false)
  | none =>
  match env.createMemfd with
  | some e => (errorReply hdr.seq .invalid s!"create memfd: {e}", true)
  | none =>
  match env.writePages with
  | some e => (errorReply hdr.seq .invalid s!"write pages: {e}", true)
  | none =>
  match env.sealMemfd with
  | some e => (errorReply hdr.seq .invalid s!"seal memfd: {e}", true)
  | none =>
    let pages := results.filterMap id
    -- `set_len` makes the memfd as long as the request asks for
    (⟨encodeGetBatchData hdr.seq reqs,
      some ⟨padTo (pages.flatMap (·.bytes)) (reqs.length * pageSize), false⟩⟩, false)

/-- One turn of `connection_loop`, after `recv_datagram`. -/
def answer (cfg : ServerConfig) (env : ServerEnv) (dgram : Datagram) : Datagram × Bool :=
  match decodeHdr dgram.bytes with
  | .error e => (errorReply 0 .invalid s!"bad header: {e.toString}", true)
  | .ok (hdr, body) =>
  match hdr.msg with
  | .putBatch => handlePutBatch cfg env hdr body dgram.fd
  | .getBatch => handleGetBatch env hdr body
  | other => (errorReply hdr.seq .invalid s!"unexpected msg kind {other.debug}", true)

structure Channel where
  seq : UInt64
  requests : List Datagram
  handling : Option Datagram
  replies : List Datagram
  closed : Bool
  /-- Ghost: the datagrams each call has sent and has received. -/
  sent : List (Tid × Datagram)
  used : List (Tid × Datagram)

def Channel.connect : Channel := ⟨0, [], none, [], false, [], []⟩

/-- What the environment decides at one step: whether an I/O call of the client fails, whether
the server's `recv_datagram` does, and what the handlers meet. -/
structure Env where
  clientFails : Bool
  recvFails : Bool
  server : ServerEnv

abbrev P (α : Type) : Type 1 := Prog Env Channel α

abbrev C (α : Type) : Type 1 := ExceptT ChannelError (Prog Env Channel) α

def Channel.close (s : Channel) : Channel :=
  { s with requests := [], handling := none, closed := true }

def serve (cfg : ServerConfig) : P Unit := do
  let dgram ← Prog.await fun e s =>
    match s.closed, s.requests with
    | true, _ => none
    | false, d :: rest =>
      if e.recvFails then some (none, s.close)
      else some (some d, { s with requests := rest, handling := some d })
    | false, [] => if e.recvFails then some (none, s.close) else none
  match dgram with
  | none => return ()
  | some d =>
    let close ← Prog.atomic fun e s =>
      let (reply, close) := answer cfg e.server d
      (close, { s with handling := none, replies := s.replies ++ [reply] })
    if close then
      Prog.update Channel.close

/-! ## The client -/

structure PutOutcome where
  pagesNew : UInt32
  pagesDeduped : UInt32

def nextSeq : P UInt64 := Prog.atomic fun _ s => (s.seq, { s with seq := s.seq + 1 })

def ioCall : C Unit := ExceptT.mk <| Prog.atomic fun e s =>
  if e.clientFails then (.error .io, s) else (.ok (), s)

def sendDatagram (t : Tid) (bytes : Bytes) (fd : Option Memfd) : C Unit :=
  ExceptT.mk <| Prog.atomic fun e s =>
    if e.clientFails ∨ s.closed = true then (.error .io, s)
    else (.ok (), { s with
      requests := s.requests ++ [⟨bytes, fd⟩]
      sent := s.sent ++ [(t, ⟨bytes, fd⟩)] })

/-- `None` is the end of the connection. -/
def recvDatagram (t : Tid) : C (Option Datagram) :=
  ExceptT.mk <| Prog.await fun e s =>
    if e.clientFails then some (.error .io, s)
    else
      match s.replies with
      | [] => if s.closed then some (.ok none, s) else none
      | d :: rest =>
        let s := { s with replies := rest, used := s.used ++ [(t, d)] }
        if d.bytes.length > datagramMax then
          some (.error (.protocol "datagram exceeded the 64 KiB cap (MSG_TRUNC)"), s)
        else if d.bytes = [] ∧ d.fd.isNone = true then some (.ok none, s)
        else some (.ok (some d), s)

def recvReply (t : Tid) (closed : String) : C Datagram := do
  match ← recvDatagram t with
  | some d => return d
  | none => throw (.protocol closed)

def fromWire {α : Type} : Except WireError α → C α
  | .ok a => pure a
  | .error e => throw (.wire e)

def putBatch (t : Tid) (pages : List Page) : C PutOutcome := do
  if pages.length > putBatchMaxPages then
    throw .panicked
  if pages = [] then
    throw .panicked
  let localCrossCheck := batchCrossCheck (pages.map fun p => blake3 p.bytes)
  ioCall
  let seq ← nextSeq
  sendDatagram t (encodePutBatch seq (.ofNat pages.length))
    (some ⟨pages.flatMap (·.bytes), true⟩)
  let dgram ← recvReply t "server closed connection after PUT_BATCH"
  let (hdr, body) ← fromWire (decodeHdr dgram.bytes)
  match hdr.msg with
  | .putBatchOk =>
    let ok ← fromWire (decodePutBatchOk body)
    if ok.batchBlake3 ≠ localCrossCheck then
      throw (.crossCheckMismatch (hex localCrossCheck.bytes) (hex ok.batchBlake3.bytes))
    return ⟨ok.pagesNew, ok.pagesDeduped⟩
  | .error =>
    let err ← fromWire (decodeError body)
    throw (.peer err.code err.detail)
  | other => throw (.protocol s!"unexpected reply to PUT_BATCH: {other.debug}")

/-- `slice::chunks`: pieces of `n` elements, the last one shorter. -/
def chunks {α : Type} (n : Nat) : Nat → List α → List (List α)
  | 0, _ => []
  | _ + 1, [] => []
  | fuel + 1, l => l.take n :: chunks n fuel (l.drop n)

abbrev Chunk := UInt64 × List GetReq

abbrev Fetched := List (UInt64 × Bytes)

abbrev ReplyPages := List (UInt64 × Fetched)

def ReplyPages.insert (m : ReplyPages) (seq : UInt64) (pages : Fetched) : ReplyPages :=
  (seq, pages) :: m.filter (·.1 ≠ seq)

def ReplyPages.remove (m : ReplyPages) (seq : UInt64) : ReplyPages := m.filter (·.1 ≠ seq)

def collectReply (t : Tid) (replyPages : ReplyPages) : C ReplyPages := do
  let dgram ← recvReply t "server closed connection during GET_BATCH"
  let (hdr, body) ← fromWire (decodeHdr dgram.bytes)
  match hdr.msg with
  | .getBatchData =>
    let echoed ← fromWire (decodeGetBatchData hdr body)
    match dgram.fd with
    | none => throw (.protocol "GET_BATCH_DATA arrived without fd")
    | some fd =>
      ioCall
      let expectedLen := echoed.length * pageSize
      if fd.content.length ≠ expectedLen then
        throw (.protocol s!"GET_BATCH_DATA fd size {fd.content.length} != expected {expectedLen}")
      ioCall
      return replyPages.insert hdr.seq
        ((echoed.zip (asChunks pageSize fd.content)).map fun (req, page) => (req.dstSlot, page))
  | .error =>
    let err ← fromWire (decodeError body)
    throw (.peer err.code err.detail)
  | other => throw (.protocol s!"unexpected reply to GET_BATCH: {other.debug}")

def reassemble : List Chunk → ReplyPages → Fetched
  | [], _ => []
  | (seq, _) :: rest, replyPages =>
    (replyPages.lookup seq).getD [] ++ reassemble rest (replyPages.remove seq)

def toGetReq (r : PageHash × UInt64) : GetReq := ⟨r.1, r.2⟩

def buildChunks (reqs : List (PageHash × UInt64)) : C (List Chunk) :=
  (chunks getBatchMaxPerDatagram reqs.length reqs).foldlM (fun out chunk => do
    let seq ← nextSeq
    return out ++ [(seq, chunk.map toGetReq)]) []

def fetchChunks (t : Tid) (cs : List Chunk) : C Fetched := do
  cs.foldlM (fun _ c => sendDatagram t (encodeGetBatch c.1 c.2) none) ()
  let replyPages ← cs.foldlM (fun replyPages _ => collectReply t replyPages) []
  return reassemble cs replyPages

def getBatch (t : Tid) (reqs : List (PageHash × UInt64)) : C Fetched := do
  if reqs = [] then
    return []
  let cs ← buildChunks reqs
  fetchChunks t cs

/-! ## Client and server together -/

/-- A slice of requests; a Rust slice has at most `isize::MAX` bytes. -/
structure GetSlice where
  reqs : List (PageHash × UInt64)
  length_lt : reqs.length * getReqSize < 2 ^ 63

inductive Call where
  | put (pages : List Page)
  | get (slice : GetSlice)
  | serve

inductive Reply where
  | put (r : Except ChannelError PutOutcome)
  | get (r : Except ChannelError Fetched)
  | served

def body (cfg : ServerConfig) (t : Tid) : Call → P Reply
  | .put pages => do return .put (← (putBatch t pages).run)
  | .get slice => do return .get (← (getBatch t slice.reqs).run)
  | .serve => do
    serve cfg
    return .served

/-- The calls of the client follow one another, as do the turns of the connection loop. -/
def overlap : Call → Call → Prop
  | .serve, .serve => False
  | .serve, _ => True
  | _, .serve => True
  | _, _ => False

def machine (cfg : ServerConfig) : Machine Env Channel where
  Call := Call
  Reply := Reply
  body := body cfg
  boot := pure true
  overlap := overlap
  crash := fun _ _ => False

end SnapStore.PageChannel

import SnapStore.Pagestore.PageStore

/-!
# Recovery of the page store

`PageStore::open`: discover the packs, remove runts, seal every unsealed pack but the highest,
load or rebuild the sidecars, and reopen or create the active pack.  The index is local to the
recovery until it is installed.
-/

namespace SnapStore

open Disk Conc

variable [Primitives]

namespace PageStore

def packBytes (s : World) (p : PackId) : Option Bytes := s.pages.readName (.spk p)

def isPackSealed (s : World) (p : PackId) : Bool :=
  match packBytes s p with
  | none => false
  | some b =>
    match PackReader.openSealed b with
    | .ok _ => true
    | .error _ => false

/-- A file shorter than the header is a crash between pack creation and the header write. -/
def removeRunt (kept : List PackId) (id : PackId) : PE (List PackId) :=
  attempt fun o s =>
    match packBytes s id with
    | none => .ok (kept ++ [id], s)
    | some b =>
      if b.length < packHeaderSize then
        match o.fault .pack .unlink with
        | some _ => .ok (kept, s)
        | none => .ok (kept, { s with pages := s.pages.unlink (.spk id) })
      else .ok (kept ++ [id], s)

def truncatePack (id : PackId) (bodyEnd : Nat) : PE Unit :=
  attempt fun o s =>
    match o.fault .pack .write, s.pages.lookup (.spk id) with
    | none, some f => .ok ((), { s with pages := s.pages.truncate f bodyEnd })
    | _, _ => .error (.pack (.io .other))

/-- `open_unsealed`: scan, then cut the file after the last good record; returns the end of the
records. -/
def openUnsealed (id : PackId) : PE Nat := do
  let (bodyEnd, _, cut) ← observe fun o s =>
    match o.fault .pack .openFile, packBytes s id with
    | some _, _ => .error (.pack (.io .other))
    | none, none => .error (.pack (.io .notFound))
    | none, some b => (PackReader.openUnsealed b).mapError .pack
  if cut then
    truncatePack id bodyEnd
    return bodyEnd
  else return bodyEnd

def scanFile (id : PackId) (bodyEnd : Nat) : PE (List (Nat × PageHash)) :=
  observe fun o s =>
    match o.fault .pack .read, packBytes s id with
    | some _, _ => .error (.pack (.io .other))
    | none, none => .error (.pack (.io .notFound))
    | none, some b => (PackReader.scan b bodyEnd).mapError .pack

def recoveredBody (b : Bytes) (records : List (Nat × PageHash)) : Except PackError Bytes :=
  records.foldlM (fun body r => do
    let (_, payload) ← PackReader.readAt b r.1
    return body ++ (r.2.bytes ++ [0x01] ++ leBytes 4 payload.length ++ payload)) []

def sealExistingPack (id : PackId) : PE (List (PageHash × PageLoc)) := do
  let bodyEnd ← openUnsealed id
  let records ← scanFile id bodyEnd
  let body ← observe fun o s =>
    match o.fault .pack .read, packBytes s id with
    | some _, _ => .error (.pack (.truncatedRecord 0))
    | none, none => .error (.pack (.io .notFound))
    | none, some b => (recoveredBody b records).mapError .pack
  let footer := packFooter records.length body
  let f ← action fun o s =>
    match o.fault .pack .write, s.pages.lookup (.spk id) with
    | _, none => (.error (.io .notFound), s)
    | some n, some f =>
      let fs := s.pages.write f (s.pages.content f).length (footer.take n)
      (.error (.io .other), { s with pages := fs })
    | none, some f =>
      let fs := s.pages.write f (s.pages.content f).length footer
      (.ok f, { s with pages := fs })
  attempt fun o s =>
    match o.fault .pack .sync with
    | some _ => .error (.io .other)
    | none => .ok ((), { s with pages := s.pages.fdatasync f })
  return records.map fun r => (r.2, ⟨id, r.1⟩)

def sealOld (ix : Index) (id : PackId) : PE Index := do
  let es ← sealExistingPack id
  writeSidecarEntries id es
  return ix.insertBatch es

def loadSidecar (id : PackId) : PE (Option (List (PageHash × PageLoc))) :=
  observe fun o s =>
    match o.fault .sidecar .read, s.pages.readName (.idx id) with
    | some _, _ => .ok none
    | none, none => .ok none
    | none, some b =>
      match decodeSidecar b with
      | .ok es => .ok (some es)
      | .error _ => .ok none

def rebuildFromPack (id : PackId) : PE (List (PageHash × PageLoc)) :=
  observe fun o s =>
    match o.fault .pack .openFile, packBytes s id with
    | some _, _ => .error (.index (.pack (.io .other)))
    | none, none => .error (.index (.pack (.io .notFound)))
    | none, some b =>
      match (do PackReader.scan b (← PackReader.openSealed b) : Except PackError _) with
      | .ok records => .ok (records.map fun r => (r.2, ⟨id, r.1⟩))
      | .error e => .error (.index (.pack e))

def loadSealed (ix : Index) (id : PackId) : PE Index := do
  match ← loadSidecar id with
  | some es => return ix.insertBatch es
  | none =>
    let es ← rebuildFromPack id
    writeSidecarEntries id es
    return ix.insertBatch es

def reopenPackForAppend (ix : Index) (id : PackId) : PE (PackWriter × Index) := do
  let bodyEnd ← openUnsealed id
  let records ← scanFile id bodyEnd
  let w ← observe fun o s =>
    match o.fault .pack .openFile, s.pages.lookup (.spk id) with
    | some _, _ => .error (.pack (.io .other))
    | none, none => .error (.pack (.io .notFound))
    | none, some f => (PackWriter.reopen f id (s.pages.content f)).mapError .pack
  return (w, ix.insertBatch (records.map fun r => (r.2, ⟨id, r.1⟩)))

/-- `PackId(id.0 + 1)`, which panics for the last `u32`. -/
def succPackId (id : PackId) : PE PackId :=
  if id + 1 < 2 ^ 32 then return id + 1 else throw .panicked

def freshPackId (ids : List PackId) : PE PackId :=
  match ids.getLast? with
  | some last => succPackId last
  | none => return 0

def createActive (opts : StoreOptions) (id : PackId) : PE PackWriter := do
  let f ← createPackFile id
  writePackHeader f id
  return PackWriter.fresh f id opts.maxPackBytes

/-- Reopen the highest unsealed pack or create a new active one, and set up the id allocator. -/
def openActive (opts : StoreOptions) (ids unsealed : List PackId) (ix : Index) :
    PE (Index × ActiveState) :=
  match unsealed.getLast? with
  | some id => do
    let (w, ix) ← reopenPackForAppend ix id
    return (ix, ⟨w, id, [], false, ← succPackId (ids.getLast?.getD 0)⟩)
  | none => do
    let id ← freshPackId ids
    let w ← createActive opts id
    return (ix, ⟨w, id, [], true, ← succPackId id⟩)

def openPages (opts : StoreOptions) : PE (Index × ActiveState) := do
  let discovered ← discoverPacks
  let ids ← discovered.foldlM removeRunt []
  let marks ← ids.foldlM
    (fun marks id => do return marks ++ [(id, ← look fun s => isPackSealed s id)]) []
  let isSealed := (marks.filter fun m => m.2).map fun m => m.1
  let unsealed := (marks.filter fun m => !m.2).map fun m => m.1
  let ix ← unsealed.dropLast.foldlM sealOld (∅ : Index)
  let ix ← (isSealed ++ unsealed.dropLast).foldlM loadSealed ix
  openActive opts ids unsealed ix

end PageStore

end SnapStore

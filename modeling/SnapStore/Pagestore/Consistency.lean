import SnapStore.Pagestore.Sidecars

/-!
# Index and packs at every moment

Calls interleave, and the process may be killed and restarted.  At every moment the pack files hold
whole records, every index entry leads to the record of its page, and the index has exactly the
records of an active pack that nobody works on.
-/

namespace SnapStore

open Disk Conc Sharing

section Packs

variable [Primitives] {opts : StoreOptions} {c : Config (killedStore opts)}

/-- A reopened pack is filled up to `PACK_MAX_BYTES`, whatever the options say. -/
def packLimit (opts : StoreOptions) : Nat := max opts.maxPackBytes packMaxBytes

omit [Primitives] in
theorem packLimit_lt (hopts : opts.maxPackBytes < recordOffset (2 ^ 32)) :
    packLimit opts < recordOffset (2 ^ 32) := max_lt hopts (by decide)

variable (hopts : opts.maxPackBytes < recordOffset (2 ^ 32))
  (h : (killedStore opts).Reach (KillsApart opts) ((killedStore opts).initial World.empty) c)

include hopts h

theorem killed_good :
    (killedOutline (packLimit_lt hopts) (le_max_right _ _) (le_max_left _ _)).Good c := by
  have hempty : Recovery.Down (packLimit opts) World.empty.pages := by
    refine ⟨.empty _, fun p hp => ?_⟩
    obtain ⟨b, hb, -⟩ := hp.1
    cases hb
  exact Outline.good_of_reach hempty h

theorem killed_inv (hup : c.mode = .up) : Inv (packLimit opts) c.store := by
  have hg := killed_good hopts h
  rw [Outline.Good, hup] at hg
  exact hg.inv

/-- Whatever runs, a read at the location of an index entry finds the record of its page, in the
pack file or in the write buffer of the active pack. -/
theorem index_entries_are_readable (hup : c.mode = .up) {k : PageHash} {l : PageLoc}
    (hk : c.store.index.get k = some l) :
    ∃ b p, c.store.packBytes l.pack = some b ∧
      PackReader.readAtFromFile b l.offset k = .ok p ∧ p.length = pageSize ∧ blake3 p = k := by
  obtain ⟨b, hb, page, hrec, hhash⟩ := (killed_inv hopts h hup).located k l hk
  exact ⟨b, page.bytes, hb, readAtFromFile_of_record hrec hhash, page.length_bytes, hhash⟩

/-- While the store runs, restarts or is down: a pack file is new or holds whole records of pages
under their hashes, within the limit, and every sidecar belongs to a pack file. -/
theorem pack_files_hold_whole_records (p : PackId) :
    (∀ b, c.store.pages.readName (.spk p) = some b →
      b = [] ∨ ∃ hdr rs, IsHeader hdr ∧ Hashed rs ∧ recordOffset rs.length ≤ packLimit opts ∧
        (b = openPack hdr rs ∨ b = sealedPack hdr rs)) ∧
    ((c.store.pages.lookup (.idx p)).isSome = true →
      (c.store.pages.lookup (.spk p)).isSome = true) := by
  have hg := killed_good hopts h
  have hdisk : DiskSound (packLimit opts) c.store.pages := by
    unfold Outline.Good at hg
    split at hg
    · exact hg.inv.disk
    · exact hg.1.disk
    · exact hg.1.disk
  refine ⟨fun b hb => (hdisk.pack p b hb).imp id fun hpack => ?_, fun hidx => ?_⟩
  · obtain ⟨rs, hbound, hdr, hhdr, hshape⟩ := hpack
    exact ⟨hdr, rs, hhdr, hbound.hashed, hbound.size, hshape⟩
  · obtain ⟨i, hi⟩ := Option.isSome_iff_exists.mp hidx
    obtain ⟨b, hb, -⟩ := hdisk.sidecar p _ (FileSys.readName_eq hi)
    obtain ⟨j, hj, -⟩ := FileSys.exists_lookup_of_readName hb
    rw [hj]
    rfl

end Packs

namespace Sample

attribute [local instance] primitives

/-- Page 7 is in a sealed pack, page 8 in the write buffer of the active one. -/
def twoPacks : List (Cmd (killedStore options)) :=
  [.boot quiet 100, .ready, .start ⟨.ingest [page 7], trivial⟩, .run 0 quiet 1000,
    .start ⟨.rotate, trivial⟩, .run 1 quiet 1000, .start ⟨.ingest [page 8], trivial⟩,
    .run 2 quiet 1000]

theorem exists_twoPacks : ∃ c : Config (killedStore options),
    (killedStore options).Reach (KillsApart options) ((killedStore options).initial World.empty) c ∧
    c.mode = .up ∧ c.store.activeLock = none ∧ c.store.active.packId = 1 ∧
    c.store.index.get (hash 7) = some ⟨0, 20⟩ ∧ c.store.index.get (hash 8) = some ⟨1, 20⟩ ∧
    (c.store.pages.lookup (.idx 0)).isSome = true := by
  have hcomp : ((killedStore options).execAll (fun _ _ => true) twoPacks
      ((killedStore options).initial World.empty)).any (fun c => c.mode.isUp &&
      decide (c.store.activeLock = none ∧ c.store.active.packId = 1 ∧
        c.store.index.get (hash 7) = some ⟨0, 20⟩ ∧ c.store.index.get (hash 8) = some ⟨1, 20⟩ ∧
        (c.store.pages.lookup (.idx 0)).isSome = true)) = true := by
    decide +kernel
  simp only [Option.any_eq_true, Bool.and_eq_true, decide_eq_true_eq] at hcomp
  obtain ⟨c, hc, hup, hrest⟩ := hcomp
  have hwrites : Writes quiet := rfl
  have hboots : Recovery.Boots quiet := ⟨rfl, rfl⟩
  exact ⟨c, Machine.reach_of_execAll (by simp [twoPacks, Machine.Meets, KillsApart, hwrites, hboots])
    hc, Mode.eq_up hup, hrest⟩

theorem buffered_page_is_readable : ∃ (c : Config (killedStore options)) (b p : Bytes),
    c.store.active.packId = 1 ∧ c.store.packBytes 1 = some b ∧
    PackReader.readAtFromFile b 20 (hash 8) = .ok p ∧ blake3 p = hash 8 := by
  obtain ⟨c, hreach, hup, -, hid, -, h8, -⟩ := exists_twoPacks
  obtain ⟨b, p, hb, hread, -, hhash⟩ := index_entries_are_readable (by decide) hreach hup h8
  exact ⟨c, b, p, hid, hb, hread, hhash⟩

theorem sealed_pack_has_its_file : ∃ c : Config (killedStore options),
    (c.store.pages.lookup (.idx 0)).isSome = true ∧
    (c.store.pages.lookup (.spk 0)).isSome = true := by
  obtain ⟨c, hreach, -, -, -, -, -, hidx⟩ := exists_twoPacks
  exact ⟨c, hidx, (pack_files_hold_whole_records (by decide) hreach 0).2 hidx⟩

end Sample

end SnapStore

import SnapStore.Pagestore.Pack

/-!
# What the pack readers return on the bytes a writer produced

`RecordAt b off h` is the fact the index rests on: the bytes of the file at `off` are a record of
a page that hashes to `h`.  The readers are specified on files of the form header, records, and a
footer or nothing.
-/

namespace SnapStore

open Disk

abbrev Entry := PageHash × Page

def encodeRecords (rs : List Entry) : Bytes := rs.flatMap fun r => recordBytes r.1 r.2

def HasRecord (b : Bytes) (off : Nat) (h : PageHash) (p : Page) : Prop :=
  slice b off recordSize = recordBytes h p

def recordOffset (i : Nat) : Nat := packHeaderSize + recordSize * i

@[simp] theorem length_packHeader (id : PackId) (t : Nat) :
    (packHeader id t).length = packHeaderSize := by
  simp [packHeader, packMagic, packHeaderSize]

@[simp] theorem length_recordBytes (h : PageHash) (p : Page) :
    (recordBytes h p).length = recordSize := by
  have h₁ := h.length_bytes
  have h₂ := p.length_bytes
  simp only [recordBytes, List.length_append, List.length_cons, List.length_nil, length_leBytes,
    recordSize, recordHeaderSize, pageSize] at *
  omega

@[simp] theorem encodeRecords_nil : encodeRecords [] = [] := rfl

theorem encodeRecords_cons (r : Entry) (rs : List Entry) :
    encodeRecords (r :: rs) = recordBytes r.1 r.2 ++ encodeRecords rs := rfl

theorem encodeRecords_append (rs ts : List Entry) :
    encodeRecords (rs ++ ts) = encodeRecords rs ++ encodeRecords ts := by
  simp [encodeRecords]

theorem encodeRecords_singleton (r : Entry) : encodeRecords [r] = recordBytes r.1 r.2 := by
  simp [encodeRecords]

@[simp] theorem length_encodeRecords (rs : List Entry) :
    (encodeRecords rs).length = recordSize * rs.length := by
  induction rs with
  | nil => rfl
  | cons r rs ih =>
    rw [encodeRecords_cons, List.length_append, length_recordBytes, ih, List.length_cons,
      Nat.mul_succ]
    omega

/-- The 20 bytes that start a pack.  The readers look at the magic only. -/
structure IsHeader (hdr : Bytes) : Prop where
  length : hdr.length = packHeaderSize
  magic : slice hdr 0 4 = packMagic

theorem isHeader_packHeader (id : PackId) (t : Nat) : IsHeader (packHeader id t) :=
  ⟨length_packHeader id t, by simp [slice, packHeader, packMagic]⟩

def openPack (hdr : Bytes) (rs : List Entry) : Bytes := hdr ++ encodeRecords rs

theorem length_openPack {hdr : Bytes} (hh : IsHeader hdr) (rs : List Entry) :
    (openPack hdr rs).length = recordOffset rs.length := by
  simp [openPack, recordOffset, hh.length]

theorem length_le_recordOffset (n : Nat) : n ≤ recordOffset n := by
  simp only [recordOffset, packHeaderSize, recordSize, recordHeaderSize, pageSize]
  omega

theorem IsHeader.slice_append {hdr : Bytes} (hh : IsHeader hdr) (b : Bytes) :
    slice (hdr ++ b) 0 4 = packMagic := by
  rw [slice_append_left (by rw [hh.length]; decide), hh.magic]

/-! ## One record -/

namespace HasRecord

variable {b c : Bytes} {off : Nat} {h : PageHash} {p : Page}

theorem length_le (hr : HasRecord b off h p) : off + recordSize ≤ b.length := by
  have hlen := congrArg List.length hr
  rw [length_slice, length_recordBytes] at hlen
  have hpos : 0 < recordSize := by decide
  omega

theorem mono (hr : HasRecord b off h p) (hp : b <+: c) : HasRecord c off h p := by
  rw [HasRecord, slice_prefix hp hr.length_le]
  exact hr

theorem slice_eq (hr : HasRecord b off h p) {i n : Nat} (hi : i + n ≤ recordSize) :
    slice b (off + i) n = slice (recordBytes h p) i n := by
  rw [← hr, slice_slice hi]

theorem hash (hr : HasRecord b off h p) : recordHash b off = h := by
  have hs := hr.slice_eq (i := 0) (n := 32) (by decide)
  rw [Nat.add_zero] at hs
  rw [recordHash, hs, recordBytes, slice_zero_append h.length_bytes, Digest.ofBytes_bytes]

theorem len (hr : HasRecord b off h p) : recordLen b off = pageSize := by
  have h33 : recordBytes h p = (h.bytes ++ [0x01]) ++ (leBytes 4 pageSize ++ p.bytes) := by
    simp [recordBytes]
  have hl : (h.bytes ++ [(0x01 : UInt8)]).length + 0 = 33 := by simp [h.length_bytes]
  rw [recordLen, hr.slice_eq (by decide), h33, ← hl, slice_append_right,
    slice_zero_append (length_leBytes 4 _)]
  exact leNat_leBytes (by decide)

theorem payload (hr : HasRecord b off h p) :
    slice b (off + recordHeaderSize) pageSize = p.bytes := by
  have h37 : recordBytes h p = (h.bytes ++ [0x01] ++ leBytes 4 pageSize) ++ p.bytes := by
    simp [recordBytes]
  have hl : (h.bytes ++ [(0x01 : UInt8)] ++ leBytes 4 pageSize).length + 0 = recordHeaderSize := by
    simp [h.length_bytes, recordHeaderSize]
  rw [hr.slice_eq (by decide), h37, ← hl, slice_append_right, slice_self p.length_bytes]

end HasRecord

theorem readAt_of_record {b : Bytes} {off : Nat} {h : PageHash} {p : Page}
    (hr : HasRecord b off h p) : PackReader.readAt b off = .ok (h, p.bytes) := by
  have hle := hr.length_le
  have h₁ : ¬ b.length < off + recordHeaderSize := by
    simp only [recordSize, recordHeaderSize, pageSize] at hle ⊢
    omega
  have h₂ : ¬ b.length < off + recordHeaderSize + pageSize := by
    rw [not_lt, Nat.add_assoc]
    exact hle
  simp only [PackReader.readAt, if_neg h₁, hr.len, if_neg h₂, hr.hash, hr.payload]

/-! ## Header scans -/

def entriesAt : Nat → List Entry → List (Nat × PageHash)
  | _, [] => []
  | off, r :: rs => (off, r.1) :: entriesAt (off + recordSize) rs

theorem hasRecord_head (pre post : Bytes) (r : Entry) (rs : List Entry) :
    HasRecord (pre ++ (encodeRecords (r :: rs) ++ post)) pre.length r.1 r.2 := by
  have h := slice_append_right (b := pre) (c := encodeRecords (r :: rs) ++ post) (i := 0)
    (n := recordSize)
  rw [Nat.add_zero, encodeRecords_cons, List.append_assoc,
    slice_zero_append (length_recordBytes r.1 r.2)] at h
  rw [HasRecord, encodeRecords_cons, List.append_assoc]
  exact h

theorem append_encodeRecords_cons (pre post : Bytes) (r : Entry) (rs : List Entry) :
    pre ++ (encodeRecords (r :: rs) ++ post) =
      (pre ++ recordBytes r.1 r.2) ++ (encodeRecords rs ++ post) := by
  simp [encodeRecords_cons]

theorem mem_entriesAt {b : Bytes} {off : Nat} {h : PageHash} {rs : List Entry} {pre post : Bytes}
    (hb : b = pre ++ (encodeRecords rs ++ post)) (hm : (off, h) ∈ entriesAt pre.length rs) :
    ∃ p, (h, p) ∈ rs ∧ HasRecord b off h p := by
  induction rs generalizing pre with
  | nil => simp [entriesAt] at hm
  | cons r rs ih =>
    rcases List.mem_cons.mp hm with heq | htail
    · obtain ⟨rfl, rfl⟩ := Prod.mk.inj heq
      exact ⟨r.2, List.mem_cons_self, hb ▸ hasRecord_head pre post r rs⟩
    · rw [append_encodeRecords_cons] at hb
      have hl : (pre ++ recordBytes r.1 r.2).length = pre.length + recordSize := by simp
      obtain ⟨p, hp, hrec⟩ := ih hb (hl ▸ htail)
      exact ⟨p, List.mem_cons_of_mem _ hp, hrec⟩

theorem entriesAt_append (n : Nat) (rs ts : List Entry) :
    entriesAt n (rs ++ ts) = entriesAt n rs ++ entriesAt (n + recordSize * rs.length) ts := by
  induction rs generalizing n with
  | nil => simp [entriesAt]
  | cons r rs ih =>
    have hn : n + recordSize + recordSize * rs.length = n + recordSize * (r :: rs).length := by
      rw [List.length_cons, Nat.mul_succ]
      omega
    rw [List.cons_append, entriesAt, ih, hn, entriesAt, List.cons_append]

theorem scanLoop_records {b : Bytes} {e : Nat} (rs : List Entry) :
    ∀ (pre post : Bytes) (fuel : Nat), rs.length ≤ fuel → b = pre ++ (encodeRecords rs ++ post) →
      e ≤ pre.length + recordSize * rs.length →
      pre.length + recordSize * rs.length ≤ e + packFooterSize →
      scanLoop b e fuel pre.length = .ok (entriesAt pre.length rs) := by
  induction rs with
  | nil =>
    intro pre post fuel _ _ hle _
    cases fuel with
    | zero => rfl
    | succ n =>
      have hend : e ≤ pre.length := by simpa using hle
      rw [scanLoop, if_pos hend]
      rfl
  | cons r rs ih =>
    intro pre post fuel hfuel hb hle hge
    cases fuel with
    | zero => simp at hfuel
    | succ n =>
      have hrec : HasRecord b pre.length r.1 r.2 := hb ▸ hasRecord_head pre post r rs
      have hlen := hrec.length_le
      have hpre : (pre ++ recordBytes r.1 r.2).length = pre.length + recordSize := by simp
      rw [List.length_cons, Nat.mul_succ] at hle hge
      have h₁ : ¬ e ≤ pre.length := by
        simp only [recordSize, recordHeaderSize, pageSize, packFooterSize] at hge
        omega
      have h₂ : ¬ e - pre.length < recordHeaderSize := by
        simp only [recordSize, recordHeaderSize, pageSize, packFooterSize] at hge ⊢
        omega
      have h₃ : ¬ b.length < pre.length + recordHeaderSize := by
        simp only [recordSize, recordHeaderSize, pageSize] at hlen ⊢
        omega
      have htail := ih (pre ++ recordBytes r.1 r.2) post n (by simpa using hfuel)
        (by rw [hb, append_encodeRecords_cons]) (by rw [hpre]; omega) (by rw [hpre]; omega)
      rw [hpre] at htail
      rw [scanLoop, if_neg h₁, if_neg h₂, if_neg h₃, hrec.len, hrec.hash]
      have hstep : recordHeaderSize + pageSize = recordSize := rfl
      rw [hstep, htail]
      rfl

theorem countRecordsLoop_records {b : Bytes} {e : Nat} (rs : List Entry) :
    ∀ (pre post : Bytes) (fuel count : Nat), rs.length ≤ fuel →
      b = pre ++ (encodeRecords rs ++ post) → e = pre.length + recordSize * rs.length →
      countRecordsLoop b e fuel pre.length count = count + rs.length := by
  induction rs with
  | nil =>
    intro pre post fuel count _ _ hend
    cases fuel with
    | zero => rfl
    | succ n =>
      have h : ¬ pre.length < e := by simp [hend]
      rw [countRecordsLoop, if_neg h]
      rfl
  | cons r rs ih =>
    intro pre post fuel count hfuel hb hend
    cases fuel with
    | zero => simp at hfuel
    | succ n =>
      have hrec : HasRecord b pre.length r.1 r.2 := hb ▸ hasRecord_head pre post r rs
      have hpre : (pre ++ recordBytes r.1 r.2).length = pre.length + recordSize := by simp
      rw [List.length_cons, Nat.mul_succ] at hend
      have h₁ : pre.length < e := by
        simp only [recordSize, recordHeaderSize, pageSize] at hend
        omega
      have h₂ : ¬ e - pre.length < recordHeaderSize := by
        simp only [recordSize, recordHeaderSize, pageSize] at hend ⊢
        omega
      have h₃ : ¬ e < pre.length + recordSize := by omega
      have htail := ih (pre ++ recordBytes r.1 r.2) post n (count + 1) (by simpa using hfuel)
        (by rw [hb, append_encodeRecords_cons]) (by rw [hpre]; omega)
      rw [hpre] at htail
      rw [countRecordsLoop, if_pos h₁, if_neg h₂, hrec.len]
      change (if e < pre.length + recordSize then count
        else countRecordsLoop b e n (pre.length + recordSize) (count + 1)) = _
      rw [if_neg h₃, htail, List.length_cons]
      omega

section

variable {hdr : Bytes} (hh : IsHeader hdr) {rs : List Entry}

include hh

theorem four_le_length_openPack : ¬ (openPack hdr rs).length < 4 := by
  rw [length_openPack hh]
  simp only [recordOffset, packHeaderSize]
  omega

theorem scan_openPack :
    PackReader.scan (openPack hdr rs) (recordOffset rs.length) =
      .ok (entriesAt packHeaderSize rs) := by
  have h := scanLoop_records (b := openPack hdr rs) (e := recordOffset rs.length) rs hdr []
    (recordOffset rs.length) (length_le_recordOffset _) (by simp [openPack])
    (by rw [hh.length]; exact Nat.le_refl _) (by rw [hh.length]; exact Nat.le_add_right _ _)
  rwa [hh.length] at h

end

/-! ## Records of hashed pages -/

section

variable [Primitives]

def Hashed (rs : List Entry) : Prop := ∀ r ∈ rs, blake3 r.2.bytes = r.1

def RecordAt (b : Bytes) (off : Nat) (h : PageHash) : Prop :=
  ∃ p, HasRecord b off h p ∧ blake3 p.bytes = h

@[simp] theorem length_packFooter (n : Nat) (body : Bytes) :
    (packFooter n body).length = packFooterSize := by
  simp [packFooter, footerMagic, packFooterSize, (blake3 body).length_bytes]

theorem Hashed.append {rs ts : List Entry} (h₁ : Hashed rs) (h₂ : Hashed ts) :
    Hashed (rs ++ ts) := by
  intro r hr
  rcases List.mem_append.mp hr with h | h
  · exact h₁ r h
  · exact h₂ r h

theorem RecordAt.mono {b c : Bytes} {off : Nat} {h : PageHash} (hr : RecordAt b off h)
    (hp : b <+: c) : RecordAt c off h := by
  obtain ⟨p, hr, hb⟩ := hr
  exact ⟨p, hr.mono hp, hb⟩

theorem RecordAt.length_le {b : Bytes} {off : Nat} {h : PageHash} (hr : RecordAt b off h) :
    off + recordSize ≤ b.length := by
  obtain ⟨p, hr, -⟩ := hr
  exact hr.length_le

theorem readAtFromFile_of_record {b : Bytes} {off : Nat} {h : PageHash} {p : Page}
    (hr : HasRecord b off h p) (hb : blake3 p.bytes = h) :
    PackReader.readAtFromFile b off h = .ok p.bytes := by
  have hlen : ¬ b.length < off + (recordHeaderSize + pageSize) := not_lt.mpr hr.length_le
  simp only [PackReader.readAtFromFile, if_neg hlen, hr.len, hr.hash, hr.payload, hb, ne_eq,
    not_true_eq_false, if_false]

theorem readAtFromFile_sound {b p : Bytes} {off : Nat} {h : PageHash}
    (hr : PackReader.readAtFromFile b off h = .ok p) :
    blake3 p = h ∧ p.length = pageSize := by
  unfold PackReader.readAtFromFile at hr
  by_cases h₁ : b.length < off + (recordHeaderSize + pageSize)
  · simp [if_pos h₁] at hr
  by_cases h₂ : recordLen b off = pageSize
  swap
  · simp [h₂] at hr
  by_cases h₃ : recordHash b off = h
  swap
  · simp [if_neg h₁, h₂, h₃] at hr
  by_cases h₄ : blake3 (slice b (off + recordHeaderSize) pageSize) = h
  swap
  · simp [if_neg h₁, h₂, h₃, h₄] at hr
  simp only [if_neg h₁, h₂, h₃, h₄, ne_eq, not_true_eq_false, if_false, Except.ok.injEq] at hr
  subst hr
  refine ⟨h₄, ?_⟩
  simp only [length_slice, recordHeaderSize, pageSize] at h₁ ⊢
  omega

structure GoodRecord (b : Bytes) (off : Nat) : Prop where
  header : recordHeaderSize ≤ b.length - off
  flags : recordFlags b off &&& 0x01 ≠ 0 → recordLen b off = pageSize
  len : recordLen b off ≤ pageSize * 2
  room : recordLen b off ≤ b.length - (off + recordHeaderSize)
  hash : blake3 (slice b (off + recordHeaderSize) (recordLen b off)) = recordHash b off

theorem openUnsealedLoop_of_end {b : Bytes} {fuel off good : Nat} (h : b.length - off = 0) :
    openUnsealedLoop b fuel off good = (off, good, false) := by
  cases fuel with
  | zero => rfl
  | succ fuel => rw [openUnsealedLoop, if_pos h]

theorem openUnsealedLoop_of_good {b : Bytes} {fuel off good : Nat} (h : GoodRecord b off) :
    openUnsealedLoop b (fuel + 1) off good =
      openUnsealedLoop b fuel (off + (recordHeaderSize + recordLen b off)) (good + 1) := by
  have hpos : 0 < recordHeaderSize := by decide
  have hheader := h.header
  have hsize : ¬ (recordLen b off ≠ (if recordFlags b off &&& 0x01 ≠ 0 then pageSize
      else recordLen b off) ∨ pageSize * 2 < recordLen b off) := by
    rw [not_or, not_not, not_lt]
    refine ⟨?_, h.len⟩
    split
    · next hflags => exact h.flags hflags
    · rfl
  rw [openUnsealedLoop, if_neg (by omega), if_neg (not_lt.mpr hheader)]
  dsimp only
  rw [if_neg hsize, if_neg (not_lt.mpr h.room), if_neg (not_not.mpr h.hash)]

theorem openUnsealedLoop_of_bad {b : Bytes} {fuel off good : Nat} (hoff : b.length - off ≠ 0)
    (h : ¬ GoodRecord b off) : openUnsealedLoop b (fuel + 1) off good = (off, good, true) := by
  rw [openUnsealedLoop, if_neg hoff]
  by_cases hheader : b.length - off < recordHeaderSize
  · rw [if_pos hheader]
  rw [if_neg hheader]
  dsimp only
  by_cases hsize : recordLen b off ≠ (if recordFlags b off &&& 0x01 ≠ 0 then pageSize
      else recordLen b off) ∨ pageSize * 2 < recordLen b off
  · rw [if_pos hsize]
  by_cases hroom : b.length - (off + recordHeaderSize) < recordLen b off
  · rw [if_neg hsize, if_pos hroom]
  rw [not_or, not_not, not_lt] at hsize
  rw [if_neg (by rw [not_or, not_not, not_lt]; exact hsize), if_neg hroom]
  refine if_pos fun hhash => h ⟨not_lt.mp hheader, ?_, hsize.2, not_lt.mp hroom, hhash⟩
  intro hflags
  rw [if_pos hflags] at hsize
  exact hsize.1

inductive Whole (b : Bytes) : Nat → Nat → Prop where
  | nil : Whole b b.length 0
  | cons {off n : Nat} (h : GoodRecord b off)
      (rest : Whole b (off + (recordHeaderSize + recordLen b off)) n) : Whole b off (n + 1)

omit [Primitives] in
theorem recordLen_take {b : Bytes} {off e : Nat} (h : off + recordHeaderSize ≤ e) :
    recordLen (b.take e) off = recordLen b off := by
  simp only [recordHeaderSize] at h
  rw [recordLen, recordLen, slice_take (by omega)]

theorem GoodRecord.take {b : Bytes} {off e : Nat} (h : GoodRecord b off) (he : e ≤ b.length)
    (hend : off + (recordHeaderSize + recordLen b off) ≤ e) : GoodRecord (b.take e) off := by
  have hlen := recordLen_take (b := b) (show off + recordHeaderSize ≤ e by omega)
  have htake : (b.take e).length = e := by rw [List.length_take, Nat.min_eq_left he]
  have hflags : recordFlags (b.take e) off = recordFlags b off := by
    simp only [recordHeaderSize] at hend
    simp [recordFlags, show off + 32 < e by omega]
  have hhash : recordHash (b.take e) off = recordHash b off := by
    simp only [recordHeaderSize] at hend
    rw [recordHash, recordHash, slice_take (by omega)]
  refine ⟨by omega, ?_, by rw [hlen]; exact h.len, by omega, ?_⟩
  · rw [hflags, hlen]
    exact h.flags
  · rw [hlen, hhash, slice_take (by omega)]
    exact h.hash

theorem whole_of_openUnsealedLoop {b : Bytes} {e n : Nat} {cut : Bool} (fuel : Nat) :
    ∀ (off good : Nat), b.length - off ≤ fuel → off ≤ b.length →
      openUnsealedLoop b fuel off good = (e, n, cut) →
      off ≤ e ∧ e ≤ b.length ∧ (cut = false → e = b.length) ∧
        ∃ k, n = good + k ∧ Whole (b.take e) off k := by
  have hstop : ∀ {off : Nat}, off ≤ b.length → Whole (b.take off) off 0 := by
    intro off hoff
    have hlen : (b.take off).length = off := by rw [List.length_take, Nat.min_eq_left hoff]
    have hnil := Whole.nil (b := b.take off)
    rwa [hlen] at hnil
  induction fuel with
  | zero =>
    intro off good hfuel hle h
    cases h
    exact ⟨Nat.le_refl _, hle, fun _ => by omega, 0, rfl, hstop hle⟩
  | succ fuel ih =>
    intro off good hfuel hle h
    by_cases hend : b.length - off = 0
    · rw [openUnsealedLoop_of_end hend] at h
      cases h
      exact ⟨Nat.le_refl _, hle, fun _ => by omega, 0, rfl, hstop hle⟩
    by_cases hgood : GoodRecord b off
    · rw [openUnsealedLoop_of_good hgood] at h
      have hpos : 0 < recordHeaderSize := by decide
      have hheader := hgood.header
      have hroom := hgood.room
      obtain ⟨hoff, he, hcut, k, hn, hw⟩ := ih _ _ (by omega) (by omega) h
      refine ⟨by omega, he, hcut, k + 1, by omega, .cons (hgood.take he hoff) ?_⟩
      rwa [recordLen_take (by omega)]
    · rw [openUnsealedLoop_of_bad hend hgood] at h
      cases h
      exact ⟨Nat.le_refl _, hle, by rintro ⟨⟩, 0, rfl, hstop hle⟩

theorem Whole.reopenLoop_eq {b : Bytes} {off n : Nat} (h : Whole b off n) :
    ∀ (fuel count : Nat) (hasher : Bytes), b.length - off ≤ fuel →
      reopenLoop b fuel off count hasher = (b.length, count + n, hasher ++ b.drop off) := by
  induction h with
  | nil =>
    intro fuel count hasher _
    rw [List.drop_length, List.append_nil]
    cases fuel with
    | zero => rfl
    | succ fuel => exact if_neg (lt_irrefl _)
  | @cons off n hgood rest ih =>
    intro fuel count hasher hfuel
    have hpos : 0 < recordHeaderSize := by decide
    have hheader := hgood.header
    have hroom := hgood.room
    obtain ⟨fuel, rfl⟩ : ∃ g, fuel = g + 1 := ⟨fuel - 1, by omega⟩
    rw [reopenLoop, if_pos (by omega), if_neg (by omega)]
    dsimp only
    rw [if_neg (not_lt.mpr hgood.len), if_neg (by omega), ih _ _ _ (by omega), List.append_assoc,
      slice, ← List.drop_drop, List.take_append_drop, Nat.add_assoc, Nat.add_comm 1 n]

theorem Whole.reopen_eq {b : Bytes} {n : Nat} (h : Whole b packHeaderSize n)
    (hmagic : slice b 0 4 = packMagic) (hlen : packHeaderSize ≤ b.length) (file : Ino) (id : PackId) :
    PackWriter.reopen file id b = .ok ⟨file, id, b.length, b.drop packHeaderSize, [], b.length, n,
      false, packMaxBytes⟩ := by
  simp only [packHeaderSize] at hlen
  rw [PackWriter.reopen, if_neg (show ¬ b.length < 4 by omega), if_neg (not_not.mpr hmagic),
    h.reopenLoop_eq _ 0 [] (Nat.sub_le _ _), Nat.zero_add]
  rfl

theorem HasRecord.good {b : Bytes} {off : Nat} {h : PageHash} {p : Page}
    (hr : HasRecord b off h p) (hh : blake3 p.bytes = h) : GoodRecord b off := by
  have hlen := hr.length_le
  simp only [recordSize, recordHeaderSize, pageSize] at hlen
  refine ⟨?_, fun _ => hr.len, ?_, ?_, ?_⟩
  · simp only [recordHeaderSize]
    omega
  · rw [hr.len]
    decide
  · rw [hr.len]
    simp only [recordHeaderSize, pageSize]
    omega
  · rw [hr.len, hr.payload, hr.hash, hh]

theorem whole_records {b : Bytes} (rs : List Entry) :
    ∀ pre : Bytes, Hashed rs → b = pre ++ encodeRecords rs → Whole b pre.length rs.length := by
  induction rs with
  | nil =>
    intro pre _ hb
    have hlen : b.length = pre.length := by simp [hb]
    rw [← hlen]
    exact .nil
  | cons r rs ih =>
    intro pre hhash hb
    have hrec : HasRecord b pre.length r.1 r.2 := by
      have h := hasRecord_head pre [] r rs
      rwa [List.append_nil, ← hb] at h
    refine .cons (hrec.good (hhash r List.mem_cons_self)) ?_
    have hrest := ih (pre ++ recordBytes r.1 r.2) (fun x hx => hhash x (List.mem_cons_of_mem _ hx))
      (by rw [hb, encodeRecords_cons, List.append_assoc])
    rw [List.length_append, length_recordBytes] at hrest
    rwa [hrec.len]

theorem openUnsealedLoop_append {b post : Bytes} (rs : List Entry) :
    ∀ (pre : Bytes) (fuel good : Nat), Hashed rs → b = pre ++ (encodeRecords rs ++ post) →
      openUnsealedLoop b (rs.length + fuel) pre.length good =
        openUnsealedLoop b fuel (pre.length + recordSize * rs.length) (good + rs.length) := by
  induction rs with
  | nil =>
    intro pre fuel good _ _
    simp
  | cons r rs ih =>
    intro pre fuel good hhash hb
    have hrec : HasRecord b pre.length r.1 r.2 := hb ▸ hasRecord_head pre post r rs
    have hpre : (pre ++ recordBytes r.1 r.2).length = pre.length + recordSize := by simp
    have htail := ih (pre ++ recordBytes r.1 r.2) fuel (good + 1)
      (fun x hx => hhash x (List.mem_cons_of_mem _ hx)) (by rw [hb, append_encodeRecords_cons])
    rw [hpre, Nat.add_assoc, Nat.add_assoc, Nat.add_comm recordSize, Nat.add_comm 1] at htail
    rw [List.length_cons, Nat.add_right_comm,
      openUnsealedLoop_of_good (hrec.good (hhash r List.mem_cons_self)), hrec.len, Nat.mul_succ]
    exact htail

theorem openUnsealedLoop_records {b : Bytes} (rs : List Entry) (pre : Bytes) (fuel good : Nat)
    (hhash : Hashed rs) (hfuel : rs.length ≤ fuel) (hb : b = pre ++ encodeRecords rs) :
    openUnsealedLoop b fuel pre.length good =
      (pre.length + recordSize * rs.length, good + rs.length, false) := by
  obtain ⟨n, rfl⟩ := Nat.exists_eq_add_of_le hfuel
  have hb' : b = pre ++ (encodeRecords rs ++ []) := by rw [hb, List.append_nil]
  rw [openUnsealedLoop_append rs pre n good hhash hb']
  apply openUnsealedLoop_of_end
  rw [hb, List.length_append, length_encodeRecords, Nat.sub_self]

/-! ## Whole packs -/

def sealedPack (hdr : Bytes) (rs : List Entry) : Bytes :=
  hdr ++ (encodeRecords rs ++ packFooter rs.length (encodeRecords rs))

theorem sealedPack_eq (hdr : Bytes) (rs : List Entry) :
    sealedPack hdr rs = openPack hdr rs ++ packFooter rs.length (encodeRecords rs) := by
  simp [sealedPack, openPack]

omit [Primitives] in
theorem bodyEnd_of_openSealed {b : Bytes} {e : Nat} (ho : PackReader.openSealed b = .ok e) :
    e = b.length - packFooterSize ∧ packHeaderSize + packFooterSize ≤ b.length := by
  unfold PackReader.openSealed at ho
  by_cases h₁ : b.length < 4
  · simp [if_pos h₁] at ho
  by_cases h₂ : slice b 0 4 = packMagic
  swap
  · simp [if_neg h₁, h₂] at ho
  by_cases h₃ : b.length < packHeaderSize + packFooterSize
  · simp [if_neg h₁, h₂, if_pos h₃] at ho
  refine ⟨?_, not_lt.mp h₃⟩
  simp only [if_neg h₁, h₂, ne_eq, not_true_eq_false, if_false, if_neg h₃] at ho
  split at ho
  · cases ho
  · split at ho
    · cases ho
    · exact (Except.ok.inj ho).symm

section

variable {hdr : Bytes} (hh : IsHeader hdr) {rs : List Entry}

include hh

theorem length_sealedPack :
    (sealedPack hdr rs).length = recordOffset rs.length + packFooterSize := by
  rw [sealedPack_eq, List.length_append, length_openPack hh, length_packFooter]

theorem countRecordsInFile_sealedPack :
    countRecordsInFile (sealedPack hdr rs) (recordOffset rs.length) = rs.length := by
  have h := countRecordsLoop_records (b := sealedPack hdr rs) (e := recordOffset rs.length) rs hdr
    (packFooter rs.length (encodeRecords rs)) (recordOffset rs.length) 0
    (length_le_recordOffset _) rfl (by rw [hh.length]; rfl)
  rwa [hh.length, Nat.zero_add] at h

theorem openSealed_sealedPack (hn : rs.length < 2 ^ 64) :
    PackReader.openSealed (sealedPack hdr rs) = .ok (recordOffset rs.length) := by
  have hlen : (sealedPack hdr rs).length = _ := length_sealedPack hh
  have h₁ : ¬ (sealedPack hdr rs).length < 4 := by
    rw [hlen]
    simp only [packFooterSize]
    omega
  have h₂ : slice (sealedPack hdr rs) 0 4 = packMagic := hh.slice_append _
  have h₃ : ¬ (sealedPack hdr rs).length < packHeaderSize + packFooterSize := by
    rw [hlen]
    simp only [recordOffset]
    omega
  have hend : (sealedPack hdr rs).length - packFooterSize = (openPack hdr rs).length := by
    rw [hlen, length_openPack hh]
    omega
  have hmagic : slice (sealedPack hdr rs) ((openPack hdr rs).length + 0) 4 = footerMagic := by
    rw [sealedPack_eq, slice_append_right, packFooter, slice_zero_append (by decide)]
  have hcount : leNat (slice (sealedPack hdr rs) ((openPack hdr rs).length + 4) 8) =
      rs.length := by
    have hl : footerMagic.length + 0 = 4 := by decide
    rw [sealedPack_eq, slice_append_right, packFooter, ← hl, slice_append_right,
      slice_zero_append (length_leBytes 8 _)]
    exact leNat_leBytes (by simpa using hn)
  have hscan : countRecordsInFile (sealedPack hdr rs) (openPack hdr rs).length = rs.length := by
    rw [length_openPack hh]
    exact countRecordsInFile_sealedPack hh
  rw [Nat.add_zero] at hmagic
  simp only [PackReader.openSealed, if_neg h₁, h₂, ne_eq, not_true_eq_false, if_false, if_neg h₃,
    hend, hmagic, hscan, hcount]
  rw [length_openPack hh]

theorem scan_of_openSealed {b : Bytes} {e : Nat} (hb : b = openPack hdr rs ∨ b = sealedPack hdr rs)
    (ho : PackReader.openSealed b = .ok e) :
    PackReader.scan b e = .ok (entriesAt packHeaderSize rs) := by
  have he := bodyEnd_of_openSealed ho
  obtain ⟨post, hpost, hb'⟩ : ∃ post : Bytes, post.length ≤ packFooterSize ∧
      b = hdr ++ (encodeRecords rs ++ post) := by
    rcases hb with rfl | rfl
    · exact ⟨[], Nat.zero_le _, by simp [openPack]⟩
    · exact ⟨_, (length_packFooter _ _).le, rfl⟩
  have hlen : b.length = packHeaderSize + recordSize * rs.length + post.length := by
    rw [hb']
    simp [hh.length]
    omega
  have h := scanLoop_records (b := b) (e := e) rs hdr post e
    (by
      simp only [recordSize, recordHeaderSize, pageSize, packHeaderSize, packFooterSize] at *
      omega)
    hb' (by rw [hh.length]; omega) (by rw [hh.length]; omega)
  rwa [hh.length] at h

theorem reopen_openPack (hhash : Hashed rs) {file : Ino} {id : PackId} :
    PackWriter.reopen file id (openPack hdr rs) = .ok {
      file := file
      packId := id
      pos := recordOffset rs.length
      bodyHasher := encodeRecords rs
      writeBuf := []
      writeOffset := recordOffset rs.length
      recordCount := rs.length
      sealed := false
      maxBytes := packMaxBytes } := by
  have hwhole := whole_records (b := openPack hdr rs) rs hdr hhash rfl
  have hdrop : (openPack hdr rs).drop hdr.length = encodeRecords rs := List.drop_left
  rw [hh.length] at hwhole hdrop
  rw [hwhole.reopen_eq (hh.slice_append _) (by simp [openPack, hh.length]), hdrop,
    length_openPack hh]

theorem openUnsealed_openPack (hhash : Hashed rs) :
    PackReader.openUnsealed (openPack hdr rs) = .ok (recordOffset rs.length, rs.length, false) := by
  have h := openUnsealedLoop_records (b := openPack hdr rs) rs hdr (openPack hdr rs).length 0 hhash
    (by rw [length_openPack hh]; exact length_le_recordOffset _) rfl
  rw [hh.length, Nat.zero_add] at h
  have h₂ : slice (openPack hdr rs) 0 4 = packMagic := hh.slice_append _
  rw [PackReader.openUnsealed, if_neg (four_le_length_openPack hh), if_neg (not_not.mpr h₂), h]
  rfl

end

end

end SnapStore

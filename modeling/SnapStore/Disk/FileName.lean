import SnapStore.Disk.Bytes

/-!
# File names

A file name is a byte string.  Names that stand for binary data hold it as pairs of hexadecimal
digits: the writer uses lower case, the reader takes both cases.  The stem and the extension of a
name are split at its last dot, as `std::path` splits them.  A directory has each name once.
-/

namespace Disk

namespace Hex

def digit (v : UInt8) : UInt8 := if v < 10 then 0x30 + v else 0x61 + (v - 10)

def nibble (b : UInt8) : Option UInt8 :=
  if 0x30 ≤ b ∧ b ≤ 0x39 then some (b - 0x30)
  else if 0x61 ≤ b ∧ b ≤ 0x66 then some (b - 0x61 + 10)
  else if 0x41 ≤ b ∧ b ≤ 0x46 then some (b - 0x41 + 10)
  else none

def Lower (b : UInt8) : Prop := (0x30 ≤ b ∧ b ≤ 0x39) ∨ (0x61 ≤ b ∧ b ≤ 0x66)

instance : DecidablePred Lower := fun _ => inferInstanceAs (Decidable (_ ∨ _))

def encode : Bytes → Bytes
  | [] => []
  | b :: bs => digit (b >>> 4) :: digit (b &&& 0x0f) :: encode bs

def decode : Bytes → Option Bytes
  | [] => some []
  | [_] => none
  | hi :: lo :: rest => do
    let h ← nibble hi
    let l ← nibble lo
    return (h <<< 4 ||| l) :: (← decode rest)

def ByteFacts (b : UInt8) : Prop :=
  (nibble (digit (b >>> 4)) = some (b >>> 4) ∧
    nibble (digit (b &&& 0x0f)) = some (b &&& 0x0f) ∧ (b >>> 4) <<< 4 ||| (b &&& 0x0f) = b) ∧
  (Lower (digit (b >>> 4)) ∧ Lower (digit (b &&& 0x0f))) ∧
  (Lower b → ∃ v : Fin 16, nibble b = some (UInt8.ofNat v) ∧ digit (UInt8.ofNat v) = b) ∧
  (Lower b → b < 0x80) ∧ (0x80 ≤ b → nibble b = none) ∧
  (b < 0x80 → String.utf8EncodeChar (Char.ofUInt8 b) = [b])

instance : DecidablePred ByteFacts := fun _ => inferInstanceAs (Decidable (_ ∧ _))

theorem byteFacts (b : UInt8) : ByteFacts b := by
  have hall : ∀ i : Fin 256, ByteFacts (UInt8.ofFin i) := by decide +kernel
  exact UInt8.ofFin_toFin b ▸ hall b.toFin

theorem Lower.ascii {b : UInt8} (h : Lower b) : b < 0x80 := (byteFacts b).2.2.2.1 h

theorem nibble_of_not_ascii {b : UInt8} (h : 0x80 ≤ b) : nibble b = none :=
  (byteFacts b).2.2.2.2.1 h

theorem halves_join (h l : Fin 16) :
    ((UInt8.ofNat h <<< 4 ||| UInt8.ofNat l) >>> 4 = UInt8.ofNat h) ∧
      ((UInt8.ofNat h <<< 4 ||| UInt8.ofNat l) &&& 0x0f = UInt8.ofNat l) := by
  revert h l
  decide +kernel

theorem decode_cons (hi lo : UInt8) (rest : Bytes) : decode (hi :: lo :: rest) =
    (nibble hi).bind fun h => (nibble lo).bind fun l =>
      (decode rest).bind fun bs => some ((h <<< 4 ||| l) :: bs) := rfl

theorem decode_encode (bs : Bytes) : decode (encode bs) = some bs := by
  induction bs with
  | nil => rfl
  | cons b bs ih =>
    obtain ⟨⟨hhigh, hlow, hjoin⟩, -⟩ := byteFacts b
    rw [encode, decode_cons, hhigh, hlow, ih, Option.bind_some, Option.bind_some,
      Option.bind_some, hjoin]

theorem lower_of_mem_encode {bs : Bytes} {c : UInt8} (h : c ∈ encode bs) : Lower c := by
  induction bs with
  | nil => cases h
  | cons b bs ih =>
    obtain ⟨-, ⟨hhigh, hlow⟩, -⟩ := byteFacts b
    rcases List.mem_cons.mp h with rfl | h
    · exact hhigh
    · rcases List.mem_cons.mp h with rfl | h
      · exact hlow
      · exact ih h

theorem length_encode (bs : Bytes) : (encode bs).length = 2 * bs.length := by
  induction bs with
  | nil => rfl
  | cons b bs ih =>
    rw [encode, List.length_cons, List.length_cons, ih, List.length_cons]
    omega

theorem length_of_decode {text bs : Bytes} (h : decode text = some bs) :
    text.length = 2 * bs.length := by
  induction text using decode.induct generalizing bs with
  | case1 => cases h; rfl
  | case2 => cases h
  | case3 hi lo rest ih =>
    rw [decode_cons] at h
    obtain ⟨v, -, h⟩ := Option.bind_eq_some_iff.mp h
    obtain ⟨w, -, h⟩ := Option.bind_eq_some_iff.mp h
    obtain ⟨tail, htail, h⟩ := Option.bind_eq_some_iff.mp h
    cases h
    rw [List.length_cons, List.length_cons, ih htail, List.length_cons]
    omega

theorem nibble_of_decode {text bs : Bytes} (h : decode text = some bs) {c : UInt8}
    (hc : c ∈ text) : nibble c ≠ none := by
  induction text using decode.induct generalizing bs with
  | case1 => cases hc
  | case2 => cases h
  | case3 hi lo rest ih =>
    rw [decode_cons] at h
    obtain ⟨v, hv, h⟩ := Option.bind_eq_some_iff.mp h
    obtain ⟨w, hw, h⟩ := Option.bind_eq_some_iff.mp h
    obtain ⟨tail, htail, -⟩ := Option.bind_eq_some_iff.mp h
    rcases List.mem_cons.mp hc with rfl | hc
    · rw [hv]
      exact Option.some_ne_none v
    · rcases List.mem_cons.mp hc with rfl | hc
      · rw [hw]
        exact Option.some_ne_none w
      · exact ih htail hc

theorem encode_of_decode {text : Bytes} (heven : text.length % 2 = 0) (h : ∀ c ∈ text, Lower c) :
    ∃ bs, decode text = some bs ∧ encode bs = text := by
  induction text using decode.induct with
  | case1 => exact ⟨[], rfl, rfl⟩
  | case2 => simp at heven
  | case3 hi lo rest ih =>
    obtain ⟨v, hv, hhi⟩ := (byteFacts hi).2.2.1 (h hi (by simp))
    obtain ⟨w, hw, hlo⟩ := (byteFacts lo).2.2.1 (h lo (by simp))
    have hrest : rest.length % 2 = 0 := by
      rw [List.length_cons, List.length_cons] at heven
      omega
    obtain ⟨bs, hbs, htext⟩ := ih hrest fun c hc =>
      h c (List.mem_cons_of_mem _ (List.mem_cons_of_mem _ hc))
    obtain ⟨hhigh, hlow⟩ := halves_join v w
    refine ⟨(UInt8.ofNat v <<< 4 ||| UInt8.ofNat w) :: bs, ?_, ?_⟩
    · rw [decode_cons, hv, hw, hbs]
      rfl
    · rw [encode, hhigh, hlow, hhi, hlo, htext]

end Hex

/-! ## Text -/

def asBytes (s : String) : Bytes := s.toByteArray.data.toList

/-- `OsStr::to_str`: the text of a name that is UTF-8. -/
def toStr (b : Bytes) : Option String := String.fromUTF8? b.toByteArray

theorem toStr_eq_some {b : Bytes} {s : String} : toStr b = some s ↔ asBytes s = b := by
  unfold toStr String.fromUTF8? asBytes
  constructor
  · intro h
    split at h
    · cases h
      rw [String.fromUTF8, List.data_toByteArray]
    · cases h
  · intro h
    have hbytes : b.toByteArray = s.toByteArray := by
      apply ByteArray.ext
      rw [List.data_toByteArray, ← h]
    rw [dif_pos (hbytes ▸ s.isValidUTF8)]
    exact congrArg some (String.toByteArray_inj.mp hbytes)

theorem exists_toStr_of_ascii {b : Bytes} (h : ∀ c ∈ b, c < 0x80) : ∃ s, toStr b = some s := by
  have hbytes : (b.map Char.ofUInt8).flatMap String.utf8EncodeChar = b := by
    induction b with
    | nil => rfl
    | cons c b ih =>
      rw [List.map_cons, List.flatMap_cons, (Hex.byteFacts c).2.2.2.2.2 (h c (by simp)),
        ih fun d hd => h d (List.mem_cons_of_mem _ hd)]
      rfl
  have hvalid : b.toByteArray.IsValidUTF8 :=
    .intro (b.map Char.ofUInt8) (by rw [List.utf8Encode, hbytes])
  exact ⟨String.fromUTF8 b.toByteArray hvalid, dif_pos hvalid⟩

/-! ## Extension and stem -/

def dot : UInt8 := 0x2e

def splitLast (d : UInt8) : Bytes → Option (Bytes × Bytes)
  | [] => none
  | b :: bs =>
    match splitLast d bs with
    | some (before, after) => some (b :: before, after)
    | none => if b = d then some ([], bs) else none

/-- `rsplit_file_at_dot`: a name that only starts with a dot has no extension. -/
def rsplitFileAtDot (name : Bytes) : Option Bytes × Option Bytes :=
  if name = [dot, dot] then (some name, none) else
  match splitLast dot name with
  | none => (none, some name)
  | some ([], _) => (some name, none)
  | some (before, after) => (some before, some after)

def extension (name : Bytes) : Option Bytes :=
  (rsplitFileAtDot name).1.bind fun _ => (rsplitFileAtDot name).2

def fileStem (name : Bytes) : Option Bytes := (rsplitFileAtDot name).1 <|> (rsplitFileAtDot name).2

theorem splitLast_eq_none {d : UInt8} {name : Bytes} (h : splitLast d name = none) :
    d ∉ name := by
  induction name with
  | nil => exact List.not_mem_nil
  | cons b bs ih =>
    rw [splitLast] at h
    split at h
    · cases h
    · rename_i hbs
      split at h
      · cases h
      · rename_i hb
        intro hd
        rcases List.mem_cons.mp hd with rfl | hd
        · exact hb rfl
        · exact ih hbs hd

theorem splitLast_eq_some {d : UInt8} {name before after : Bytes}
    (h : splitLast d name = some (before, after)) : name = before ++ d :: after ∧ d ∉ after := by
  induction name generalizing before with
  | nil => cases h
  | cons b bs ih =>
    rw [splitLast] at h
    split at h
    · rename_i hbs
      cases h
      obtain ⟨hname, hafter⟩ := ih hbs
      exact ⟨by rw [hname, List.cons_append], hafter⟩
    · rename_i hbs
      split at h
      · rename_i hb
        cases h
        exact ⟨by rw [hb, List.nil_append], splitLast_eq_none hbs⟩
      · cases h

theorem splitLast_of_not_mem {d : UInt8} {name : Bytes} (h : d ∉ name) :
    splitLast d name = none := by
  cases hs : splitLast d name with
  | none => rfl
  | some parts => exact absurd ((splitLast_eq_some hs).1 ▸ by simp) h

theorem splitLast_append {d : UInt8} {before after : Bytes} (h : d ∉ after) :
    splitLast d (before ++ d :: after) = some (before, after) := by
  induction before with
  | nil => rw [List.nil_append, splitLast, splitLast_of_not_mem h, if_pos rfl]
  | cons b bs ih => rw [List.cons_append, splitLast, ih]

theorem rsplitFileAtDot_append {stem ext : Bytes} (hstem : stem ≠ []) (hext : ext ≠ [])
    (hdot : dot ∉ ext) : rsplitFileAtDot (stem ++ dot :: ext) = (some stem, some ext) := by
  have hname : stem ++ dot :: ext ≠ [dot, dot] := by
    intro h
    have hlen := congrArg List.length h
    have hs := List.length_pos_of_ne_nil hstem
    have he := List.length_pos_of_ne_nil hext
    simp only [List.length_append, List.length_cons, List.length_nil] at hlen
    omega
  rw [rsplitFileAtDot, if_neg hname, splitLast_append hdot]
  cases stem with
  | nil => exact absurd rfl hstem
  | cons b stem => rfl

theorem rsplitFileAtDot_of_extension {name ext : Bytes} (h : extension name = some ext) :
    ∃ stem, rsplitFileAtDot name = (some stem, some ext) ∧ name = stem ++ dot :: ext := by
  obtain ⟨stem, hfst, hsnd⟩ := Option.bind_eq_some_iff.mp h
  have hboth : rsplitFileAtDot name = (some stem, some ext) := Prod.ext hfst hsnd
  refine ⟨stem, hboth, ?_⟩
  rw [rsplitFileAtDot] at hboth
  split at hboth
  · cases hboth
  · split at hboth
    · cases hboth
    · cases hboth
    · rename_i hsplit
      cases hboth
      exact (splitLast_eq_some hsplit).1

theorem fileStem_of_rsplit {name stem : Bytes} {ext : Option Bytes}
    (h : rsplitFileAtDot name = (some stem, ext)) : fileStem name = some stem := by
  rw [fileStem, h]
  rfl

theorem extension_of_rsplit {name stem : Bytes} {ext : Option Bytes}
    (h : rsplitFileAtDot name = (some stem, ext)) : extension name = ext := by
  rw [extension, h]
  rfl

/-! ## Directories -/

structure Directory (ε : Type) where
  entries : List (Bytes × ε)
  nodup : (entries.map Prod.fst).Nodup

namespace Directory

variable {ε δ : Type} (d : Directory ε)

def find (name : Bytes) : Option ε := d.entries.lookup name

def filter (p : Bytes → ε → Bool) : Directory ε :=
  ⟨d.entries.filter fun e => p e.1 e.2, d.nodup.sublist (List.filter_sublist.map _)⟩

def map (f : ε → δ) : Directory δ where
  entries := d.entries.map fun e => (e.1, f e.2)
  nodup := by
    rw [List.map_map]
    exact d.nodup

variable {d}

theorem find_eq_some {name : Bytes} {x : ε} : d.find name = some x ↔ (name, x) ∈ d.entries := by
  have hnodup := d.nodup
  rw [find, List.lookup_eq_some_iff]
  constructor
  · rintro ⟨before, after, h, -⟩
    rw [h]
    simp
  · intro h
    obtain ⟨before, after, h⟩ := List.append_of_mem h
    refine ⟨before, after, h, fun e he => ?_⟩
    rw [h, List.map_append, List.map_cons, List.nodup_append] at hnodup
    have hne := hnodup.2.2 e.1 (List.mem_map_of_mem he) name List.mem_cons_self
    exact bne_iff_ne.mpr hne.symm

theorem find_filter {p : Bytes → ε → Bool} {name : Bytes} {x : ε} :
    (d.filter p).find name = some x ↔ d.find name = some x ∧ p name x = true := by
  rw [find_eq_some, find_eq_some]
  exact List.mem_filter

theorem find_map {f : ε → δ} {name : Bytes} {y : δ} :
    (d.map f).find name = some y ↔ ∃ x, d.find name = some x ∧ f x = y := by
  rw [find_eq_some]
  constructor
  · intro h
    obtain ⟨e, he, hy⟩ := List.mem_map.mp h
    cases hy
    exact ⟨e.2, find_eq_some.mpr he, rfl⟩
  · rintro ⟨x, hx, rfl⟩
    exact List.mem_map.mpr ⟨(name, x), find_eq_some.mp hx, rfl⟩

end Directory

end Disk

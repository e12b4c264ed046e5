import Mathlib.Data.List.Sort
import Mathlib.Data.Finset.Card
import Mathlib.Order.Basic

/-!
# Paging through rows in the order of a key

A page holds the rows with the smallest keys, at most `limit` of them.  The next page is asked for
with the key of the last row as a strict lower bound, so rows are passed over only if two of them
have the same key.
-/

namespace Paging

variable {α κ : Type*} [LinearOrder κ] (key : α → κ) (limit : Nat) (rows : List α)

def page : List α := (rows.insertionSort fun a b => key a ≤ key b).take limit

variable {key limit rows} {a last : α}

theorem mem_of_mem_page (h : a ∈ page key limit rows) : a ∈ rows :=
  (List.mem_insertionSort _).mp (List.mem_of_mem_take h)

theorem length_page : (page key limit rows).length = min limit rows.length := by
  rw [page, List.length_take, List.length_insertionSort]

theorem pairwise_page : (page key limit rows).Pairwise fun a b => key a ≤ key b :=
  (List.pairwise_insertionSort _ rows).sublist (List.take_sublist _ _)

theorem page_perm (h : rows.length ≤ limit) : (page key limit rows).Perm rows := by
  rw [page, List.take_of_length_le (by rwa [List.length_insertionSort])]
  exact List.perm_insertionSort _ rows

theorem le_last {p : List α} (hsorted : p.Pairwise fun a b => key a ≤ key b)
    (hlast : p.getLast? = some last) (ha : a ∈ p) : key a ≤ key last := by
  obtain ⟨init, rfl⟩ := List.getLast?_eq_some_iff.mp hlast
  rcases List.mem_append.mp ha with ha | ha
  · exact (List.pairwise_append.mp hsorted).2.2 a ha last (List.mem_singleton.mpr rfl)
  · rw [List.mem_singleton.mp ha]

theorem mem_page_of_length_lt (h : (page key limit rows).length < limit) (ha : a ∈ rows) :
    a ∈ page key limit rows := by
  have hshort : rows.length ≤ limit := by
    rw [length_page] at h
    omega
  exact (page_perm hshort).mem_iff.mpr ha

theorem mem_page_or_lt (hinj : ∀ b ∈ rows, ∀ c ∈ rows, key b = key c → b = c) (ha : a ∈ rows)
    (hlast : (page key limit rows).getLast? = some last) :
    a ∈ page key limit rows ∨ key last < key a := by
  have hmem : last ∈ page key limit rows := List.mem_of_getLast? hlast
  have hsorted := List.pairwise_insertionSort (fun a b => key a ≤ key b) rows
  rw [← List.take_append_drop limit (rows.insertionSort _), List.pairwise_append] at hsorted
  have ha' : a ∈ rows.insertionSort fun a b => key a ≤ key b := (List.mem_insertionSort _).mpr ha
  rw [← List.take_append_drop limit (rows.insertionSort _), List.mem_append] at ha'
  rcases ha' with hin | hout
  · exact .inl hin
  · rcases (hsorted.2.2 last hmem a hout).lt_or_eq with hlt | heq
    · exact .inr hlt
    · rw [← hinj last (mem_of_mem_page hmem) a ha heq]
      exact .inl hmem

/-! ## The loop over the pages -/

def behind (key : α → κ) (cursor : Option κ) (rows : List α) : List α :=
  rows.filter fun a => cursor.all (· < key a)

theorem mem_behind {cursor : Option κ} :
    a ∈ behind key cursor rows ↔ a ∈ rows ∧ ∀ c, cursor = some c → c < key a := by
  rw [behind, List.mem_filter]
  cases cursor <;> simp

theorem mem_page_behind {cursor : Option κ} (h : a ∈ page key limit (behind key cursor rows)) :
    a ∈ rows ∧ ∀ c, cursor = some c → c < key a := mem_behind.mp (mem_of_mem_page h)

/-- Page after page, page `i` from the table `tables i` and behind the last row of the page before
it, until a page is not full; `none` if `fuel` pages do not get there. -/
def pages (key : α → κ) (limit : Nat) (tables : Nat → List α) :
    Nat → Nat → Option κ → Option (List (List α))
  | 0, _, _ => none
  | fuel + 1, i, cursor =>
    let p := page key limit (behind key cursor (tables i))
    if p.length < limit then some [p]
    else match p.getLast? with
      | none => (pages key limit tables fuel (i + 1) cursor).map (p :: ·)
      | some last => (pages key limit tables fuel (i + 1) (some (key last))).map (p :: ·)

variable {tables : Nat → List α} {fuel i : Nat} {cursor : Option κ} {ps : List (List α)}

theorem pages_cases (hlimit : 0 < limit) (h : pages key limit tables (fuel + 1) i cursor = some ps) :
    ((page key limit (behind key cursor (tables i))).length < limit ∧
      ps = [page key limit (behind key cursor (tables i))]) ∨
    ∃ last rest, (page key limit (behind key cursor (tables i))).getLast? = some last ∧
      (page key limit (behind key cursor (tables i))).length = limit ∧
      pages key limit tables fuel (i + 1) (some (key last)) = some rest ∧
      ps = page key limit (behind key cursor (tables i)) :: rest := by
  unfold pages at h
  dsimp only at h
  split at h
  · next hlt => exact .inl ⟨hlt, (Option.some.inj h).symm⟩
  · next hfull =>
    have hlen : (page key limit (behind key cursor (tables i))).length = limit := by
      have hle : (page key limit (behind key cursor (tables i))).length = min limit _ := length_page
      omega
    split at h
    · next hnone =>
      rw [List.getLast?_eq_none_iff.mp hnone] at hlen
      exact absurd hlen hlimit.ne
    · next last hlast =>
      obtain ⟨rest, hrest, rfl⟩ := Option.map_eq_some_iff.mp h
      exact .inr ⟨last, rest, hlast, hlen, hrest, rfl⟩

theorem length_le_of_mem_pages (hlimit : 0 < limit)
    (h : pages key limit tables fuel i cursor = some ps) : ∀ p ∈ ps, p.length ≤ limit := by
  have hpage {rows : List α} : (page key limit rows).length ≤ limit := by
    rw [length_page]
    exact Nat.min_le_left _ _
  induction fuel generalizing i cursor ps with
  | zero => cases h
  | succ fuel ih =>
    rcases pages_cases hlimit h with ⟨-, rfl⟩ | ⟨last, rest, -, -, hrest, rfl⟩
    · exact List.forall_mem_singleton.mpr hpage
    · exact List.forall_mem_cons.mpr ⟨hpage, ih hrest⟩

theorem mem_of_mem_pages (hlimit : 0 < limit) (h : pages key limit tables fuel i cursor = some ps)
    (ha : a ∈ ps.flatten) : (∃ j, a ∈ tables j) ∧ ∀ c, cursor = some c → c < key a := by
  induction fuel generalizing i cursor ps with
  | zero => cases h
  | succ fuel ih =>
    rcases pages_cases hlimit h with ⟨-, rfl⟩ | ⟨last, rest, hlast, -, hrest, rfl⟩
    · rw [List.flatten_singleton] at ha
      exact ⟨⟨i, (mem_page_behind ha).1⟩, (mem_page_behind ha).2⟩
    · rw [List.flatten_cons, List.mem_append] at ha
      rcases ha with ha | ha
      · exact ⟨⟨i, (mem_page_behind ha).1⟩, (mem_page_behind ha).2⟩
      · obtain ⟨htable, hbehind⟩ := ih hrest ha
        have hlast' := (mem_page_behind (List.mem_of_getLast? hlast)).2
        exact ⟨htable, fun c hc => (hlast' c hc).trans (hbehind _ rfl)⟩

theorem exists_pages (hlimit : 0 < limit) {K : Finset κ} (hK : ∀ j, ∀ a ∈ tables j, key a ∈ K)
    (hfuel : (K.filter fun k => cursor.all (· < k)).card < fuel) :
    ∃ ps, pages key limit tables fuel i cursor = some ps := by
  induction fuel generalizing i cursor with
  | zero => exact absurd hfuel (Nat.not_lt_zero _)
  | succ fuel ih =>
    unfold pages
    dsimp only
    split
    · exact ⟨_, rfl⟩
    · next hfull =>
      split
      · next hnone =>
        rw [List.getLast?_eq_none_iff.mp hnone] at hfull
        exact absurd hlimit hfull
      · next last hlast =>
        -- the key of the last row is not behind the next cursor
        obtain ⟨htable, hbehind⟩ := mem_page_behind (List.mem_of_getLast? hlast)
        have hless : (K.filter fun k => (some (key last)).all (· < k)).card <
            (K.filter fun k => cursor.all (· < k)).card := by
          apply Finset.card_lt_card
          rw [Finset.ssubset_iff_of_subset]
          · refine ⟨key last, ?_, by simp⟩
            rw [Finset.mem_filter]
            refine ⟨hK i last htable, ?_⟩
            cases cursor with
            | none => rfl
            | some c => exact decide_eq_true (hbehind c rfl)
          · intro k hk
            rw [Finset.mem_filter] at hk ⊢
            refine ⟨hk.1, ?_⟩
            cases cursor with
            | none => rfl
            | some c => exact decide_eq_true ((hbehind c rfl).trans (of_decide_eq_true hk.2))
        obtain ⟨rest, hrest⟩ := ih (i := i + 1) (lt_of_lt_of_le hless (Nat.le_of_lt_succ hfuel))
        exact ⟨_, by rw [hrest]; rfl⟩

section Distinct

variable (hkeys : ∀ j, ((tables j).map key).Nodup)

include hkeys

theorem pairwise_page_lt (j : Nat) (cursor : Option κ) :
    (page key limit (behind key cursor (tables j))).Pairwise fun a b => key a < key b := by
  have hsorted := List.pairwise_insertionSort (fun a b => key a ≤ key b)
    (behind key cursor (tables j))
  have hdistinct : ((behind key cursor (tables j)).insertionSort fun a b => key a ≤ key b).Pairwise
      fun a b => key a ≠ key b := by
    rw [← List.pairwise_map (f := key) (R := (· ≠ ·))]
    have hperm := (List.perm_insertionSort (fun a b => key a ≤ key b)
      (behind key cursor (tables j))).map key
    exact hperm.nodup_iff.mpr ((hkeys j).sublist (List.filter_sublist.map key))
  refine List.Pairwise.sublist (List.take_sublist _ _) ((hsorted.and hdistinct).imp ?_)
  exact fun hab => lt_of_le_of_ne hab.1 hab.2

theorem pairwise_pages (hlimit : 0 < limit)
    (h : pages key limit tables fuel i cursor = some ps) :
    ps.flatten.Pairwise fun a b => key a < key b := by
  induction fuel generalizing i cursor ps with
  | zero => cases h
  | succ fuel ih =>
    rcases pages_cases hlimit h with ⟨-, rfl⟩ | ⟨last, rest, hlast, -, hrest, rfl⟩
    · rw [List.flatten_singleton]
      exact pairwise_page_lt hkeys i cursor
    · rw [List.flatten_cons, List.pairwise_append]
      refine ⟨pairwise_page_lt hkeys i cursor, ih hrest, fun a ha b hb => ?_⟩
      have hnext : key last < key b := (mem_of_mem_pages hlimit hrest hb).2 _ rfl
      -- the last row of a page has its largest key
      exact lt_of_le_of_lt (le_last pairwise_page hlast ha) hnext

theorem mem_pages (hlimit : 0 < limit) (h : pages key limit tables fuel i cursor = some ps)
    (ha : ∀ j, a ∈ tables j) (hcursor : ∀ c, cursor = some c → c < key a) : a ∈ ps.flatten := by
  have hinj (j : Nat) (cursor : Option κ) : ∀ b ∈ behind key cursor (tables j),
      ∀ c ∈ behind key cursor (tables j), key b = key c → b = c := by
    intro b hb c hc heq
    exact List.inj_on_of_nodup_map (hkeys j) (mem_behind.mp hb).1 (mem_behind.mp hc).1 heq
  induction fuel generalizing i cursor ps with
  | zero => cases h
  | succ fuel ih =>
    have hmem : a ∈ behind key cursor (tables i) := mem_behind.mpr ⟨ha i, hcursor⟩
    rcases pages_cases hlimit h with ⟨hlt, rfl⟩ | ⟨last, rest, hlast, -, hrest, rfl⟩
    · rw [List.flatten_singleton]
      exact mem_page_of_length_lt hlt hmem
    · rw [List.flatten_cons, List.mem_append]
      rcases mem_page_or_lt (hinj i cursor) hmem hlast with hpage | hlt
      · exact .inl hpage
      · refine .inr (ih hrest ?_)
        intro c hc
        cases hc
        exact hlt

end Distinct

/-! ## Equal keys -/

def Aligned (key : α → κ) (limit : Nat) (rows : List α) : Prop :=
  ∀ a ∈ rows, ∀ k, ¬ (rows.countP (key · < key a) < k * limit ∧
    k * limit < rows.countP (key · ≤ key a))

theorem Aligned.perm {rows' : List α} (h : Aligned key limit rows) (hp : rows.Perm rows') :
    Aligned key limit rows' := by
  intro a ha k
  rw [← hp.countP_eq, ← hp.countP_eq]
  exact h a (hp.mem_iff.mpr ha) k

theorem Aligned.of_length_le (h : rows.length ≤ limit) : Aligned key limit rows := by
  rintro a - k ⟨hlt, hgt⟩
  have hle : rows.countP (key · ≤ key a) ≤ rows.length := List.countP_le_length
  rcases Nat.eq_zero_or_pos k with rfl | hk
  · rw [Nat.zero_mul] at hlt
    exact absurd hlt (Nat.not_lt_zero _)
  · have := Nat.le_mul_of_pos_left limit hk
    omega

section Split

variable {p q : List α}

theorem lt_of_aligned (h : Aligned key limit (p ++ q)) (hlen : p.length = limit)
    (hsorted : (p ++ q).Pairwise fun a b => key a ≤ key b) (hlast : p.getLast? = some last) :
    ∀ b ∈ q, key last < key b := by
  have hmem : last ∈ p := List.mem_of_getLast? hlast
  have hle : ∀ b ∈ q, key last ≤ key b := fun b hb => (List.pairwise_append.mp hsorted).2.2 _ hmem b hb
  intro b hb
  by_contra hnot
  -- the keys below the last one are on the page, and one more row than the page has is not above
  refine h last (List.mem_append_left q hmem) 1 ⟨?_, ?_⟩
  · have hq : q.countP (key · < key last) = 0 := by
      rw [List.countP_eq_zero]
      intro c hc
      simpa using hle c hc
    have hp : p.countP (key · < key last) < p.length := by
      rw [List.countP_lt_length_iff]
      exact ⟨last, hmem, by simp⟩
    rw [List.countP_append, hq]
    omega
  · have hq : 0 < q.countP (key · ≤ key last) := by
      rw [List.countP_pos_iff]
      exact ⟨b, hb, by simpa using hnot⟩
    have hp : p.countP (key · ≤ key last) = p.length := by
      rw [List.countP_eq_length]
      intro c hc
      simpa using le_last (List.pairwise_append.mp hsorted).1 hlast hc
    rw [List.countP_append, hp]
    omega

theorem Aligned.tail (h : Aligned key limit (p ++ q)) (hlen : p.length = limit)
    (hlt : ∀ a ∈ p, ∀ b ∈ q, key a < key b) : Aligned key limit q := by
  intro a ha k hk
  have hbelow : p.countP (key · < key a) = limit := by
    rw [← hlen, List.countP_eq_length]
    intro c hc
    simpa using hlt c hc a ha
  have hupto : p.countP (key · ≤ key a) = limit := by
    rw [← hlen, List.countP_eq_length]
    intro c hc
    simpa using (hlt c hc a ha).le
  refine h a (List.mem_append_right p ha) (k + 1) ?_
  rw [List.countP_append, List.countP_append, hbelow, hupto, Nat.succ_mul]
  omega

end Split

theorem page_append_perm : (page key limit rows ++
    (rows.insertionSort fun a b => key a ≤ key b).drop limit).Perm rows := by
  rw [page, List.take_append_drop]
  exact List.perm_insertionSort _ rows

theorem pairwise_page_append : (page key limit rows ++
    (rows.insertionSort fun a b => key a ≤ key b).drop limit).Pairwise fun a b => key a ≤ key b := by
  rw [page, List.take_append_drop]
  exact List.pairwise_insertionSort _ rows

theorem behind_behind {c : κ} (h : ∀ k, cursor = some k → k < c) :
    behind key (some c) (behind key cursor rows) = behind key (some c) rows := by
  rw [behind, behind, List.filter_filter]
  refine List.filter_congr fun a _ => ?_
  cases cursor with
  | none => simp
  | some k =>
    rw [Bool.eq_iff_iff]
    simpa using fun hc => (h k rfl).trans hc

theorem behind_last_perm {p q : List α} (hperm : (p ++ q).Perm (behind key cursor rows))
    (hsorted : p.Pairwise fun a b => key a ≤ key b) (hlast : p.getLast? = some last)
    (hlt : ∀ b ∈ q, key last < key b) : (behind key (some (key last)) rows).Perm q := by
  have hmem : last ∈ behind key cursor rows :=
    hperm.subset (List.mem_append_left q (List.mem_of_getLast? hlast))
  have hp : p.filter (fun a => (some (key last)).all (· < key a)) = [] := by
    rw [List.filter_eq_nil_iff]
    intro a ha
    simpa using le_last hsorted hlast ha
  have hq : q.filter (fun a => (some (key last)).all (· < key a)) = q := by
    rw [List.filter_eq_self]
    intro b hb
    simpa using hlt b hb
  have hfilter := hperm.symm.filter fun a => (some (key last)).all (· < key a)
  rw [List.filter_append, hp, hq, List.nil_append] at hfilter
  rw [← behind_behind (mem_behind.mp hmem).2]
  exact hfilter

theorem pages_aligned (hlimit : 0 < limit)
    (hrows : Aligned key limit (behind key cursor rows))
    (h : pages key limit (fun _ => rows) fuel i cursor = some ps) :
    ps.flatten.Perm (behind key cursor rows) ∧ ps.flatten.Pairwise fun a b => key a ≤ key b := by
  induction fuel generalizing i cursor ps with
  | zero => cases h
  | succ fuel ih =>
    rcases pages_cases hlimit h with ⟨hlt, rfl⟩ | ⟨last, rest, hlast, hlen, hrest, rfl⟩
    · rw [List.flatten_singleton]
      refine ⟨page_perm ?_, pairwise_page⟩
      rw [length_page] at hlt
      omega
    · have hperm : (page key limit (behind key cursor rows) ++ _).Perm _ := page_append_perm
      have hsorted : (page key limit (behind key cursor rows) ++ _).Pairwise _ :=
        pairwise_page_append
      have haligned := hrows.perm hperm.symm
      have hlt := lt_of_aligned haligned hlen hsorted hlast
      have hbehind := behind_last_perm hperm pairwise_page hlast hlt
      have hbelow : ∀ a ∈ page key limit (behind key cursor rows), key a ≤ key last :=
        fun a ha => le_last pairwise_page hlast ha
      -- the rest is aligned as well, a page earlier
      have htail := haligned.tail hlen fun a ha b hb => lt_of_le_of_lt (hbelow a ha) (hlt b hb)
      obtain ⟨hrest_perm, hrest_sorted⟩ := ih (htail.perm hbehind.symm) hrest
      rw [List.flatten_cons]
      refine ⟨((hrest_perm.trans hbehind).append_left _).trans hperm, ?_⟩
      rw [List.pairwise_append]
      refine ⟨pairwise_page, hrest_sorted, fun a ha b hb => ?_⟩
      exact ((hbelow a ha).trans_lt (hlt b ((hrest_perm.trans hbehind).subset hb))).le

end Paging

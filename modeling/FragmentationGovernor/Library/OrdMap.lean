import Mathlib.Data.List.Sort
import Mathlib.Order.Basic
import Mathlib.Data.List.Perm.Lattice

/-! # Ordered maps

A finite map kept as a list of entries in strictly increasing key order, so that
equal contents are equal maps and iteration order is key order. -/

namespace FragmentationGovernor

/-- A finite map whose entries are listed in strictly increasing key order. -/
@[ext]
structure OrdMap (κ : Type*) (ν : Type*) [LinearOrder κ] where
  entries : List (κ × ν)
  sorted : entries.Pairwise (fun a b => a.1 < b.1)

namespace OrdMap

variable {κ ν μ : Type*} [LinearOrder κ]

/-! ## Operations -/

instance [DecidableEq ν] : DecidableEq (OrdMap κ ν) := fun m n =>
  decidable_of_iff (m.entries = n.entries) OrdMap.ext_iff.symm

def empty : OrdMap κ ν := ⟨[], .nil⟩

instance : EmptyCollection (OrdMap κ ν) := ⟨empty⟩

instance : Inhabited (OrdMap κ ν) := ⟨empty⟩

def size (m : OrdMap κ ν) : ℕ := m.entries.length

/-- The value stored under a key. -/
def find? (m : OrdMap κ ν) (k : κ) : Option ν := m.entries.lookup k

def contains (m : OrdMap κ ν) (k : κ) : Bool := (m.find? k).isSome

/-- Insertion into a sorted entry list, replacing the entry of an equal key. -/
def insertEntry (k : κ) (v : ν) : List (κ × ν) → List (κ × ν)
  | [] => [(k, v)]
  | e :: rest =>
      if k < e.1 then (k, v) :: e :: rest
      else if k = e.1 then (k, v) :: rest
      else e :: insertEntry k v rest

theorem mem_insertEntry_of_mem {k : κ} {v : ν} {l : List (κ × ν)} {e : κ × ν}
    (h : e ∈ insertEntry k v l) : e = (k, v) ∨ e ∈ l := by
  induction l with
  | nil => simpa [insertEntry] using h
  | cons x rest ih =>
      simp only [insertEntry] at h
      split_ifs at h with hlt heq
      · simpa using h
      · rcases List.mem_cons.mp h with h | h
        · exact Or.inl h
        · exact Or.inr (List.mem_cons_of_mem x h)
      · rcases List.mem_cons.mp h with h | h
        · exact Or.inr (by simp [h])
        · exact (ih h).imp_right (List.mem_cons_of_mem x)

theorem sorted_insertEntry (k : κ) (v : ν) {l : List (κ × ν)}
    (h : l.Pairwise (fun a b => a.1 < b.1)) :
    (insertEntry k v l).Pairwise (fun a b => a.1 < b.1) := by
  induction l with
  | nil => simp [insertEntry]
  | cons x rest ih =>
      obtain ⟨hx, hrest⟩ := List.pairwise_cons.mp h
      simp only [insertEntry]
      split_ifs with hlt heq
      · refine List.pairwise_cons.mpr ⟨?_, h⟩
        intro e he
        rcases List.mem_cons.mp he with rfl | he
        · exact hlt
        · exact hlt.trans (hx e he)
      · refine List.pairwise_cons.mpr ⟨?_, hrest⟩
        intro e he
        exact heq ▸ hx e he
      · refine List.pairwise_cons.mpr ⟨?_, ih hrest⟩
        intro e he
        rcases mem_insertEntry_of_mem he with rfl | he
        · exact lt_of_le_of_ne (not_lt.mp hlt) (Ne.symm heq)
        · exact hx e he

/-- Insertion that replaces an existing entry. -/
def insert (m : OrdMap κ ν) (k : κ) (v : ν) : OrdMap κ ν :=
  ⟨insertEntry k v m.entries, sorted_insertEntry k v m.sorted⟩

/-- Insertion that keeps an existing entry. -/
def emplace (m : OrdMap κ ν) (k : κ) (v : ν) : OrdMap κ ν :=
  if m.contains k then m else m.insert k v

def erase (m : OrdMap κ ν) (k : κ) : OrdMap κ ν :=
  ⟨m.entries.filter (fun e => decide (e.1 ≠ k)), m.sorted.filter _⟩

/-- Rewrites every value, leaving the keys alone. -/
def mapVals (m : OrdMap κ ν) (f : κ → ν → μ) : OrdMap κ μ :=
  ⟨m.entries.map (fun e => (e.1, f e.1 e.2)),
    List.pairwise_map.mpr m.sorted⟩

/-- The entry with the largest key at most `k`. -/
def findLE? (m : OrdMap κ ν) (k : κ) : Option (κ × ν) :=
  (m.entries.filter (fun e => decide (e.1 ≤ k))).getLast?

/-- The entry just before `k`. -/
def findLT? (m : OrdMap κ ν) (k : κ) : Option (κ × ν) :=
  (m.entries.filter (fun e => decide (e.1 < k))).getLast?

/-- The entry just after `k`. -/
def findGT? (m : OrdMap κ ν) (k : κ) : Option (κ × ν) :=
  (m.entries.filter (fun e => decide (k < e.1))).head?

/-! ## Lookup and membership -/

theorem find?_eq_some_iff {m : OrdMap κ ν} {k : κ} {v : ν} :
    m.find? k = some v ↔ (k, v) ∈ m.entries := by
  obtain ⟨l, hl⟩ := m
  change l.lookup k = some v ↔ (k, v) ∈ l
  induction l with
  | nil => simp
  | cons x rest ih =>
      obtain ⟨hx, hrest⟩ := List.pairwise_cons.mp hl
      obtain ⟨k', v'⟩ := x
      by_cases hk : k = k'
      · subst k'
        have hnot : (k, v) ∉ rest := fun h => lt_irrefl k (hx _ h)
        simp [hnot, eq_comm]
      · have hb : (k == k') = false := by simpa using hk
        simp [List.lookup_cons, hb, ih hrest, hk]

theorem find?_eq_none_iff {m : OrdMap κ ν} {k : κ} :
    m.find? k = none ↔ ∀ e ∈ m.entries, e.1 ≠ k := by
  constructor
  · rintro h ⟨k', v⟩ he rfl
    simp [find?_eq_some_iff.mpr he] at h
  · intro h
    cases hf : m.find? k with
    | none => rfl
    | some v => exact (h (k, v) (find?_eq_some_iff.mp hf) rfl).elim

theorem contains_iff {m : OrdMap κ ν} {k : κ} :
    m.contains k = true ↔ ∃ v, m.find? k = some v := by
  simp [contains, Option.isSome_iff_exists]

theorem not_contains_iff {m : OrdMap κ ν} {k : κ} :
    m.contains k = false ↔ m.find? k = none := by
  simp [contains]

theorem nodup_entries (m : OrdMap κ ν) : m.entries.Nodup :=
  m.sorted.imp (fun {a b} hlt => fun heq : a = b => by simp [← heq] at hlt)

theorem nodup_keys (m : OrdMap κ ν) : (m.entries.map (fun e => e.1)).Nodup :=
  List.pairwise_map.mpr (m.sorted.imp (fun hlt => ne_of_lt hlt))

/-- Maps with the same lookups have the same entries. -/
theorem ext_find? {m n : OrdMap κ ν} (h : ∀ k, m.find? k = n.find? k) : m = n := by
  have hmem : ∀ e, e ∈ m.entries ↔ e ∈ n.entries := by
    rintro ⟨k, v⟩
    rw [← find?_eq_some_iff, ← find?_eq_some_iff, h]
  apply OrdMap.ext
  apply List.Perm.eq_of_pairwise (fun a b _ _ hab hba => (lt_asymm hab hba).elim)
    m.sorted n.sorted
  exact (List.perm_ext_iff_of_nodup m.nodup_entries n.nodup_entries).mpr hmem

theorem mem_insertEntry {k : κ} {v : ν} {l : List (κ × ν)}
    (h : l.Pairwise (fun a b => a.1 < b.1)) {e : κ × ν} :
    e ∈ insertEntry k v l ↔ e = (k, v) ∨ (e.1 ≠ k ∧ e ∈ l) := by
  induction l with
  | nil => simp [insertEntry]
  | cons x rest ih =>
      obtain ⟨hx, hrest⟩ := List.pairwise_cons.mp h
      simp only [insertEntry]
      split_ifs with hlt heq
      · have hne : ∀ y ∈ x :: rest, y.1 ≠ k := by
          intro y hy
          rcases List.mem_cons.mp hy with rfl | hy
          · exact hlt.ne'
          · exact (hlt.trans (hx y hy)).ne'
        rw [List.mem_cons]
        exact or_congr_right ⟨fun he => ⟨hne e he, he⟩, fun he => he.2⟩
      · have hne : ∀ y ∈ rest, y.1 ≠ k := fun y hy => (heq ▸ hx y hy).ne'
        simp only [List.mem_cons]
        refine or_congr_right ⟨fun he => ⟨hne e he, Or.inr he⟩, ?_⟩
        rintro ⟨hk, rfl | he⟩
        · exact (hk heq.symm).elim
        · exact he
      · simp only [List.mem_cons, ih hrest]
        constructor
        · rintro (rfl | rfl | ⟨hk, he⟩)
          · exact Or.inr ⟨Ne.symm heq, Or.inl rfl⟩
          · exact Or.inl rfl
          · exact Or.inr ⟨hk, Or.inr he⟩
        · rintro (rfl | ⟨hk, rfl | he⟩)
          · exact Or.inr (Or.inl rfl)
          · exact Or.inl rfl
          · exact Or.inr (Or.inr ⟨hk, he⟩)

theorem mem_insert {m : OrdMap κ ν} {k : κ} {v : ν} {e : κ × ν} :
    e ∈ (m.insert k v).entries ↔ e = (k, v) ∨ (e.1 ≠ k ∧ e ∈ m.entries) :=
  mem_insertEntry m.sorted

theorem mem_erase {m : OrdMap κ ν} {k : κ} {e : κ × ν} :
    e ∈ (m.erase k).entries ↔ e.1 ≠ k ∧ e ∈ m.entries := by
  simp [erase, and_comm]

theorem find?_insert (m : OrdMap κ ν) (k k' : κ) (v : ν) :
    (m.insert k v).find? k' = if k' = k then some v else m.find? k' := by
  ext w
  rw [find?_eq_some_iff, mem_insert]
  split_ifs with hk
  · simp [hk, eq_comm]
  · simp [hk, find?_eq_some_iff]

@[simp] theorem find?_insert_self (m : OrdMap κ ν) (k : κ) (v : ν) :
    (m.insert k v).find? k = some v := by
  simp [find?_insert]

theorem find?_insert_of_ne (m : OrdMap κ ν) {k k' : κ} (v : ν) (h : k' ≠ k) :
    (m.insert k v).find? k' = m.find? k' := by
  simp [find?_insert, h]

theorem insert_comm (m : OrdMap κ ν) {k k' : κ} (v v' : ν) (h : k ≠ k') :
    (m.insert k v).insert k' v' = (m.insert k' v').insert k v := by
  apply ext_find?
  intro j
  simp only [find?_insert]
  by_cases hj : j = k
  · rw [if_pos hj, if_pos hj, if_neg (fun hk => h (hj.symm.trans hk))]
  · rw [if_neg hj, if_neg hj]

theorem find?_erase (m : OrdMap κ ν) (k k' : κ) :
    (m.erase k).find? k' = if k' = k then none else m.find? k' := by
  ext w
  rw [find?_eq_some_iff, mem_erase]
  split_ifs with hk
  · simp [hk]
  · simp [hk, find?_eq_some_iff]

@[simp] theorem find?_mapVals (m : OrdMap κ ν) (f : κ → ν → μ) (k : κ) :
    (m.mapVals f).find? k = (m.find? k).map (f k) := by
  ext w
  rw [find?_eq_some_iff, Option.map_eq_some_iff]
  simp only [mapVals, List.mem_map, Prod.mk.injEq, Prod.exists]
  constructor
  · rintro ⟨k', v, he, rfl, rfl⟩
    exact ⟨v, find?_eq_some_iff.mpr he, rfl⟩
  · rintro ⟨v, hv, rfl⟩
    exact ⟨k, v, find?_eq_some_iff.mp hv, rfl, rfl⟩

theorem mapVals_insert (m : OrdMap κ ν) (f : κ → ν → μ) (k : κ) (v : ν) :
    (m.insert k v).mapVals f = (m.mapVals f).insert k (f k v) := by
  apply ext_find?
  intro k'
  rw [find?_mapVals, find?_insert, find?_insert, find?_mapVals]
  split_ifs with hk
  · rw [hk]
    rfl
  · rfl

theorem mapVals_erase (m : OrdMap κ ν) (f : κ → ν → μ) (k : κ) :
    (m.erase k).mapVals f = (m.mapVals f).erase k := by
  apply ext_find?
  intro k'
  rw [find?_mapVals, find?_erase, find?_erase, find?_mapVals]
  split_ifs with hk
  · rfl
  · rfl

/-- Writing back the value already stored changes nothing. -/
theorem insert_of_find?_eq_some {m : OrdMap κ ν} {k : κ} {v : ν}
    (h : m.find? k = some v) : m.insert k v = m := by
  apply ext_find?
  intro k'
  rw [find?_insert]
  split_ifs with hk
  · rw [hk, h]
  · rfl

theorem emplace_of_find?_eq_none {m : OrdMap κ ν} {k : κ} (v : ν)
    (h : m.find? k = none) : m.emplace k v = m.insert k v := by
  simp [emplace, contains, h]

/-! ## Entry lists -/

/-- A new entry takes its place between the smaller and the larger keys. -/
theorem entries_insert_of_split {m : OrdMap κ ν} {k : κ} (v : ν)
    {front back : List (κ × ν)} (hm : m.entries = front ++ back)
    (hfront : ∀ e ∈ front, e.1 < k) (hback : ∀ e ∈ back, k < e.1) :
    (m.insert k v).entries = front ++ (k, v) :: back := by
  have hsplit : ∀ l : List (κ × ν), (∀ e ∈ l, e.1 < k) →
      insertEntry k v (l ++ back) = l ++ (k, v) :: back := by
    intro l hl
    induction l with
    | nil =>
        cases back with
        | nil => rfl
        | cons b rest => simp [insertEntry, hback b (by simp)]
    | cons x rest ih =>
        have hx : x.1 < k := hl x (by simp)
        simp [insertEntry, hx.not_gt, hx.ne',
          ih (fun e he => hl e (List.mem_cons_of_mem x he))]
  change insertEntry k v m.entries = _
  rw [hm, hsplit front hfront]

theorem find?_eq_none_of_split {m : OrdMap κ ν} {k : κ} {front back : List (κ × ν)}
    (hm : m.entries = front ++ back) (hfront : ∀ e ∈ front, e.1 < k)
    (hback : ∀ e ∈ back, k < e.1) : m.find? k = none := by
  rw [find?_eq_none_iff, hm]
  intro e he
  rcases List.mem_append.mp he with he | he
  · exact (hfront e he).ne
  · exact (hback e he).ne'

/-- `emplace` at a key lying strictly between two groups of entries. -/
theorem entries_emplace_of_split {m : OrdMap κ ν} {k : κ} (v : ν)
    {front back : List (κ × ν)} (hm : m.entries = front ++ back)
    (hfront : ∀ e ∈ front, e.1 < k) (hback : ∀ e ∈ back, k < e.1) :
    (m.emplace k v).entries = front ++ (k, v) :: back := by
  rw [emplace_of_find?_eq_none v (find?_eq_none_of_split hm hfront hback)]
  exact entries_insert_of_split v hm hfront hback

/-- Sortedness read at one entry of the list. -/
theorem lt_of_split {m : OrdMap κ ν} {e : κ × ν} {front back : List (κ × ν)}
    (hm : m.entries = front ++ e :: back) :
    (∀ x ∈ front, x.1 < e.1) ∧ ∀ x ∈ back, e.1 < x.1 := by
  have hs := m.sorted
  rw [hm] at hs
  obtain ⟨-, hback, hcross⟩ := List.pairwise_append.mp hs
  exact ⟨fun x hx => hcross x hx e (by simp), fun x hx => List.rel_of_pairwise_cons hback hx⟩

theorem entries_erase_of_split {m : OrdMap κ ν} {e : κ × ν} {front back : List (κ × ν)}
    (hm : m.entries = front ++ e :: back) :
    (m.erase e.1).entries = front ++ back := by
  obtain ⟨hfront, hback⟩ := lt_of_split hm
  have hf : front.filter (fun x => decide (x.1 ≠ e.1)) = front :=
    List.filter_eq_self.mpr (fun x hx => by simpa using (hfront x hx).ne)
  have hb : back.filter (fun x => decide (x.1 ≠ e.1)) = back :=
    List.filter_eq_self.mpr (fun x hx => by simpa using (hback x hx).ne')
  change m.entries.filter _ = _
  rw [hm, List.filter_append, hf, List.filter_cons_of_neg (by simp), hb]

theorem find?_of_split {m : OrdMap κ ν} {k : κ} {v : ν} {front back : List (κ × ν)}
    (hm : m.entries = front ++ (k, v) :: back) : m.find? k = some v := by
  rw [find?_eq_some_iff, hm]
  simp

theorem findLT?_of_split {m : OrdMap κ ν} {e : κ × ν} {front back : List (κ × ν)}
    (hm : m.entries = front ++ e :: back) : m.findLT? e.1 = front.getLast? := by
  obtain ⟨hfront, hback⟩ := lt_of_split hm
  have hf : front.filter (fun x => decide (x.1 < e.1)) = front :=
    List.filter_eq_self.mpr (fun x hx => by simpa using hfront x hx)
  have hb : back.filter (fun x => decide (x.1 < e.1)) = [] :=
    List.filter_eq_nil_iff.mpr (fun x hx => by simpa using (hback x hx).le)
  rw [findLT?, hm, List.filter_append, hf, List.filter_cons_of_neg (by simp), hb,
    List.append_nil]

theorem findGT?_of_split {m : OrdMap κ ν} {e : κ × ν} {front back : List (κ × ν)}
    (hm : m.entries = front ++ e :: back) : m.findGT? e.1 = back.head? := by
  obtain ⟨hfront, hback⟩ := lt_of_split hm
  have hf : front.filter (fun x => decide (e.1 < x.1)) = [] :=
    List.filter_eq_nil_iff.mpr (fun x hx => by simpa using (hfront x hx).le)
  have hb : back.filter (fun x => decide (e.1 < x.1)) = back :=
    List.filter_eq_self.mpr (fun x hx => by simpa using hback x hx)
  rw [findGT?, hm, List.filter_append, hf, List.filter_cons_of_neg (by simp), hb,
    List.nil_append]

/-- The last entry at or below `k` is the one after which all keys exceed `k`. -/
theorem findLE?_of_split {m : OrdMap κ ν} {k : κ} {e : κ × ν} {front back : List (κ × ν)}
    (hm : m.entries = front ++ e :: back) (he : e.1 ≤ k) (hback : ∀ x ∈ back, k < x.1) :
    m.findLE? k = some e := by
  have hb : back.filter (fun x => decide (x.1 ≤ k)) = [] :=
    List.filter_eq_nil_iff.mpr (fun x hx => by simpa using hback x hx)
  rw [findLE?, hm, List.filter_append, List.filter_cons_of_pos (by simpa using he), hb]
  simp

theorem split_of_find? {m : OrdMap κ ν} {k : κ} {v : ν} (h : m.find? k = some v) :
    ∃ front back, m.entries = front ++ (k, v) :: back :=
  List.append_of_mem (find?_eq_some_iff.mp h)

/-- Inserting at a key already there replaces its entry in place. -/
theorem entries_insert_of_mem {m : OrdMap κ ν} {k : κ} {v : ν} (v' : ν)
    {front back : List (κ × ν)} (hm : m.entries = front ++ (k, v) :: back) :
    (m.insert k v').entries = front ++ (k, v') :: back := by
  have hfront := (lt_of_split hm).1
  change insertEntry k v' m.entries = _
  rw [hm]
  clear hm
  induction front with
  | nil => simp [insertEntry]
  | cons x rest ih =>
      have hx : x.1 < k := hfront x (by simp)
      have hrest := ih (fun y hy => hfront y (by simp [hy]))
      simp [insertEntry, hx.not_gt, hx.ne', hrest]

/-! ## Permutation views -/

theorem entries_insert_perm {m : OrdMap κ ν} {k : κ} (v : ν) (h : m.find? k = none) :
    (m.insert k v).entries.Perm ((k, v) :: m.entries) := by
  have hne := find?_eq_none_iff.mp h
  obtain ⟨l, hl⟩ := m
  change (insertEntry k v l).Perm ((k, v) :: l)
  induction l with
  | nil => exact List.Perm.refl _
  | cons x rest ih =>
      simp only [insertEntry]
      split_ifs with hlt heq
      · exact List.Perm.refl _
      · exact (hne x (by simp) heq.symm).elim
      · have hrest := (List.pairwise_cons.mp hl).2
        have hne' : ∀ e ∈ rest, e.1 ≠ k := fun e he => hne e (List.mem_cons_of_mem x he)
        have hp := ih hrest (find?_eq_none_iff.mpr hne') hne'
        exact (hp.cons x).trans (List.Perm.swap (k, v) x rest)

theorem entries_erase_perm {m : OrdMap κ ν} {k : κ} {v : ν} (h : m.find? k = some v) :
    m.entries.Perm ((k, v) :: (m.erase k).entries) := by
  obtain ⟨front, back, hm⟩ := split_of_find? h
  have he := entries_erase_of_split hm
  simp only at he
  rw [he, hm]
  exact List.perm_middle

end OrdMap

end FragmentationGovernor

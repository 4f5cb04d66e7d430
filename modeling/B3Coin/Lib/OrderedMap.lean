import Mathlib.Algebra.BigOperators.Group.List.Basic
import Mathlib.Algebra.Order.BigOperators.Group.List
import Mathlib.Data.List.Nodup
import Mathlib.Order.Defs.LinearOrder
import Mathlib.Tactic.Abel

/-!
# Ordered finite maps

A map is its list of entries in strictly increasing key order, so that equal maps
are equal lists and iteration is in key order. Sums over the entries are the
reason for the permutation lemmas: an update changes a total by exactly the
difference it makes at its own key.
-/

/-- A finite map whose entries are listed by increasing key. -/
@[ext]
structure OrderedMap (κ ν : Type*) [LT κ] where
  entries : List (κ × ν)
  sorted : entries.Pairwise (fun a b => a.1 < b.1)

namespace OrderedMap

open List Option

variable {κ ν : Type*} [LinearOrder κ]

instance [DecidableEq ν] : DecidableEq (OrderedMap κ ν) := fun m m' =>
  decidable_of_iff (m.entries = m'.entries) OrderedMap.ext_iff.symm

instance : EmptyCollection (OrderedMap κ ν) := ⟨⟨[], .nil⟩⟩

instance : Inhabited (OrderedMap κ ν) := ⟨∅⟩

def find? (m : OrderedMap κ ν) (k : κ) : Option ν :=
  (m.entries.find? (fun e => decide (e.1 = k))).map (·.2)

def contains (m : OrderedMap κ ν) (k : κ) : Bool := (m.find? k).isSome

def size (m : OrderedMap κ ν) : Nat := m.entries.length

def keys (m : OrderedMap κ ν) : List κ := m.entries.map (·.1)

/-- Put an entry at its place in a sorted list, replacing the one with its key. -/
def insertEntry (k : κ) (v : ν) : List (κ × ν) → List (κ × ν)
  | [] => [(k, v)]
  | e :: rest =>
    if k < e.1 then (k, v) :: e :: rest
    else if k = e.1 then (k, v) :: rest
    else e :: insertEntry k v rest

variable {k : κ} {v : ν} {l : List (κ × ν)}

theorem mem_insertEntry {x : κ × ν} : x ∈ insertEntry k v l → x = (k, v) ∨ x ∈ l := by
  induction l with
  | nil => simp [insertEntry]
  | cons e rest ih =>
    simp only [insertEntry]
    split_ifs
    · simp
    · intro h
      rcases mem_cons.mp h with h | h
      · exact .inl h
      · exact .inr (mem_cons_of_mem _ h)
    · intro h
      rcases mem_cons.mp h with h | h
      · exact .inr (by simp [h])
      · exact (ih h).imp_right (mem_cons_of_mem _)

theorem insertEntry_sorted (h : l.Pairwise (fun a b => a.1 < b.1)) :
    (insertEntry k v l).Pairwise (fun a b => a.1 < b.1) := by
  induction l with
  | nil => simp [insertEntry]
  | cons e rest ih =>
    obtain ⟨hhead, htail⟩ := pairwise_cons.mp h
    simp only [insertEntry]
    split_ifs with hlt heq
    · refine pairwise_cons.mpr ⟨fun x hx => ?_, h⟩
      rcases mem_cons.mp hx with rfl | hx
      · exact hlt
      · exact lt_trans hlt (hhead x hx)
    · exact pairwise_cons.mpr ⟨fun x hx => heq ▸ hhead x hx, htail⟩
    · refine pairwise_cons.mpr ⟨fun x hx => ?_, ih htail⟩
      rcases mem_insertEntry hx with rfl | hx
      · exact lt_of_le_of_ne (not_lt.mp hlt) (Ne.symm heq)
      · exact hhead x hx

section

variable (m : OrderedMap κ ν) (k : κ) (v : ν)

def insert : OrderedMap κ ν :=
  ⟨insertEntry k v m.entries, insertEntry_sorted m.sorted⟩

def erase : OrderedMap κ ν :=
  ⟨m.entries.filter (fun e => decide (e.1 ≠ k)), m.sorted.filter _⟩

/-- `std::map::emplace`: a key that is present keeps its value. -/
def emplace : OrderedMap κ ν :=
  if m.contains k then m else m.insert k v

end

/-! ## Lookups -/

theorem keys_nodup (m : OrderedMap κ ν) : m.keys.Nodup := by
  rw [keys, List.Nodup, pairwise_map]
  exact m.sorted.imp (fun h => ne_of_lt h)

variable {m : OrderedMap κ ν}

theorem eq_of_mem {a b : κ × ν} (ha : a ∈ m.entries) (hb : b ∈ m.entries) (h : a.1 = b.1) : a = b :=
  inj_on_of_nodup_map m.keys_nodup ha hb h

theorem find?_eq_some : m.find? k = some v ↔ (k, v) ∈ m.entries := by
  unfold find?
  constructor
  · intro h
    obtain ⟨e, he, rfl⟩ := map_eq_some_iff.mp h
    have hk := find?_some he
    rw [← of_decide_eq_true hk]
    exact mem_of_find?_eq_some he
  · intro h
    cases hf : m.entries.find? (fun e => decide (e.1 = k)) with
    | none => simpa using find?_eq_none.mp hf _ h
    | some e =>
      have hk : e.1 = k := by simpa using find?_some hf
      rw [eq_of_mem (mem_of_find?_eq_some hf) h hk]
      rfl

theorem find?_eq_none : m.find? k = none ↔ ∀ v, (k, v) ∉ m.entries := by
  constructor
  · intro h v hv
    rw [find?_eq_some.mpr hv] at h
    cases h
  · intro h
    cases hf : m.find? k with
    | none => rfl
    | some v => exact absurd (find?_eq_some.mp hf) (h v)

theorem contains_eq_false : m.contains k = false ↔ m.find? k = none := by
  simp [contains]

/-- The two ways a list of entries splits at a key: an insertion and a hit. -/
theorem insertEntry_perm (h : l.Pairwise (fun a b => a.1 < b.1)) :
    (insertEntry k v l).Perm ((k, v) :: l.filter (fun e => decide (e.1 ≠ k))) := by
  induction l with
  | nil => simp [insertEntry]
  | cons e rest ih =>
    obtain ⟨hhead, htail⟩ := pairwise_cons.mp h
    have hall : ∀ x : κ × ν, (∀ y ∈ rest, x.1 < y.1) → ∀ k, k ≤ x.1 →
        rest.filter (fun e => decide (e.1 ≠ k)) = rest := by
      intro x hx k hk
      rw [filter_eq_self]
      intro y hy
      exact decide_eq_true (ne_of_gt (lt_of_le_of_lt hk (hx y hy)))
    simp only [insertEntry]
    split_ifs with hlt heq
    · rw [filter_cons_of_pos (by simpa using ne_of_gt hlt), hall e hhead k (le_of_lt hlt)]
    · rw [filter_cons_of_neg (by simp [heq]), hall e hhead k (le_of_eq heq)]
    · rw [filter_cons_of_pos (by simpa using Ne.symm heq)]
      exact ((ih htail).cons e).trans (List.Perm.swap _ _ _)

theorem insert_perm (m : OrderedMap κ ν) (k : κ) (v : ν) :
    (m.insert k v).entries.Perm ((k, v) :: (m.erase k).entries) :=
  insertEntry_perm m.sorted

theorem perm_of_find? (h : m.find? k = some v) :
    m.entries.Perm ((k, v) :: (m.erase k).entries) := by
  have hmem := find?_eq_some.mp h
  have hrest : m.entries.filter (fun e => !decide (e.1 ≠ k)) = [(k, v)] := by
    have hnd : (m.entries.filter (fun e => !decide (e.1 ≠ k))).Nodup :=
      (List.Nodup.of_map _ m.keys_nodup).filter _
    refine perm_singleton.mp ((perm_ext_iff_of_nodup hnd (by simp)).mpr fun x => ?_)
    simp only [mem_filter, mem_singleton, Bool.not_eq_true', decide_eq_false_iff_not,
      not_not]
    constructor
    · rintro ⟨hx, hk⟩
      exact eq_of_mem hx hmem hk
    · rintro rfl
      exact ⟨hmem, rfl⟩
  have := (filter_append_perm (fun e => decide (e.1 ≠ k)) m.entries).symm
  rw [hrest] at this
  exact this.trans perm_append_comm

theorem erase_of_find?_none (h : m.find? k = none) : m.erase k = m := by
  refine OrderedMap.ext (filter_eq_self.mpr fun e he => decide_eq_true ?_)
  rintro rfl
  exact find?_eq_none.mp h e.2 he

@[simp] theorem find?_empty (k : κ) : (∅ : OrderedMap κ ν).find? k = none := rfl

variable {e : κ × ν}

theorem mem_erase : e ∈ (m.erase k).entries ↔ e ∈ m.entries ∧ e.1 ≠ k := by
  simp [erase]

theorem mem_insert : e ∈ (m.insert k v).entries ↔ e = (k, v) ∨ (e ∈ m.entries ∧ e.1 ≠ k) := by
  rw [(m.insert_perm k v).mem_iff, mem_cons, mem_erase]

theorem find?_insert (m : OrderedMap κ ν) (k k' : κ) (v : ν) :
    (m.insert k v).find? k' = if k' = k then some v else m.find? k' := by
  refine Option.ext fun w => ?_
  rw [find?_eq_some, mem_insert]
  by_cases h : k' = k
  · simp [h, eq_comm]
  · simp [h, find?_eq_some]

theorem find?_erase (m : OrderedMap κ ν) (k k' : κ) :
    (m.erase k).find? k' = if k' = k then none else m.find? k' := by
  refine Option.ext fun w => ?_
  rw [find?_eq_some, mem_erase]
  by_cases h : k' = k
  · simp [h]
  · simp [h, find?_eq_some]

@[simp] theorem find?_insert_self (m : OrderedMap κ ν) (k : κ) (v : ν) :
    (m.insert k v).find? k = some v := by simp [find?_insert]

@[simp] theorem find?_erase_self (m : OrderedMap κ ν) (k : κ) : (m.erase k).find? k = none := by
  simp [find?_erase]

theorem insert_insert (m : OrderedMap κ ν) (k : κ) (v w : ν) :
    (m.insert k v).insert k w = m.insert k w := by
  refine OrderedMap.ext ?_
  show insertEntry k w (insertEntry k v m.entries) = insertEntry k w m.entries
  induction m.entries with
  | nil => simp [insertEntry]
  | cons e rest ih =>
    rcases lt_trichotomy k e.1 with h | h | h
    · simp [insertEntry, h]
    · simp [insertEntry, ← h]
    · simp [insertEntry, h.not_gt, h.ne', ih]

theorem erase_insert (m : OrderedMap κ ν) (k : κ) (v : ν) : (m.insert k v).erase k = m.erase k := by
  refine OrderedMap.ext (List.Perm.eq_of_pairwise ?_ (OrderedMap.sorted _) (OrderedMap.sorted _) ?_)
  · intro a b _ _ hab hba
    exact absurd hab (lt_asymm hba)
  · have := (m.insert_perm k v).filter (fun e => decide (e.1 ≠ k))
    refine this.trans (List.Perm.of_eq ?_)
    simp [erase, List.filter_filter]

/-- Maps with the same lookups are equal. -/
theorem ext_find? {m' : OrderedMap κ ν} (h : ∀ k, m.find? k = m'.find? k) : m = m' := by
  refine OrderedMap.ext (List.Perm.eq_of_pairwise ?_ m.sorted m'.sorted ?_)
  · intro a b _ _ hab hba
    exact absurd hab (lt_asymm hba)
  · refine (perm_ext_iff_of_nodup (.of_map _ m.keys_nodup) (.of_map _ m'.keys_nodup)).mpr ?_
    rintro ⟨k, v⟩
    rw [← find?_eq_some, ← find?_eq_some, h]

/-- The entries of a part of a map, in their order. -/
theorem filter_entries {m' : OrderedMap κ ν} {p : ν → Bool}
    (h : ∀ k v, m'.find? k = some v ↔ m.find? k = some v ∧ p v = true) :
    m.entries.filter (fun e => p e.2) = m'.entries := by
  refine List.Perm.eq_of_pairwise ?_ (m.sorted.filter _) m'.sorted ?_
  · intro a b _ _ hab hba
    exact absurd hab (lt_asymm hba)
  · refine (perm_ext_iff_of_nodup (.filter _ (.of_map _ m.keys_nodup))
      (.of_map _ m'.keys_nodup)).mpr ?_
    rintro ⟨k, v⟩
    rw [mem_filter, ← find?_eq_some, ← find?_eq_some, h]

variable {ν' : Type*}

theorem filterMap_sorted (m : OrderedMap κ ν) (f : ν → Option ν') :
    (m.entries.filterMap (fun e => (f e.2).map (e.1, ·))).Pairwise (fun a b => a.1 < b.1) := by
  refine m.sorted.filterMap _ fun a b hab a' ha' b' hb' => ?_
  obtain ⟨_, _, rfl⟩ := map_eq_some_iff.mp ha'
  obtain ⟨_, _, rfl⟩ := map_eq_some_iff.mp hb'
  exact hab

theorem nodup_of_sorted (h : l.Pairwise (fun a b => a.1 < b.1)) : l.Nodup :=
  h.imp fun hlt heq => ne_of_lt hlt (congrArg Prod.fst heq)

/-- The entries of a map whose lookups are those of another one through `f`. -/
theorem filterMap_entries {m' : OrderedMap κ ν'} {f : ν → Option ν'}
    (h : ∀ k, m'.find? k = (m.find? k).bind f) :
    m.entries.filterMap (fun e => (f e.2).map (e.1, ·)) = m'.entries := by
  refine List.Perm.eq_of_pairwise ?_ (m.filterMap_sorted f) m'.sorted ?_
  · intro a b _ _ hab hba
    exact absurd hab (lt_asymm hba)
  · refine (perm_ext_iff_of_nodup (nodup_of_sorted (m.filterMap_sorted f))
      (nodup_of_sorted m'.sorted)).mpr ?_
    rintro ⟨k, v⟩
    rw [← find?_eq_some, h, bind_eq_some_iff, mem_filterMap]
    constructor
    · rintro ⟨⟨k', w⟩, hw, heq⟩
      obtain ⟨v', hv', hpair⟩ := map_eq_some_iff.mp heq
      cases hpair
      exact ⟨w, find?_eq_some.mpr hw, hv'⟩
    · rintro ⟨w, hw, hv⟩
      exact ⟨(k, w), find?_eq_some.mp hw, by simp [hv]⟩

theorem insert_erase (m : OrderedMap κ ν) (k : κ) (v : ν) :
    (m.erase k).insert k v = m.insert k v := by
  refine ext_find? fun k' => ?_
  rw [find?_insert, find?_insert, find?_erase]
  split_ifs <;> rfl

theorem insert_of_find? (h : m.find? k = some v) : m.insert k v = m := by
  refine ext_find? fun k' => ?_
  rw [find?_insert]
  split_ifs with hk
  · rw [hk, h]
  · rfl

theorem find?_emplace (m : OrderedMap κ ν) (k k' : κ) (v : ν) :
    (m.emplace k v).find? k' = (m.find? k').or (if k' = k then some v else none) := by
  unfold emplace contains
  by_cases hk : k' = k
  · subst hk
    cases h : m.find? k' with
    | none => simp
    | some w => simp [h]
  · split_ifs <;> simp [find?_insert, hk]

theorem emplace_of_none (v : ν) (h : m.find? k = none) : m.emplace k v = m.insert k v := by
  unfold emplace
  rw [contains_eq_false.mpr h]
  rfl

/-- The same keys with other values. -/
def mapValues {ν' : Type*} (f : ν → ν') (m : OrderedMap κ ν) : OrderedMap κ ν' :=
  ⟨m.entries.map fun e => (e.1, f e.2), pairwise_map.mpr m.sorted⟩

section

variable (f : ν → ν') (m : OrderedMap κ ν) (k : κ)

theorem find?_mapValues : (m.mapValues f).find? k = (m.find? k).map f := by
  simp [find?, mapValues, find?_map, Function.comp_def]

theorem mapValues_emplace (v : ν) :
    (m.emplace k v).mapValues f = (m.mapValues f).emplace k (f v) := by
  apply ext_find?
  intro k'
  rw [find?_mapValues, find?_emplace, find?_emplace, find?_mapValues]
  cases m.find? k' <;> split_ifs <;> rfl

end

/-! ## Many entries at once -/

section

variable (m : OrderedMap κ ν) (es : List (κ × ν))

def emplaceAll : OrderedMap κ ν :=
  es.foldl (fun m e => m.emplace e.1 e.2) m

def insertAll : OrderedMap κ ν :=
  es.foldl (fun m e => m.insert e.1 e.2) m

def eraseAll (ks : List κ) : OrderedMap κ ν := ks.foldl erase m

end

section

variable (m : OrderedMap κ ν) (es : List (κ × ν))

theorem emplaceAll_concat (e : κ × ν) :
    m.emplaceAll (es ++ [e]) = (m.emplaceAll es).emplace e.1 e.2 := by
  rw [emplaceAll, foldl_append]
  rfl

theorem find?_emplaceAll (k : κ) :
    (m.emplaceAll es).find? k = (m.find? k).or ((es.find? (·.1 = k)).map (·.2)) := by
  induction es generalizing m with
  | nil => simp [emplaceAll]
  | cons e es ih =>
    rw [emplaceAll, List.foldl_cons, ← emplaceAll, ih, find?_emplace, Option.or_assoc]
    by_cases hk : e.1 = k
    · simp [hk]
    · simp [hk, Ne.symm hk]

end

variable {es : List (κ × ν)}

theorem find?_emplaceAll_of_notMem
    (h : k ∉ es.map (·.1)) : (m.emplaceAll es).find? k = m.find? k := by
  have : es.find? (·.1 = k) = none := by
    rw [List.find?_eq_none]
    rintro e he hk
    exact h (mem_map.mpr ⟨e, he, of_decide_eq_true hk⟩)
  rw [find?_emplaceAll, this, map_none, or_none]

theorem find?_emplaceAll_of_mem
    (hnd : (es.map (·.1)).Nodup) (he : e ∈ es) (hm : m.find? e.1 = none) :
    (m.emplaceAll es).find? e.1 = some e.2 := by
  rw [find?_emplaceAll, hm, none_or]
  cases hf : es.find? (·.1 = e.1) with
  | none => simpa using List.find?_eq_none.mp hf e he
  | some e' =>
    have hkey : e'.1 = e.1 := by simpa using find?_some hf
    rw [inj_on_of_nodup_map hnd (mem_of_find?_eq_some hf) he hkey]
    rfl

theorem find?_eraseAll (m : OrderedMap κ ν) (ks : List κ) (k : κ) :
    (m.eraseAll ks).find? k = if k ∈ ks then none else m.find? k := by
  induction ks generalizing m with
  | nil => simp [eraseAll]
  | cons k' ks ih =>
    rw [eraseAll, foldl_cons, ← eraseAll, ih, find?_erase]
    by_cases hk : k ∈ ks
    · simp [hk]
    · by_cases hk' : k = k' <;> simp [hk, hk']

section Keyed

variable {α : Type*} {m : OrderedMap κ ν} {xs : List α} {f : α → κ} {g : α → ν}

theorem find?_emplaceAll_map (hnd : (xs.map f).Nodup) {x : α} (hx : x ∈ xs)
    (hm : m.find? (f x) = none) :
    (m.emplaceAll (xs.map fun x => (f x, g x))).find? (f x) = some (g x) :=
  find?_emplaceAll_of_mem (e := (f x, g x)) (by simpa [Function.comp_def] using hnd)
    (mem_map_of_mem hx) hm

/-- What is found after new entries were added. -/
theorem find?_emplaceAll_eq_some (hnd : (xs.map f).Nodup) (hm : ∀ x ∈ xs, m.find? (f x) = none)
    : (m.emplaceAll (xs.map fun x => (f x, g x))).find? k = some v ↔
      m.find? k = some v ∨ ∃ x ∈ xs, f x = k ∧ g x = v := by
  by_cases hk : k ∈ xs.map f
  · obtain ⟨x, hx, rfl⟩ := mem_map.mp hk
    rw [find?_emplaceAll_map hnd hx (hm x hx), hm x hx, some_inj]
    constructor
    · intro h
      exact .inr ⟨x, hx, rfl, h⟩
    · rintro (h | ⟨y, hy, hkey, hval⟩)
      · cases h
      · rwa [← inj_on_of_nodup_map hnd hy hx hkey]
  · rw [find?_emplaceAll_of_notMem (by simpa using hk)]
    refine (or_iff_left ?_).symm
    rintro ⟨x, hx, hkey, -⟩
    exact hk (mem_map.mpr ⟨x, hx, hkey⟩)

/-- New entries that are erased again leave the map as it was. -/
theorem eraseAll_emplaceAll (h : ∀ x ∈ xs, m.find? (f x) = none) :
    (m.emplaceAll (xs.map fun x => (f x, g x))).eraseAll (xs.reverse.map f) = m := by
  refine ext_find? fun k => ?_
  rw [find?_eraseAll]
  simp only [map_reverse, mem_reverse]
  split_ifs with hk
  · obtain ⟨x, hx, rfl⟩ := mem_map.mp hk
    exact (h x hx).symm
  · exact find?_emplaceAll_of_notMem (by simpa using hk)

end Keyed

theorem find?_insertAll_of_notMem
    (h : k ∉ es.map (·.1)) : (m.insertAll es).find? k = m.find? k := by
  induction es generalizing m with
  | nil => rfl
  | cons e es ih =>
    rw [map_cons, mem_cons, not_or] at h
    rw [insertAll, foldl_cons, ← insertAll, ih h.2, find?_insert, if_neg h.1]

theorem find?_insertAll_of_mem (hnd : (es.map (·.1)).Nodup) (he : e ∈ es) :
    (m.insertAll es).find? e.1 = some e.2 := by
  induction es generalizing m with
  | nil => cases he
  | cons x es ih =>
    obtain ⟨hx, hnd⟩ := nodup_cons.mp (map_cons ▸ hnd)
    rw [insertAll, foldl_cons, ← insertAll]
    rcases mem_cons.mp he with rfl | he
    · rw [find?_insertAll_of_notMem hx, find?_insert_self]
    · exact ih hnd he

/-- Put a value back where zero stands for no entry. -/
def restore [Zero ν] [DecidableEq ν] (m : OrderedMap κ ν) (es : List (κ × ν)) : OrderedMap κ ν :=
  es.foldl (fun m e => if e.2 = 0 then m.erase e.1 else m.insert e.1 e.2) m

theorem find?_restore_of_notMem [Zero ν] [DecidableEq ν]
    (h : k ∉ es.map (·.1)) : (m.restore es).find? k = m.find? k := by
  induction es generalizing m with
  | nil => rfl
  | cons e es ih =>
    rw [map_cons, mem_cons, not_or] at h
    rw [restore, foldl_cons, ← restore, ih h.2]
    split_ifs
    · rw [find?_erase, if_neg h.1]
    · rw [find?_insert, if_neg h.1]

theorem find?_restore_of_mem [Zero ν] [DecidableEq ν] (hnd : (es.map (·.1)).Nodup) (he : e ∈ es) :
    (m.restore es).find? e.1 = if e.2 = 0 then none else some e.2 := by
  induction es generalizing m with
  | nil => cases he
  | cons x es ih =>
    obtain ⟨hx, hnd⟩ := nodup_cons.mp (map_cons ▸ hnd)
    rw [restore, foldl_cons, ← restore]
    rcases mem_cons.mp he with rfl | he
    · rw [find?_restore_of_notMem hx]
      split_ifs <;> simp
    · exact ih hnd he

theorem find?_insertAll_map {α : Type*} {xs : List α} {f : α → κ}
    {g : α → ν} (hnd : (xs.map f).Nodup) {x : α} (hx : x ∈ xs) :
    (m.insertAll (xs.map fun x => (f x, g x))).find? (f x) = some (g x) :=
  find?_insertAll_of_mem (e := (f x, g x)) (by simpa [Function.comp_def] using hnd)
    (mem_map_of_mem hx)

/-- Overwritten entries that are put back leave a map without zeros as it was. -/
theorem restore_insertAll [Zero ν] [DecidableEq ν] {α : Type*}
    {xs : List α} {f : α → κ} {g o : α → ν} (hnd : (xs.map f).Nodup)
    (hm : ∀ k v, m.find? k = some v → v ≠ 0) (hold : ∀ x ∈ xs, o x = (m.find? (f x)).getD 0) :
    (m.insertAll (xs.map fun x => (f x, g x))).restore
      (xs.reverse.map fun x => (f x, o x)) = m := by
  have hkeys : ((xs.reverse.map fun x => (f x, o x)).map (·.1)) = (xs.map f).reverse := by
    simp [Function.comp_def]
  refine ext_find? fun k => ?_
  by_cases hk : k ∈ xs.map f
  · obtain ⟨x, hx, rfl⟩ := mem_map.mp hk
    have hmem : (f x, o x) ∈ xs.reverse.map fun x => (f x, o x) :=
      mem_map.mpr ⟨x, mem_reverse.mpr hx, rfl⟩
    rw [find?_restore_of_mem (by rw [hkeys]; exact nodup_reverse.mpr hnd) hmem, hold x hx]
    cases hf : m.find? (f x) with
    | none => simp
    | some v => simp [hm _ _ hf]
  · rw [find?_restore_of_notMem (by rw [hkeys, mem_reverse]; exact hk),
      find?_insertAll_of_notMem (by simpa using hk)]

/-! ## Totals -/

section Totals

variable {A : Type*}

/-- The sum of `f` over the entries. -/
def total [AddMonoid A] (m : OrderedMap κ ν) (f : κ → ν → A) : A :=
  (m.entries.map (fun e => f e.1 e.2)).sum

/-- The share of a key in a total: zero when it is absent. -/
def at? [Zero A] (m : OrderedMap κ ν) (f : κ → ν → A) (k : κ) : A := ((m.find? k).map (f k)).getD 0

theorem total_eq_erase [AddCommMonoid A] (m : OrderedMap κ ν) (f : κ → ν → A) (k : κ) :
    m.total f = m.at? f k + (m.erase k).total f := by
  unfold total at?
  cases h : m.find? k with
  | none => simp [erase_of_find?_none h]
  | some v => simpa using ((perm_of_find? h).map (fun e => f e.1 e.2)).sum_eq

theorem total_insert_erase [AddCommMonoid A] (m : OrderedMap κ ν) (f : κ → ν → A) (k : κ) (v : ν) :
    (m.insert k v).total f = f k v + (m.erase k).total f := by
  simpa [total] using ((m.insert_perm k v).map (fun e => f e.1 e.2)).sum_eq

theorem total_insert [AddCommGroup A] (m : OrderedMap κ ν) (f : κ → ν → A) (k : κ) (v : ν) :
    (m.insert k v).total f = m.total f - m.at? f k + f k v := by
  rw [total_insert_erase, total_eq_erase m f k]
  abel

theorem total_erase [AddCommGroup A] (m : OrderedMap κ ν) (f : κ → ν → A) (k : κ) :
    (m.erase k).total f = m.total f - m.at? f k := by
  rw [total_eq_erase m f k]
  abel

theorem at?_erase_ne [Zero A] (m : OrderedMap κ ν) (f : κ → ν → A) {k' : κ} (h : k' ≠ k) :
    (m.erase k).at? f k' = m.at? f k' := by
  simp [at?, find?_erase, h]

/-- Distinct keys never hold more together than the whole map. -/
theorem sum_at?_le_total [AddCommMonoid A] [PartialOrder A] [IsOrderedAddMonoid A]
    {f : κ → ν → A} (ks : List κ) (hks : ks.Nodup) (m : OrderedMap κ ν)
    (hf : ∀ e ∈ m.entries, 0 ≤ f e.1 e.2) : (ks.map (m.at? f)).sum ≤ m.total f := by
  induction ks generalizing m with
  | nil =>
    refine sum_nonneg fun x hx => ?_
    obtain ⟨e, he, rfl⟩ := mem_map.mp hx
    exact hf e he
  | cons k ks ih =>
    obtain ⟨hk, hnd⟩ := nodup_cons.mp hks
    rw [total_eq_erase m f k, map_cons, sum_cons]
    have hsame : ks.map (m.at? f) = ks.map ((m.erase k).at? f) :=
      map_congr_left fun k' hk' => (at?_erase_ne m f (by rintro rfl; exact hk hk')).symm
    rw [hsame]
    exact add_le_add_right (ih hnd (m.erase k) fun e he => hf e (mem_erase.mp he).1) _

end Totals

end OrderedMap

import B3Coin.Lib.SpendLog

/-!
# The net change of a map over a block

A block spends and creates entries of a map; what it spends of its own making
cancels out. The net change is a list of entries removed and a list of entries
added. `Between` says that it leads from one map to the other; it is symmetric,
so that taking a block back is applying it with the lists exchanged. `Progress`
is what the loop over the block keeps until the net change can be read off, and
`Book` is that loop for a log of spends and creations: an index whose own loop
does the same to its map inherits the net change and the unspent records.
-/
namespace NetDelta

open List OrderedMap

variable {κ ρ : Type*} [LinearOrder κ] {key : ρ → κ} {base m : OrderedMap κ ρ}
variable {removed added created : List ρ}

/-- Every entry of `a` is one of `b`. -/
def Sub (a b : OrderedMap κ ρ) : Prop := ∀ k r, a.find? k = some r → b.find? k = some r

theorem Sub.size_le {a b : OrderedMap κ ρ} (h : Sub a b) : a.size ≤ b.size := by
  have hsub : a.entries ⊆ b.entries := fun e he =>
    find?_eq_some.mp (h e.1 e.2 (find?_eq_some.mpr he))
  exact (subperm_of_subset (.of_map _ a.keys_nodup) hsub).length_le

theorem erase_sub (m : OrderedMap κ ρ) (k : κ) : Sub (m.erase k) m := by
  intro k' r hr
  rw [find?_erase] at hr
  split_ifs at hr
  exact hr

/-- The change from `base` to `m`. -/
structure Between (key : ρ → κ) (base m : OrderedMap κ ρ) (removed added : List ρ) : Prop where
  removed_iff : ∀ r ∈ removed, base.find? (key r) = some r ∧ m.find? (key r) = none
  removed_nodup : (removed.map key).Nodup
  added_iff : ∀ r ∈ added, m.find? (key r) = some r ∧ base.find? (key r) = none
  added_nodup : (added.map key).Nodup
  other : ∀ k, k ∉ removed.map key → k ∉ added.map key → m.find? k = base.find? k

theorem Between.symm (h : Between key base m removed added) : Between key m base added removed where
  removed_iff := h.added_iff
  removed_nodup := h.added_nodup
  added_iff := h.removed_iff
  added_nodup := h.removed_nodup
  other k hr ha := (h.other k ha hr).symm

variable {r : ρ} {k : κ}

/-- An entry after the change was there before, or was added. -/
theorem Between.origin (h : Between key base m removed added)
    (hr : m.find? k = some r) : base.find? k = some r ∨ r ∈ added := by
  by_cases ha : k ∈ added.map key
  · obtain ⟨x, hx, rfl⟩ := mem_map.mp ha
    rw [(h.added_iff x hx).1] at hr
    cases hr
    exact .inr hx
  · by_cases hrem : k ∈ removed.map key
    · obtain ⟨x, hx, rfl⟩ := mem_map.mp hrem
      rw [(h.removed_iff x hx).2] at hr
      cases hr
    · rw [h.other k hrem ha] at hr
      exact .inl hr

/-- Without removals everything is kept. -/
theorem Between.kept (h : Between key base m [] added) : Sub base m := by
  intro k r hr
  by_cases ha : k ∈ added.map key
  · obtain ⟨x, hx, rfl⟩ := mem_map.mp ha
    rw [(h.added_iff x hx).2] at hr
    cases hr
  · rw [h.other k nofun ha]
    exact hr

theorem Between.reverse (h : Between key base m removed added) :
    Between key base m removed.reverse added.reverse where
  removed_iff r hr := h.removed_iff r (mem_reverse.mp hr)
  removed_nodup := by rw [map_reverse]; exact nodup_reverse.mpr h.removed_nodup
  added_iff r hr := h.added_iff r (mem_reverse.mp hr)
  added_nodup := by rw [map_reverse]; exact nodup_reverse.mpr h.added_nodup
  other k hr ha := h.other k (by simpa using hr) (by simpa using ha)

/-- Each entry of the map stands under its key. -/
def Keyed (key : ρ → κ) (m : OrderedMap κ ρ) : Prop := ∀ k r, m.find? k = some r → key r = k

theorem Keyed.mem_values (hm : Keyed key m) :
    r ∈ m.entries.map (·.2) ↔ m.find? (key r) = some r := by
  constructor
  · intro hr
    obtain ⟨e, he, rfl⟩ := mem_map.mp hr
    have he := find?_eq_some.mpr he
    rw [hm _ _ he]
    exact he
  · exact fun hr => mem_map_of_mem (find?_eq_some.mp hr)

theorem Keyed.map_values (hm : Keyed key m) : (m.entries.map (·.2)).map key = m.keys := by
  rw [map_map]
  exact map_congr_left fun e he => hm _ _ (find?_eq_some.mpr he)

section

variable (h : Between key base m removed added) (hbase : Keyed key base)

include h hbase

theorem Between.sources_nodup : ((base.entries.map (·.2) ++ added).map key).Nodup := by
  rw [map_append, hbase.map_values]
  refine List.Nodup.append base.keys_nodup h.added_nodup fun k hk ha => ?_
  obtain ⟨e, he, rfl⟩ := mem_map.mp hk
  obtain ⟨r, hr, heq⟩ := mem_map.mp ha
  have hnone := (h.added_iff r hr).2
  rw [heq, find?_eq_some.mpr he] at hnone
  cases hnone

theorem Between.sources_sub (hm : Keyed key m) (hr : r ∈ base.entries.map (·.2) ++ added) :
    r ∈ m.entries.map (·.2) ++ removed := by
  rcases mem_append.mp hr with hr | hr
  · rcases h.symm.origin (hbase.mem_values.mp hr) with hkept | hremoved
    · exact mem_append_left _ (hm.mem_values.mpr hkept)
    · exact mem_append_right _ hremoved
  · exact mem_append_left _ (hm.mem_values.mpr (h.added_iff r hr).1)

/-- What was there and what came is what is there and what went. -/
theorem Between.perm (hm : Keyed key m) :
    (base.entries.map (·.2) ++ added).Perm (m.entries.map (·.2) ++ removed) :=
  (perm_ext_iff_of_nodup (h.sources_nodup hbase).of_map (h.symm.sources_nodup hm).of_map).mpr
    fun _ => ⟨h.sources_sub hbase hm, h.symm.sources_sub hm hbase⟩

end

/-! ## Applying a change entry by entry -/

section Apply

variable {σ ε : Type*}

/-- Steps that change one entry each, from what it was `before` to what it is `after`. -/
theorem editAll {view : σ → OrderedMap κ ρ} {good : σ → Prop} {step : σ → ρ → Except ε σ}
    {before : ρ → Option ρ} {after : κ → Option ρ} {l : List ρ}
    (hstep : ∀ s, ∀ r ∈ l, good s → (view s).find? (key r) = before r → ∃ s', step s r = .ok s' ∧
      good s' ∧ ∀ k, (view s').find? k = if k = key r then after k else (view s).find? k)
    {s : σ} (hs : good s) (hl : ∀ r ∈ l, (view s).find? (key r) = before r)
    (hnd : (l.map key).Nodup) : ∃ s', l.foldlM step s = .ok s' ∧ good s' ∧
      ∀ k, (view s').find? k = if k ∈ l.map key then after k else (view s).find? k := by
  induction l generalizing s with
  | nil => exact ⟨s, rfl, hs, fun k => by simp⟩
  | cons r l ih =>
    obtain ⟨s1, hok, hgood, hview⟩ := hstep s r mem_cons_self hs (hl r mem_cons_self)
    rw [map_cons, nodup_cons] at hnd
    have hrest : ∀ r' ∈ l, (view s1).find? (key r') = before r' := by
      intro r' hr'
      have hne : key r' ≠ key r := fun heq => hnd.1 (heq ▸ mem_map_of_mem hr')
      rw [hview, if_neg hne]
      exact hl r' (mem_cons_of_mem _ hr')
    obtain ⟨s2, hfold, hgood2, hfind⟩ := ih (fun s x hx => hstep s x (mem_cons_of_mem _ hx))
      hgood hrest hnd.2
    refine ⟨s2, ?_, hgood2, fun k => ?_⟩
    · rw [foldlM_cons, hok]
      exact hfold
    · rw [hfind, hview, map_cons]
      by_cases hk : k = key r
      · simp [hk]
      · simp [hk]

theorem Sub.insert {m' : OrderedMap κ ρ} {r : ρ} (h : Sub m' m) (hr : m.find? (key r) = some r) :
    Sub (m'.insert (key r) r) m := by
  intro k r' hr'
  rw [find?_insert] at hr'
  split_ifs at hr' with hk
  · rw [hk, ← hr']
    exact hr
  · exact h k r' hr'

/-- Removals first, then additions: every step goes through and the end is `m`. -/
theorem Between.run (h : Between key base m removed added) (view : σ → OrderedMap κ ρ)
    (good : σ → Prop) (take put : σ → ρ → Except ε σ)
    (htake : ∀ s, ∀ r ∈ removed, good s → (view s).find? (key r) = some r →
      ∃ s', take s r = .ok s' ∧ good s' ∧ view s' = (view s).erase (key r))
    (hput : ∀ s, ∀ r ∈ added, good s → (view s).find? (key r) = none →
      Sub ((view s).insert (key r) r) m →
      ∃ s', put s r = .ok s' ∧ good s' ∧ view s' = (view s).insert (key r) r)
    {s : σ} (hs : good s) (hview : view s = base) :
    ∃ s₁ s₂, removed.foldlM take s = .ok s₁ ∧ added.foldlM put s₁ = .ok s₂ ∧ good s₂ ∧
      view s₂ = m := by
  have htake' : ∀ s, ∀ r ∈ removed, good s → (view s).find? (key r) = some r →
      ∃ s', take s r = .ok s' ∧ good s' ∧
        ∀ k, (view s').find? k = if k = key r then none else (view s).find? k := by
    intro s r hr hgood hfind
    obtain ⟨s', hok, hgood', hview'⟩ := htake s r hr hgood hfind
    exact ⟨s', hok, hgood', fun k => by rw [hview', find?_erase]⟩
  obtain ⟨s₁, hfold1, hgood1, hfind1⟩ := editAll htake' hs
    (fun r hr => hview ▸ (h.removed_iff r hr).1) h.removed_nodup
  have hmid : ∀ k, (view s₁).find? k = if k ∈ removed.map key then none else base.find? k := by
    rw [← hview]
    exact hfind1
  have hfree : ∀ r ∈ added, (view s₁).find? (key r) = none := by
    intro r hr
    rw [hmid, (h.added_iff r hr).2]
    split_ifs <;> rfl
  have hsub : Sub (view s₁) m := by
    intro k r hr
    rw [hmid] at hr
    split_ifs at hr with hk
    have hadd : k ∉ added.map key := by
      intro hmem
      obtain ⟨r', hr', rfl⟩ := mem_map.mp hmem
      rw [(h.added_iff r' hr').2] at hr
      cases hr
    rw [h.other k hk hadd]
    exact hr
  -- additions also have to stay within `m`
  have hput' : ∀ s, ∀ r ∈ added, good s ∧ Sub (view s) m → (view s).find? (key r) = none →
      ∃ s', put s r = .ok s' ∧ (good s' ∧ Sub (view s') m) ∧
        ∀ k, (view s').find? k = if k = key r then m.find? k else (view s).find? k := by
    intro s r hr ⟨hgood, hsub⟩ hfind
    have hm := (h.added_iff r hr).1
    obtain ⟨s', hok, hgood', hview'⟩ := hput s r hr hgood hfind (hsub.insert hm)
    refine ⟨s', hok, ⟨hgood', hview' ▸ hsub.insert hm⟩, fun k => ?_⟩
    rw [hview', find?_insert]
    split_ifs with hk
    · rw [hk, hm]
    · rfl
  obtain ⟨s₂, hfold2, hgood2, hfind2⟩ := editAll hput' ⟨hgood1, hsub⟩ hfree h.added_nodup
  refine ⟨s₁, s₂, hfold1, hfold2, hgood2.1, ext_find? fun k => ?_⟩
  rw [hfind2, hmid]
  by_cases ha : k ∈ added.map key
  · rw [if_pos ha]
  rw [if_neg ha]
  by_cases hr : k ∈ removed.map key
  · obtain ⟨r, hmem, rfl⟩ := mem_map.mp hr
    rw [if_pos hr, (h.removed_iff r hmem).2]
  · rw [if_neg hr, h.other k hr ha]

end Apply

/-! ## The loop over a block -/

/-- Part of a block has led from `base` to `m`: the entries of `base` spent so far, and every
entry created so far, spent again or not. -/
structure Progress (key : ρ → κ) (base m : OrderedMap κ ρ) (removed created : List ρ) : Prop where
  gone : ∀ r ∈ removed, base.find? (key r) = some r ∧ m.find? (key r) = none
  gone_nodup : (removed.map key).Nodup
  kept : ∀ k r, base.find? k = some r → m.find? k = some r ∨ r ∈ removed
  fresh : ∀ r ∈ created, base.find? (key r) = none
  fresh_nodup : (created.map key).Nodup
  origin : ∀ k r, m.find? k = some r → base.find? k = some r ∨ (r ∈ created ∧ key r = k)
  keyed : ∀ k r, base.find? k = some r → key r = k

theorem Progress.start (hkeyed : ∀ k r, base.find? k = some r → key r = k) :
    Progress key base base [] [] :=
  ⟨nofun, .nil, fun _ _ h => .inl h, nofun, .nil, fun _ _ h => .inl h, hkeyed⟩

section

variable (h : Progress key base m removed created)

include h

theorem Progress.key_eq (hr : m.find? k = some r) : key r = k := by
  rcases h.origin k r hr with hb | hc
  · exact h.keyed k r hb
  · exact hc.2

/-- What the base holds, the current map holds unchanged or not at all. -/
theorem Progress.eq_of_base {r r' : ρ}
    (hb : base.find? k = some r) (hm : m.find? k = some r') : r = r' := by
  rcases h.origin k r' hm with hb' | ⟨hc, hk⟩
  · rw [hb] at hb'
    exact Option.some.inj hb'
  · have := h.fresh r' hc
    rw [hk, hb] at this
    cases this

theorem Progress.spend_base {r r' : ρ} (hm : m.find? k = some r) (hb : base.find? k = some r') :
    Progress key base (m.erase k) (removed ++ [r]) created := by
  obtain rfl := h.eq_of_base hb hm
  have hkey := h.keyed k _ hb
  have hnot : k ∉ removed.map key := by
    intro hmem
    obtain ⟨x, hx, rfl⟩ := mem_map.mp hmem
    rw [(h.gone x hx).2] at hm
    cases hm
  refine ⟨fun x hx => ?_, ?_, fun k' x hx => ?_, h.fresh, h.fresh_nodup, fun k' x hx => ?_, h.keyed⟩
  · rw [find?_erase]
    rcases mem_append.mp hx with hx | hx
    · refine ⟨(h.gone x hx).1, ?_⟩
      rw [(h.gone x hx).2]
      split_ifs <;> rfl
    · rw [mem_singleton.mp hx, hkey]
      exact ⟨hb, if_pos rfl⟩
  · rw [map_append, map_cons, map_nil, hkey]
    exact nodup_append.mpr ⟨h.gone_nodup, nodup_singleton k, by
      rintro a ha b hb' rfl
      exact hnot (mem_singleton.mp hb' ▸ ha)⟩
  · rw [find?_erase]
    by_cases hk : k' = k
    · rw [hk, hb] at hx
      cases hx
      exact .inr (mem_append_right _ (mem_singleton_self _))
    · rw [if_neg hk]
      exact (h.kept k' x hx).imp_right (mem_append_left _)
  · rw [find?_erase] at hx
    split_ifs at hx
    exact h.origin k' x hx

theorem Progress.spend_created
    (hb : base.find? k = none) : Progress key base (m.erase k) removed created := by
  refine ⟨fun x hx => ⟨(h.gone x hx).1, ?_⟩, h.gone_nodup, fun k' x hx => ?_, h.fresh,
    h.fresh_nodup, fun k' x hx => ?_, h.keyed⟩
  · rw [find?_erase, (h.gone x hx).2]
    split_ifs <;> rfl
  · rw [find?_erase, if_neg]
    · exact h.kept k' x hx
    · rintro rfl
      rw [hb] at hx
      cases hx
  · rw [find?_erase] at hx
    split_ifs at hx
    exact h.origin k' x hx

theorem Progress.create (hb : base.find? (key r) = none) (hnew : key r ∉ created.map key) :
    Progress key base (m.insert (key r) r) removed (created ++ [r]) := by
  refine ⟨fun x hx => ⟨(h.gone x hx).1, ?_⟩, h.gone_nodup, fun k x hx => ?_, fun x hx => ?_, ?_,
    fun k x hx => ?_, h.keyed⟩
  · rw [find?_insert, if_neg]
    · exact (h.gone x hx).2
    · intro heq
      rw [← heq, (h.gone x hx).1] at hb
      cases hb
  · rw [find?_insert, if_neg]
    · exact h.kept k x hx
    · rintro rfl
      rw [hb] at hx
      cases hx
  · rcases mem_append.mp hx with hx | hx
    · exact h.fresh x hx
    · rw [mem_singleton.mp hx]
      exact hb
  · rw [map_append, map_cons, map_nil]
    exact nodup_append.mpr ⟨h.fresh_nodup, nodup_singleton _, by
      rintro a ha b hb' rfl
      exact hnew (mem_singleton.mp hb' ▸ ha)⟩
  · rw [find?_insert] at hx
    split_ifs at hx with hk
    · cases hx
      exact .inr ⟨mem_append_right _ (mem_singleton_self _), hk.symm⟩
    · exact (h.origin k x hx).imp_right fun hc => ⟨mem_append_left _ hc.1, hc.2⟩

end

/-- At the end of the block the created entries that are still there are the ones added. -/
theorem Progress.between [DecidableEq ρ] (h : Progress key base m removed created) :
    Between key base m removed (created.filter fun r => m.find? (key r) = some r) := by
  refine ⟨h.gone, h.gone_nodup, fun r hr => ?_, ?_, fun k hk ha => ?_⟩
  · obtain ⟨hmem, hlive⟩ := mem_filter.mp hr
    exact ⟨of_decide_eq_true hlive, h.fresh r hmem⟩
  · exact h.fresh_nodup.sublist (filter_sublist.map key)
  · cases hb : base.find? k with
    | some r =>
      rcases h.kept k r hb with hm | hrem
      · exact hm
      · exact absurd (mem_map.mpr ⟨r, hrem, h.keyed k r hb⟩) hk
    | none =>
      refine Option.eq_none_iff_forall_ne_some.mpr fun r hm => ha ?_
      rcases h.origin k r hm with hb' | ⟨hc, rfl⟩
      · rw [hb] at hb'
        cases hb'
      · exact mem_map_of_mem (mem_filter.mpr ⟨hc, decide_eq_true hm⟩)

/-! ## A log worked through -/

open SpendLog

/-- The map in the middle of a block, with what was spent of the base and created so far. -/
structure Book (κ ρ : Type*) [LinearOrder κ] where
  live : OrderedMap κ ρ
  removed : List ρ := []
  created : List ρ := []

namespace Book

variable (key : ρ → κ) (base : OrderedMap κ ρ)

section

variable (log : List (Entry κ ρ)) (s : Book κ ρ)

def spend (k : κ) : Book κ ρ :=
  match s.live.find? k with
  | none => s
  | some r =>
    { s with
      live := s.live.erase k
      removed := if base.contains (key r) then s.removed ++ [r] else s.removed }

def create (r : ρ) : Book κ ρ :=
  { s with live := s.live.insert (key r) r, created := s.created ++ [r] }

def entry (e : Entry κ ρ) : Book κ ρ :=
  e.creates.foldl (create key) (e.spends.foldl (spend key base) s)

def block : Book κ ρ := log.foldl (entry key base) { live := base }

/-- No two records of the log have one key, and none has a key of the base. -/
structure Fresh : Prop where
  nodup : ((log.flatMap (·.creates)).map key).Nodup
  new : ∀ r ∈ log.flatMap (·.creates), base.find? (key r) = none

def Ok : Prop := Progress key base s.live s.removed s.created

end

variable {key base} {s : Book κ ρ}

section

variable (h : s.Ok key base)

include h

theorem Ok.spend (k : κ) : (s.spend key base k).Ok key base ∧
    (s.spend key base k).live = s.live.erase k ∧ (s.spend key base k).created = s.created := by
  unfold Book.spend
  cases hr : s.live.find? k with
  | none => exact ⟨h, (erase_of_find?_none hr).symm, rfl⟩
  | some r =>
    refine ⟨?_, rfl, rfl⟩
    have hkey := h.key_eq hr
    show Progress key base (s.live.erase k)
      (if base.contains (key r) then s.removed ++ [r] else s.removed) s.created
    cases hb : base.find? k with
    | none =>
      rw [hkey, contains_eq_false.mpr hb]
      exact h.spend_created hb
    | some r' =>
      have hin : base.contains (key r) = true := by
        rw [hkey, OrderedMap.contains, hb]
        rfl
      rw [hin]
      exact h.spend_base hr hb

theorem Ok.spends (ks : List κ) : (ks.foldl (Book.spend key base) s).Ok key base ∧
      (ks.foldl (Book.spend key base) s).created = s.created ∧
      (∀ k ∈ ks, (ks.foldl (Book.spend key base) s).live.find? k = none) ∧
      ∀ k, k ∉ ks → (ks.foldl (Book.spend key base) s).live.find? k = s.live.find? k := by
  induction ks generalizing s with
  | nil => exact ⟨h, rfl, nofun, fun _ _ => rfl⟩
  | cons k ks ih =>
    obtain ⟨h1, hlive, hcreated⟩ := h.spend k
    obtain ⟨h2, hcreated2, hgone, hkept⟩ := ih h1
    rw [foldl_cons]
    refine ⟨h2, hcreated2.trans hcreated, fun k' hk' => ?_, fun k' hk' => ?_⟩
    · by_cases hmem : k' ∈ ks
      · exact hgone k' hmem
      · rw [hkept k' hmem, hlive, (mem_cons.mp hk').resolve_right hmem,
          find?_erase_self]
    · rw [mem_cons, not_or] at hk'
      rw [hkept k' hk'.2, hlive, find?_erase, if_neg hk'.1]

/-- A record with a key that is neither in the base nor created yet finds its key free. -/
theorem Ok.find?_new (hbase : base.find? (key r) = none)
    (hnew : key r ∉ s.created.map key) : s.live.find? (key r) = none := by
  refine Option.eq_none_iff_forall_ne_some.mpr fun x hx => ?_
  rcases h.origin _ x hx with hb | ⟨hc, hk⟩
  · rw [hbase] at hb
    cases hb
  · exact hnew (hk ▸ mem_map_of_mem hc)

theorem Ok.creates {l : List ρ} (hbase : ∀ r ∈ l, base.find? (key r) = none)
    (hnd : ((s.created ++ l).map key).Nodup) : (l.foldl (Book.create key) s).Ok key base ∧
      (l.foldl (Book.create key) s).created = s.created ++ l ∧
      ∀ k r, (l.foldl (Book.create key) s).live.find? k = some r ↔
        s.live.find? k = some r ∨ (r ∈ l ∧ key r = k) := by
  induction l generalizing s with
  | nil => exact ⟨h, by simp, fun k r => by simp⟩
  | cons r l ih =>
    have hnew : key r ∉ s.created.map key := by
      rw [map_append, map_cons] at hnd
      exact fun hmem => (nodup_append.mp hnd).2.2 _ hmem _ mem_cons_self rfl
    have hfree := h.find?_new (hbase r mem_cons_self) hnew
    have h1 : (s.create key r).Ok key base :=
      Progress.create h (hbase r mem_cons_self) hnew
    obtain ⟨h2, hcreated, hfind⟩ := ih h1 (fun x hx => hbase x (mem_cons_of_mem _ hx))
      (by simpa [create] using hnd)
    rw [foldl_cons]
    refine ⟨h2, by rw [hcreated]; simp [create], fun k x => ?_⟩
    rw [hfind, create, find?_insert, mem_cons]
    by_cases hk : k = key r
    · subst hk
      rw [if_pos rfl, hfree]
      constructor
      · rintro (hx | hx)
        · cases hx
          exact .inr ⟨.inl rfl, rfl⟩
        · exact .inr ⟨.inr hx.1, hx.2⟩
      · rintro (hx | ⟨rfl | hx, hkey⟩)
        · cases hx
        · exact .inl rfl
        · exact .inr ⟨hx, hkey⟩
    · rw [if_neg hk]
      constructor
      · rintro (hx | hx)
        · exact .inl hx
        · exact .inr ⟨.inr hx.1, hx.2⟩
      · rintro (hx | ⟨rfl | hx, hkey⟩)
        · exact .inl hx
        · exact absurd hkey.symm hk
        · exact .inr ⟨hx, hkey⟩

/-- One entry keeps the loop's invariant and follows the log. -/
theorem Ok.entry {log : List (Entry κ ρ)} {e : Entry κ ρ}
    (hlog : Holds key s.live log) (hbase : ∀ r ∈ e.creates, base.find? (key r) = none)
    (hnd : ((s.created ++ e.creates).map key).Nodup) :
    (s.entry key base e).Ok key base ∧ (s.entry key base e).created = s.created ++ e.creates ∧
      Holds key (s.entry key base e).live (log ++ [e]) := by
  obtain ⟨h1, hcreated1, hgone, hkept⟩ := h.spends e.spends
  obtain ⟨h2, hcreated2, hfind⟩ := h1.creates hbase (by rw [hcreated1]; exact hnd)
  exact ⟨h2, by rw [← hcreated1]; exact hcreated2, hlog.concat hgone hkept hfind⟩

theorem Ok.entries {before log : List (Entry κ ρ)}
    (hlog : Holds key s.live before) (hbase : ∀ r ∈ log.flatMap (·.creates), base.find? (key r) = none)
    (hnd : ((s.created ++ log.flatMap (·.creates)).map key).Nodup) :
    (log.foldl (Book.entry key base) s).Ok key base ∧
      (log.foldl (Book.entry key base) s).created = s.created ++ log.flatMap (·.creates) ∧
      Holds key (log.foldl (Book.entry key base) s).live (before ++ log) := by
  induction log generalizing s before with
  | nil => exact ⟨h, by simp, by simpa using hlog⟩
  | cons e log ih =>
    rw [flatMap_cons, ← append_assoc] at hnd
    obtain ⟨h1, hcreated, hlog1⟩ := h.entry hlog
      (fun r hr => hbase r (mem_append_left _ hr))
      (by
        rw [map_append] at hnd
        exact (nodup_append.mp hnd).1)
    obtain ⟨h2, hcreated2, hlog2⟩ := ih h1 hlog1
      (fun r hr => hbase r (mem_append_right _ hr)) (by rw [hcreated]; exact hnd)
    rw [foldl_cons]
    refine ⟨h2, ?_, by simpa using hlog2⟩
    rw [hcreated2, hcreated, flatMap_cons, append_assoc]

end

/-- A whole block. -/
theorem block_spec {before log : List (Entry κ ρ)}
    (hkeyed : ∀ k r, base.find? k = some r → key r = k) (hlog : Holds key base before)
    (hfresh : Fresh key base log) : (block key base log).Ok key base ∧
      (block key base log).created = log.flatMap (·.creates) ∧
      Holds key (block key base log).live (before ++ log) := by
  have hstart : ({ live := base } : Book κ ρ).Ok key base := Progress.start hkeyed
  have h := hstart.entries hlog hfresh.new (by simpa using hfresh.nodup)
  simpa [block] using h

end Book

end NetDelta

import B3Coin.Lib.OrderedMap

/-!
# Write-back caches

A cache sits on a backing store, which may be another cache. It fetches what it is
asked for, keeps its changes and hands them down in one batch. A line is dirty if it
may differ from the store, and fresh if the store has no such value; a fresh line
that is erased again is simply forgotten. As long as the flags are right, a stack of
caches behaves like a plain map.
-/
namespace WriteBack

open List OrderedMap

variable {κ ν σ : Type*} [LinearOrder κ]

/-- A cached value, or the fact that it is erased. -/
structure Line (ν : Type*) where
  value : Option ν := none
  dirty : Bool := false
  fresh : Bool := false

/-- What a cache sits on. A read may change the store's own caches; a batch is refused if its flags
contradict the store. -/
structure Backing (κ ν σ : Type*) where
  get : κ → σ → Option ν × σ
  write : List (κ × Line ν) → σ → Option σ

structure Cache (κ ν σ : Type*) [LinearOrder κ] where
  lines : OrderedMap κ (Line ν) := ∅
  base : σ

namespace Cache

section

variable (B : Backing κ ν σ) (k : κ) (c : Cache κ ν σ)

/-- Have the line in the cache, if the store has the value. -/
def fetch : Cache κ ν σ :=
  if c.lines.contains k then c
  else match B.get k c.base with
    | (none, s) => { c with base := s }
    | (some v, s) => ⟨c.lines.insert k ⟨some v, false, false⟩, s⟩

def get : Option ν × Cache κ ν σ :=
  let c' := c.fetch B k
  ((c'.lines.find? k).bind (·.value), c')

/-- Set a value. Where nothing is to be overwritten the line may become fresh, and a value in the
cache is an error. -/
def add (v : ν) (overwrite : Bool) (c : Cache κ ν σ) : Option (Cache κ ν σ) :=
  let line := (c.lines.find? k).getD {}
  if !overwrite && line.value.isSome then none
  else some { c with
    lines := c.lines.insert k ⟨some v, true, (!overwrite && !line.dirty) || line.fresh⟩ }

/-- Erase a value. -/
def spend : Cache κ ν σ :=
  let c' := c.fetch B k
  match c'.lines.find? k with
  | none => c'
  | some line =>
    if line.fresh then { c' with lines := c'.lines.erase k }
    else { c' with lines := c'.lines.insert k ⟨none, true, line.fresh⟩ }

end

/-- One line of a batch from the cache above. -/
def receive (lines : OrderedMap κ (Line ν)) (x : κ × Line ν) : Option (OrderedMap κ (Line ν)) :=
  if !x.2.dirty then some lines
  else match lines.find? x.1 with
    | none =>
      if x.2.fresh && x.2.value.isNone then some lines
      else some (lines.insert x.1 ⟨x.2.value, true, x.2.fresh⟩)
    | some line =>
      if x.2.fresh && line.value.isSome then none
      else if line.fresh && x.2.value.isNone then some (lines.erase x.1)
      else some (lines.insert x.1 ⟨x.2.value, true, line.fresh⟩)

end Cache

section

variable (B : Backing κ ν σ) (ok : σ → Prop) (view : σ → κ → Option ν)

/-- A cache as the store of another one. -/
def stacked : Backing κ ν (Cache κ ν σ) where
  get := Cache.get B
  write xs c := (xs.foldlM Cache.receive c.lines).map fun lines => { c with lines := lines }

/-- One entry of a batch on a plain map. -/
def apply (m : OrderedMap κ ν) (x : κ × Line ν) : OrderedMap κ ν :=
  if !x.2.dirty then m
  else match x.2.value with
    | none => m.erase x.1
    | some v => m.insert x.1 v

/-- A plain map as a store. -/
def plain : Backing κ ν (OrderedMap κ ν) where
  get k m := (m.find? k, m)
  write xs m := some (xs.foldl apply m)

/-! ## Views -/

/-- The values after one line. -/
def update (view : κ → Option ν) (k : κ) (v : Option ν) : κ → Option ν :=
  fun k' => if k' = k then v else view k'

def afterLine (view : κ → Option ν) (x : κ × Line ν) : κ → Option ν :=
  if x.2.dirty then update view x.1 x.2.value else view

/-- The keys differ, and what is called fresh is not there. -/
structure Fits (view : κ → Option ν) (xs : List (κ × Line ν)) : Prop where
  keys : (xs.map (·.1)).Nodup
  fresh : ∀ x ∈ xs, x.2.dirty = true → x.2.fresh = true → view x.1 = none

/-- While `ok` holds, a read of the store finds the values of `view` and changes none. -/
structure Reads : Prop where
  get_fst : ∀ k s, ok s → (B.get k s).1 = view s k
  get_ok : ∀ k s, ok s → ok (B.get k s).2
  get_view : ∀ k s, ok s → view (B.get k s).2 = view s

/-- While `ok` holds, the store behaves like a map with the values of `view`. -/
structure Models : Prop
    extends Reads B ok view where
  write : ∀ xs s, ok s → Fits (view s) xs →
    ∃ s', B.write xs s = some s' ∧ ok s' ∧ view s' = xs.foldl afterLine (view s)

end

theorem update_eq (view : κ → Option ν) (k : κ) (v : Option ν) : update view k v k = v := by
  simp [update]

theorem update_ne (view : κ → Option ν) {k k' : κ} (v : Option ν) (h : k' ≠ k) :
    update view k v k' = view k' := by simp [update, h]

section

variable (m : OrderedMap κ ν) {xs : List (κ × Line ν)} {view : κ → Option ν} {x : κ × Line ν}

theorem Fits.tail (h : Fits view (x :: xs)) : Fits (afterLine view x) xs := by
  have hkeys := h.keys
  rw [map_cons, nodup_cons] at hkeys
  refine ⟨hkeys.2, fun y hy hdirty hfresh => ?_⟩
  have hne : y.1 ≠ x.1 := fun heq => hkeys.1 (heq ▸ mem_map_of_mem hy)
  unfold afterLine
  split_ifs
  · rw [update_ne _ _ hne]
    exact h.fresh y (mem_cons_of_mem _ hy) hdirty hfresh
  · exact h.fresh y (mem_cons_of_mem _ hy) hdirty hfresh

theorem foldl_afterLine_other {k : κ} (h : k ∉ xs.map (·.1)) :
    xs.foldl afterLine view k = view k := by
  induction xs generalizing view with
  | nil => rfl
  | cons x xs ih =>
    rw [map_cons, mem_cons, not_or] at h
    rw [foldl_cons, ih h.2]
    unfold afterLine
    split_ifs
    · exact update_ne _ _ h.1
    · rfl

theorem foldl_afterLine_mem (hkeys : (xs.map (·.1)).Nodup) (hx : x ∈ xs) :
    xs.foldl afterLine view x.1 = afterLine view x x.1 := by
  induction xs generalizing view with
  | nil => cases hx
  | cons y ys ih =>
    rw [map_cons, nodup_cons] at hkeys
    rw [foldl_cons]
    rcases mem_cons.mp hx with rfl | hx
    · exact foldl_afterLine_other hkeys.1
    · have hne : x.1 ≠ y.1 := fun heq => hkeys.1 (heq ▸ mem_map_of_mem hx)
      rw [ih hkeys.2 hx]
      unfold afterLine
      split_ifs
      · rw [update_eq, update_eq]
      · rfl
      · exact update_ne _ _ hne
      · rfl

theorem apply_find? (x : κ × Line ν) : (apply m x).find? = afterLine m.find? x := by
  funext k
  unfold apply afterLine update
  cases hdirty : x.2.dirty with
  | false => simp
  | true =>
    cases hvalue : x.2.value with
    | none => simp [find?_erase]
    | some v => simp [find?_insert]

theorem foldl_apply_find? (xs : List (κ × Line ν)) (m : OrderedMap κ ν) :
    (xs.foldl apply m).find? = xs.foldl afterLine m.find? := by
  induction xs generalizing m with
  | nil => rfl
  | cons x xs ih => rw [foldl_cons, foldl_cons, ih, apply_find?]

theorem reads_plain : Reads plain (· = m) OrderedMap.find? where
  get_fst _ _ _ := rfl
  get_ok _ _ h := h
  get_view _ _ _ := rfl

end

theorem models_plain : Models (plain (κ := κ) (ν := ν)) (fun _ => True) OrderedMap.find? where
  get_fst _ _ _ := rfl
  get_ok _ _ _ := trivial
  get_view _ _ _ := rfl
  write xs m _ _ := ⟨_, rfl, trivial, foldl_apply_find? xs m⟩

/-! ## Caches with right flags -/

/-- The values a cache shows. -/
def Cache.view (view : σ → κ → Option ν) (c : Cache κ ν σ) (k : κ) : Option ν :=
  match c.lines.find? k with
  | none => view c.base k
  | some line => line.value

structure Coherent (view : σ → κ → Option ν) (c : Cache κ ν σ) : Prop where
  clean : ∀ k line, c.lines.find? k = some line → line.dirty = false →
    line.value = view c.base k ∧ line.fresh = false
  fresh : ∀ k line, c.lines.find? k = some line → line.fresh = true → view c.base k = none

section Stack

variable {B : Backing κ ν σ} {ok : σ → Prop} {view : σ → κ → Option ν} {c : Cache κ ν σ} {k : κ}

theorem view_of_none (h : c.lines.find? k = none) : c.view view k = view c.base k := by
  simp [Cache.view, h]

theorem view_of_some {line : Line ν} (h : c.lines.find? k = some line) :
    c.view view k = line.value := by
  simp [Cache.view, h]

theorem coherent_empty (s : σ) : Coherent view (⟨∅, s⟩ : Cache κ ν σ) := ⟨nofun, nofun⟩

theorem view_insert (line : Line ν) :
    ({ c with lines := c.lines.insert k line } : Cache κ ν σ).view view =
      update (c.view view) k line.value := by
  funext k'
  unfold Cache.view update
  rw [find?_insert]
  by_cases h : k' = k
  · simp [h]
  · simp [h]

theorem Coherent.insert (h : Coherent view c) {line : Line ν} (hdirty : line.dirty = true)
    (hfresh : line.fresh = true → view c.base k = none) :
    Coherent view { c with lines := c.lines.insert k line } := by
  refine ⟨fun k' line' hfind hclean => ?_, fun k' line' hfind hf => ?_⟩
  · rw [find?_insert] at hfind
    split_ifs at hfind
    · cases hfind
      rw [hdirty] at hclean
      cases hclean
    · exact h.clean k' line' hfind hclean
  · rw [find?_insert] at hfind
    split_ifs at hfind with heq
    · cases hfind
      rw [heq]
      exact hfresh hf
    · exact h.fresh k' line' hfind hf

theorem Coherent.erase (h : Coherent view c) (k : κ) :
    Coherent view { c with lines := c.lines.erase k } := by
  refine ⟨fun k' line' hfind => ?_, fun k' line' hfind => ?_⟩
  · rw [find?_erase] at hfind
    split_ifs at hfind
    exact h.clean k' line' hfind
  · rw [find?_erase] at hfind
    split_ifs at hfind
    exact h.fresh k' line' hfind

theorem view_erase (hnone : view c.base k = none) :
    ({ c with lines := c.lines.erase k } : Cache κ ν σ).view view = update (c.view view) k none := by
  funext k'
  unfold Cache.view update
  rw [find?_erase]
  by_cases h : k' = k
  · simp [h, hnone]
  · simp [h]

theorem fetch_spec (hB : Reads B ok view) (hok : ok c.base) (h : Coherent view c) (k : κ) :
    ok (c.fetch B k).base ∧ Coherent view (c.fetch B k) ∧ (c.fetch B k).view view = c.view view ∧
      ((c.fetch B k).lines.find? k).bind (·.value) = c.view view k := by
  unfold Cache.fetch
  split_ifs with hin
  · refine ⟨hok, h, rfl, ?_⟩
    obtain ⟨line, hline⟩ := Option.isSome_iff_exists.mp hin
    rw [hline, view_of_some hline]
    rfl
  · have hnone : c.lines.find? k = none := by simpa [OrderedMap.contains] using hin
    have hfst := hB.get_fst k c.base hok
    have hok' := hB.get_ok k c.base hok
    have hview := hB.get_view k c.base hok
    generalize B.get k c.base = got at hfst hok' hview
    obtain ⟨value, s⟩ := got
    -- the store answers the same as before
    have hsame : Coherent view ({ c with base := s } : Cache κ ν σ) :=
      ⟨fun k' line hline hclean => by
        rw [hview]
        exact h.clean k' line hline hclean,
      fun k' line hline hfresh => by
        rw [hview]
        exact h.fresh k' line hline hfresh⟩
    have hshown : ({ c with base := s } : Cache κ ν σ).view view = c.view view := by
      unfold Cache.view
      rw [hview]
    cases value with
    | none =>
      refine ⟨hok', hsame, hshown, ?_⟩
      rw [hnone, view_of_none hnone, ← hfst]
      rfl
    | some v =>
      refine ⟨hok', ⟨fun k' line hline hclean => ?_, fun k' line hline hfresh => ?_⟩, ?_, ?_⟩
      · rw [find?_insert] at hline
        split_ifs at hline with heq
        · cases hline
          rw [heq, hview, ← hfst]
          exact ⟨rfl, rfl⟩
        · exact hsame.clean k' line hline hclean
      · rw [find?_insert] at hline
        split_ifs at hline with heq
        · cases hline
          cases hfresh
        · exact hsame.fresh k' line hline hfresh
      · have hset := @view_insert κ ν σ _ view { c with base := s } k ⟨some v, false, false⟩
        rw [hset, hshown]
        funext k'
        unfold update
        split_ifs with heq
        · rw [heq, view_of_none hnone, ← hfst]
        · rfl
      · rw [find?_insert_self, view_of_none hnone, ← hfst]
        rfl

theorem add_spec (h : Coherent view c) (v : ν) (overwrite : Bool)
    (hfree : overwrite = false → c.view view k = none) :
    ∃ c', c.add k v overwrite = some c' ∧ c'.base = c.base ∧ Coherent view c' ∧
      c'.view view = update (c.view view) k (some v) := by
  have hspent : overwrite = false → ((c.lines.find? k).getD {}).value = none := by
    intro ho
    have := hfree ho
    cases hline : c.lines.find? k with
    | none => rfl
    | some line => rwa [view_of_some hline] at this
  have hfresh : ((!overwrite && !((c.lines.find? k).getD {}).dirty) ||
      ((c.lines.find? k).getD {}).fresh) = true → view c.base k = none := by
    intro hf
    cases hline : c.lines.find? k with
    | none =>
      have hnew : overwrite = false := by simpa [hline] using hf
      exact (view_of_none hline).symm.trans (hfree hnew)
    | some line =>
      by_cases hold : line.fresh = true
      · exact h.fresh k line hline hold
      · have hnew : overwrite = false ∧ line.dirty = false := by simpa [hline, hold] using hf
        rw [← (h.clean k line hline hnew.2).1, ← view_of_some hline]
        exact hfree hnew.1
  unfold Cache.add
  rw [if_neg (by
    rw [Bool.and_eq_true, not_and]
    intro ho
    rw [hspent (by simpa using ho)]
    simp)]
  exact ⟨_, rfl, rfl, h.insert rfl hfresh, view_insert _⟩

theorem spend_spec (hB : Reads B ok view) (hok : ok c.base) (h : Coherent view c) {v : ν}
    (hv : c.view view k = some v) : ok (c.spend B k).base ∧ Coherent view (c.spend B k) ∧
      (c.spend B k).view view = update (c.view view) k none := by
  obtain ⟨hok', hcoherent, hsame, hline⟩ := fetch_spec hB hok h k
  unfold Cache.spend
  dsimp only
  rw [hv] at hline
  obtain ⟨line, hfind, -⟩ := Option.bind_eq_some_iff.mp hline
  rw [hfind]
  dsimp only
  split_ifs with hfresh
  · refine ⟨hok', hcoherent.erase k, ?_⟩
    rw [view_erase (hcoherent.fresh k line hfind hfresh), hsame]
  · refine ⟨hok', hcoherent.insert rfl fun hf => absurd hf hfresh, ?_⟩
    rw [view_insert, hsame]

theorem receive_spec (h : Coherent view c) {x : κ × Line ν}
    (hfit : x.2.dirty = true → x.2.fresh = true → c.view view x.1 = none) :
    ∃ lines, Cache.receive c.lines x = some lines ∧ Coherent view { c with lines := lines } ∧
      ({ c with lines := lines } : Cache κ ν σ).view view = afterLine (c.view view) x := by
  unfold Cache.receive afterLine
  cases hdirty : x.2.dirty with
  | false => exact ⟨c.lines, rfl, h, rfl⟩
  | true =>
    have hfit := hfit hdirty
    simp only [Bool.not_true, Bool.false_eq_true, if_false, if_true]
    cases hline : c.lines.find? x.1 with
    | none =>
      split_ifs with hforget
      · rw [Bool.and_eq_true, Option.isNone_iff_eq_none] at hforget
        refine ⟨c.lines, rfl, h, ?_⟩
        funext k'
        unfold update
        split_ifs with heq
        · rw [heq, hforget.2, hfit hforget.1]
        · rfl
      · refine ⟨_, rfl, h.insert rfl fun hf => ?_, view_insert _⟩
        exact (view_of_none hline).symm.trans (hfit hf)
    | some line =>
      dsimp only
      have hvalue : x.2.fresh = true → line.value = none := fun hf => by
        rw [← hfit hf, view_of_some hline]
      rw [if_neg (by
        rw [Bool.and_eq_true, not_and]
        intro hf
        simp [hvalue hf])]
      split_ifs with herase
      · rw [Bool.and_eq_true, Option.isNone_iff_eq_none] at herase
        refine ⟨_, rfl, h.erase x.1, ?_⟩
        rw [view_erase (h.fresh x.1 line hline herase.1), herase.2]
      · exact ⟨_, rfl, h.insert rfl fun hf => h.fresh x.1 line hline hf, view_insert _⟩

theorem receiveAll_spec (xs : List (κ × Line ν)) (h : Coherent view c) (hfit : Fits (c.view view) xs) :
    ∃ lines, xs.foldlM Cache.receive c.lines = some lines ∧ Coherent view { c with lines := lines } ∧
      ({ c with lines := lines } : Cache κ ν σ).view view = xs.foldl afterLine (c.view view) := by
  induction xs generalizing c with
  | nil => exact ⟨c.lines, rfl, h, rfl⟩
  | cons x xs ih =>
    obtain ⟨lines, hreceive, hcoherent, hview⟩ :=
      receive_spec h (hfit.fresh x mem_cons_self)
    obtain ⟨lines', hall, hcoherent', hview'⟩ := ih hcoherent (by
      rw [hview]
      exact hfit.tail)
    refine ⟨lines', ?_, hcoherent', ?_⟩
    · rw [foldlM_cons, hreceive]
      exact hall
    · rw [hview', hview, foldl_cons]

/-- A cache on a store that can be read like a map behaves like one. -/
theorem Reads.stacked (hB : Reads B ok view) :
    Models (stacked B) (fun c => ok c.base ∧ Coherent view c) (fun c => c.view view) where
  get_fst k c h := (fetch_spec hB h.1 h.2 k).2.2.2
  get_ok k c h := ⟨(fetch_spec hB h.1 h.2 k).1, (fetch_spec hB h.1 h.2 k).2.1⟩
  get_view k c h := (fetch_spec hB h.1 h.2 k).2.2.1
  write xs c h hfit := by
    obtain ⟨lines, hall, hcoherent, hview⟩ := receiveAll_spec xs h.2 hfit
    refine ⟨{ c with lines := lines }, ?_, ⟨h.1, hcoherent⟩, hview⟩
    show (xs.foldlM Cache.receive c.lines).map _ = _
    rw [hall]
    rfl

/-- The lines of a coherent cache can be handed down, and the store then shows what the cache did. -/
theorem flush_spec (hB : Models B ok view) (hok : ok c.base) (h : Coherent view c) :
    ∃ s, B.write c.lines.entries c.base = some s ∧ ok s ∧ view s = c.view view := by
  have hfit : Fits (view c.base) c.lines.entries :=
    ⟨c.lines.keys_nodup, fun x hx _ hfresh => h.fresh x.1 x.2 (find?_eq_some.mpr hx) hfresh⟩
  obtain ⟨s, hwrite, hok', hview⟩ := hB.write _ _ hok hfit
  refine ⟨s, hwrite, hok', ?_⟩
  rw [hview]
  funext k
  cases hline : c.lines.find? k with
  | none =>
    rw [view_of_none hline]
    refine foldl_afterLine_other fun hk => ?_
    obtain ⟨x, hx, rfl⟩ := mem_map.mp hk
    exact find?_eq_none.mp hline x.2 hx
  | some line =>
    rw [view_of_some hline, foldl_afterLine_mem c.lines.keys_nodup (find?_eq_some.mp hline)]
    unfold afterLine
    cases hdirty : line.dirty with
    | true => simp [update]
    | false => exact (h.clean k line hline hdirty).1.symm

end Stack

/-! ## Programs that read, erase and set values -/

/-- The operations of a program on a store. Setting a value fails only where a cache finds its own
flags wrong. -/
structure Ops (κ ν σ : Type*) where
  get : κ → σ → Option ν × σ
  spend : κ → σ → σ
  put : κ → ν → σ → Option σ

/-- A value is set with a look at whether it overwrites one. -/
def Cache.ops (B : Backing κ ν σ) : Ops κ ν (Cache κ ν σ) where
  get := Cache.get B
  spend := Cache.spend B
  put k v c :=
    let x := c.get B k
    x.2.add k v x.1.isSome

def mapOps : Ops κ ν (OrderedMap κ ν) where
  get k m := (m.find? k, m)
  spend k m := m.erase k
  put k v m := some (m.insert k v)

/-- While `ok` holds, the operations are those of a map with the values of `view`. -/
structure Ops.Models (O : Ops κ ν σ) (ok : σ → Prop) (view : σ → κ → Option ν) : Prop where
  get_fst : ∀ k s, ok s → (O.get k s).1 = view s k
  get_ok : ∀ k s, ok s → ok (O.get k s).2
  get_view : ∀ k s, ok s → view (O.get k s).2 = view s
  spend : ∀ k v s, ok s → view s k = some v →
    ok (O.spend k s) ∧ view (O.spend k s) = update (view s) k none
  put : ∀ k v s, ok s → ∃ s', O.put k v s = some s' ∧ ok s' ∧ view s' = update (view s) k (some v)

theorem Reads.ops {B : Backing κ ν σ} {ok : σ → Prop} {view : σ → κ → Option ν}
    (hB : Reads B ok view) :
    (Cache.ops B).Models (fun c => ok c.base ∧ Coherent view c) (fun c => c.view view) where
  get_fst := hB.stacked.get_fst
  get_ok := hB.stacked.get_ok
  get_view := hB.stacked.get_view
  spend k v c h hv := by
    obtain ⟨hok, hcoherent, hview⟩ := spend_spec hB h.1 h.2 hv
    exact ⟨⟨hok, hcoherent⟩, hview⟩
  put k v c h := by
    obtain ⟨hok, hcoherent, hview, hvalue⟩ := fetch_spec hB h.1 h.2 k
    obtain ⟨c', hadd, hbase, hcoherent', hview'⟩ := add_spec (k := k) hcoherent v
      ((c.fetch B k).lines.find? k |>.bind (·.value)).isSome (by
        rw [hvalue, hview]
        simp)
    refine ⟨c', hadd, ⟨hbase ▸ hok, hcoherent'⟩, ?_⟩
    rw [hview', hview]

end WriteBack

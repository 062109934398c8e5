import TreeArena.Proofs.WorkRuns
import Mathlib.Tactic.SplitIfs

/-!
# Model windows

A model store memoizes a window of consecutive models. This module states what a workspace keeps
across model store calls (`Workspace.Kept`) and proves that the steps that move or empty a window
keep it: evicting a model gives its memoized tree back exactly once (`evict_spec`), emptying a
window evicts each of its models (`Kept.invalidate`), and sliding a window to hold record `i`
moves every model to the slot of its record and evicts those that fall off (`Kept.slide`).

The window's start is an `Int64` and the shift that slides it is computed at sixty-four bits,
where `first + k` can wrap; for a window of at most `2 ^ 62` slots the shifted window still
starts at a record `≥ 0` and holds `i` (`shiftFor_some`).

The references a workspace holds are its callers' (`own`) and one per model that memoizes a tree
(`memos`). Since a model outside every window is evicted and memoizes nothing, the references held
for models are those of the models in the windows' slots.
-/

namespace TreeArena

namespace Handle

/-- Whether a handle can name a node: it has a pool, and its id is not `NodeId.none`. -/
def named (r : Handle) : Bool := r.home.isSome && r.id != NodeId.none

@[simp] theorem named_cleared (r : Handle) : r.cleared.named = false := by
  simp [named, cleared]

@[simp] theorem named_zero : zero.named = false := rfl

end Handle

theorem Heap.named_of_isDefined {h : Heap} {r : Handle} (hd : h.isDefined r = true) :
    r.named = true := by
  unfold isDefined resolve at hd
  unfold Handle.named
  cases hr : r.home with
  | none => simp [hr] at hd
  | some k =>
    by_cases hn : r.id = NodeId.none
    · simp [hr, hn, SlotTable.resolve] at hd
    · simp [hn]

/-! ### Sixty-four-bit window arithmetic -/

namespace Window

theorem toInt_natCast {n : Nat} (h : n < 2 ^ 63) : n.toInt64.toInt = n := by
  show (Int64.ofNat n).toInt = n
  rw [Int64.toInt_ofNat']
  exact Int.bmod_eq_of_le (by simp only [Int64.size]; omega) (by simp only [Int64.size]; omega)

theorem toInt_intCast {i : Int} (h0 : 0 ≤ i) (h : i < 2 ^ 63) : i.toInt64.toInt = i :=
  Int64.toInt_ofInt_of_le (by omega) h

theorem toInt_add_of_range {a b : Int64} (h₁ : -2 ^ 63 ≤ a.toInt + b.toInt)
    (h₂ : a.toInt + b.toInt < 2 ^ 63) : (a + b).toInt = a.toInt + b.toInt := by
  rw [Int64.toInt_add]
  exact Int.bmod_eq_of_le (by omega) (by omega)

theorem toInt_sub_of_range {a b : Int64} (h₁ : -2 ^ 63 ≤ a.toInt - b.toInt)
    (h₂ : a.toInt - b.toInt < 2 ^ 63) : (a - b).toInt = a.toInt - b.toInt := by
  rw [Int64.toInt_sub]
  exact Int.bmod_eq_of_le (by omega) (by omega)

/-- The shift that slides a window of at most `2 ^ 62` slots to hold record `i ≥ 0` leaves it
starting at a record `≥ 0`, with `i` inside; the new start is the old one plus the shift, with no
wrap, even where `first + k` wraps. -/
theorem shiftFor_some {i first delta : Int64} {k : Nat} (hi : 0 ≤ i.toInt) (hf : 0 ≤ first.toInt)
    (hk0 : 0 < k) (hk : k ≤ 2 ^ 62) (hs : Workspace.shiftFor i first k = some delta) :
    (first + delta).toInt = first.toInt + delta.toInt ∧ 0 ≤ (first + delta).toInt ∧
      (first + delta).toInt ≤ i.toInt ∧ i.toInt < (first + delta).toInt + k := by
  have hk64 : k.toInt64.toInt = k := toInt_natCast (by omega)
  have hi' := i.toInt_lt
  have hf' := first.toInt_lt
  unfold Workspace.shiftFor at hs
  simp only at hs
  split at hs
  · -- `i` lies before the window, which then starts at `i`
    rename_i hlt
    cases hs
    rw [Int64.lt_iff_toInt_lt] at hlt
    have hd : (i - first).toInt = i.toInt - first.toInt := toInt_sub_of_range (by omega) (by omega)
    rw [toInt_add_of_range (by omega) (by omega), hd]
    omega
  · rename_i hlt
    split at hs
    · -- `i` lies past the window, which then ends at `i`; `first + k` may wrap here, but then
      -- `first` is already past `2 ^ 62`, so the new start `i - k + 1` is still `≥ 0`
      rename_i hge
      cases hs
      rw [Int64.lt_iff_toInt_lt] at hlt
      rw [ge_iff_le, Int64.le_iff_toInt_le] at hge
      have hki : (k : Int) ≤ i.toInt + 1 := by
        by_cases hw : first.toInt + k < 2 ^ 63
        · have hend : (first + k.toInt64).toInt = first.toInt + k :=
            hk64 ▸ toInt_add_of_range (by omega) (by omega)
          omega
        · omega
      have hstart : (i - k.toInt64 + 1).toInt = i.toInt - k + 1 := by
        have hik : (i - k.toInt64).toInt = i.toInt - k :=
          hk64 ▸ toInt_sub_of_range (by omega) (by omega)
        have h1 : (1 : Int64).toInt = 1 := rfl
        rw [toInt_add_of_range (by omega) (by omega), hik, h1]
      have hdelta : i - (first + k.toInt64 - 1) = i - k.toInt64 + 1 - first := by grind
      have hsum : first + (i - k.toInt64 + 1 - first) = i - k.toInt64 + 1 := by grind
      rw [hdelta, hsum, hstart, toInt_sub_of_range (by omega) (by omega), hstart]
      omega
    · cases hs

/-- No shift is asked for exactly when `i` is already inside the window. -/
theorem shiftFor_none {i first : Int64} {k : Nat} (hf : 0 ≤ first.toInt) (hk : k ≤ 2 ^ 62)
    (hs : Workspace.shiftFor i first k = none) :
    first.toInt ≤ i.toInt ∧ i.toInt < first.toInt + k := by
  have hk64 : k.toInt64.toInt = k := toInt_natCast (by omega)
  have hf' := first.toInt_lt
  unfold Workspace.shiftFor at hs
  simp only at hs
  split at hs
  · cases hs
  · rename_i hlt
    split at hs
    · cases hs
    · rename_i hge
      simp only [ge_iff_le, Int64.le_iff_toInt_le, Int64.toInt_add, hk64, Int.bmod_def] at hge
      rw [Int64.lt_iff_toInt_lt] at hlt
      split_ifs at hge <;> omega

/-- Slot `j` of a window of `k ≤ 2 ^ 62` lands inside it after a shift by `delta` exactly when
`j - delta` is a slot: at sixty-four bits `j - delta` may wrap, but only to a negative value. -/
theorem lands_iff {j k : Nat} (hj : j < k) (hk : k ≤ 2 ^ 62) (delta : Int64) :
    (0 ≤ j.toInt64 - delta ∧ j.toInt64 - delta < k.toInt64) ↔
      (0 ≤ (j : Int) - delta.toInt ∧ (j : Int) - delta.toInt < k) := by
  have hk64 : k.toInt64.toInt = k := toInt_natCast (by omega)
  have hj64 : j.toInt64.toInt = j := toInt_natCast (by omega)
  have hd := delta.toInt_lt
  have hd' := delta.le_toInt
  have h0 : (0 : Int64).toInt = 0 := rfl
  simp only [Int64.le_iff_toInt_le, Int64.lt_iff_toInt_lt, Int64.toInt_sub, hk64, hj64, h0,
    Int.bmod_def]
  split_ifs <;> omega

theorem toNatClampNeg_land {j k : Nat} (hj : j < k) (hk : k ≤ 2 ^ 62) {delta : Int64}
    (h : 0 ≤ (j : Int) - delta.toInt ∧ (j : Int) - delta.toInt < k) :
    (j.toInt64 - delta).toNatClampNeg = ((j : Int) - delta.toInt).toNat := by
  have hj64 : j.toInt64.toInt = j := toInt_natCast (by omega)
  rw [← Int64.toNat_toInt, toInt_sub_of_range (by omega) (by omega), hj64]

theorem toInt_sub_of_le {i first : Int64} (hf : 0 ≤ first.toInt) (hle : first.toInt ≤ i.toInt) :
    (i - first).toInt = i.toInt - first.toInt := by
  have hi' := i.toInt_lt
  exact toInt_sub_of_range (by omega) (by omega)

end Window

/-! ### Memoized trees -/

namespace Model

/-- The tree a model memoizes: its expression, when that can name a node. -/
def memo (m : Model) : Option Handle := if m.expression.named then some m.expression else none

/-- `m'` is `m` evicted: the same record, store and pool, marked evicted, memoizing nothing. -/
structure Evicted (m m' : Model) : Prop where
  record : m'.record = m.record
  store : m'.store = m.store
  pool : m'.pool = m.pool
  evicted : m'.evicted = true
  unnamed : m'.expression.named = false

theorem Evicted.trans {m m' m'' : Model} (h : m.Evicted m') (h' : m'.Evicted m'') :
    m.Evicted m'' :=
  ⟨h'.record.trans h.record, h'.store.trans h.store, h'.pool.trans h.pool, h'.evicted, h'.unnamed⟩

theorem Evicted.memo {m m' : Model} (h : m.Evicted m') : m'.memo = none := by
  simp [Model.memo, h.unnamed]

end Model

/-- The trees the models memoize, model by model. -/
def memos (models : Array Model) : List Handle := models.toList.filterMap Model.memo

/-- Replacing one element of a list moves what a partial map gives for it. -/
theorem filterMap_set_perm {α β : Type} (f : α → Option β) {x y : α} :
    ∀ {l : List α} {j : Nat}, l[j]? = some y →
      ((f y).toList ++ (l.set j x).filterMap f).Perm ((f x).toList ++ l.filterMap f)
  | [], _, h => by simp at h
  | a :: l, 0, h => by
    cases h
    simp only [List.set_cons_zero]
    cases hx : f x <;> cases hy : f y <;> simp [hx, hy, List.Perm.swap]
  | a :: l, j + 1, h => by
    have ih := filterMap_set_perm f (x := x) (l := l) (j := j) (by simpa using h)
    simp only [List.set_cons_succ, List.filterMap_cons]
    cases ha : f a with
    | none => exact ih
    | some b =>
      refine List.perm_middle.trans ((ih.cons b).trans ?_)
      exact List.perm_middle.symm

/-- Setting model `j` trades its memoized tree for the new model's. -/
theorem memos_set_perm {models : Array Model} {j : Nat} {m : Model} (hj : models[j]? = some m)
    (m' : Model) :
    (m.memo.toList ++ memos (models.setIfInBounds j m')).Perm (m'.memo.toList ++ memos models) := by
  unfold memos
  rw [Array.toList_setIfInBounds]
  exact filterMap_set_perm _ (by rwa [Array.getElem?_toList])

theorem memos_push {models : Array Model} {m : Model} (hm : m.memo = none) :
    memos (models.push m) = memos models := by
  simp [memos, hm]

/-- Evicting a model whose memoized tree is `e` drops `e` from the references held. -/
theorem memos_evict_perm {own : List Handle} {models : Array Model} {j : Nat} {m m' : Model}
    (hj : models[j]? = some m) {e : Handle} (hm : m.memo = some e) (hm' : m'.memo = none) :
    (own ++ memos (models.setIfInBounds j m')).Perm ((own ++ memos models).erase e) := by
  have hp : (e :: memos (models.setIfInBounds j m')).Perm (memos models) := by
    simpa [hm, hm'] using memos_set_perm hj m'
  have hmid : (own ++ memos models).Perm (e :: (own ++ memos (models.setIfInBounds j m'))) :=
    (hp.symm.append_left own).trans List.perm_middle
  simpa using (hmid.erase e).symm

/-- Setting a model that memoizes nothing in place of another that memoizes nothing keeps the
references held. -/
theorem memos_set_perm_of_none {models : Array Model} {j : Nat} {m m' : Model}
    (hj : models[j]? = some m) (hm : m.memo = none) (hm' : m'.memo = none) :
    (memos (models.setIfInBounds j m')).Perm (memos models) := by
  simpa [hm, hm'] using memos_set_perm hj m'

/-- A handle's unit is held for a memoized tree only while it names a live node. -/
theorem Heap.Exact.isDefined_of_memo {h : Heap} {own : List Handle} {models : Array Model}
    (hE : h.Exact (own ++ memos models)) {j : Nat} {m : Model} (hj : models[j]? = some m)
    {e : Handle} (he : m.memo = some e) : h.isDefined e = true := by
  have hmem : e ∈ own ++ memos models := by
    refine List.mem_append_right _ (List.mem_filterMap.mpr ⟨m, ?_, he⟩)
    exact Array.mem_toList_iff.mpr (Array.mem_of_getElem? hj)
  obtain ⟨k, p, i, hf, -⟩ := owns_iff.mp (hE.owns hmem)
  exact isDefined_iff_finds.mpr ⟨k, p, i, hf⟩

/-! ### Evicting models -/

/-- `models'` is `models` with the models `P` picks evicted, and the others as they were. -/
def Evicts (P : Nat → Prop) (models models' : Array Model) : Prop :=
  models'.size = models.size ∧ ∀ j m, models[j]? = some m →
    ∃ m', models'[j]? = some m' ∧ (P j → m.Evicted m') ∧ (¬ P j → m' = m)

namespace Evicts

variable {P Q : Nat → Prop} {models models' models'' : Array Model}

theorem refl (models : Array Model) : Evicts (fun _ => False) models models :=
  ⟨rfl, fun _ m hm => ⟨m, hm, False.elim, fun _ => rfl⟩⟩

theorem congr (h : Evicts P models models') (hPQ : ∀ j, P j ↔ Q j) : Evicts Q models models' := by
  refine ⟨h.1, fun j m hm => ?_⟩
  obtain ⟨m', hm', hP, hnP⟩ := h.2 j m hm
  exact ⟨m', hm', fun hq => hP ((hPQ j).mpr hq), fun hq => hnP fun hp => hq ((hPQ j).mp hp)⟩

theorem trans (h : Evicts P models models') (h' : Evicts Q models' models'') :
    Evicts (fun j => P j ∨ Q j) models models'' := by
  refine ⟨h'.1.trans h.1, fun j m hm => ?_⟩
  obtain ⟨m', hm', hP, hnP⟩ := h.2 j m hm
  obtain ⟨m'', hm'', hQ, hnQ⟩ := h'.2 j m' hm'
  refine ⟨m'', hm'', fun hPQ => ?_, fun hPQ => ?_⟩
  · by_cases hp : P j
    · by_cases hq : Q j
      · exact (hP hp).trans (hQ hq)
      · rw [hnQ hq]
        exact hP hp
    · rw [← hnP hp]
      exact hQ (hPQ.resolve_left hp)
  · rw [hnQ fun hq => hPQ (.inr hq), hnP fun hp => hPQ (.inl hp)]

theorem set {j : Nat} {m m' : Model} (hj : models[j]? = some m) (h : m.Evicted m') :
    Evicts (· = j) models (models.setIfInBounds j m') := by
  refine ⟨Array.size_setIfInBounds, fun j' m'' hm'' => ?_⟩
  by_cases hjj : j' = j
  · subst hjj
    rw [hj] at hm''
    cases hm''
    have hlt : j' < models.size := (Array.getElem?_eq_some_iff.mp hj).1
    exact ⟨m', by simp [hlt], fun _ => h, fun hn => absurd rfl hn⟩
  · refine ⟨m'', ?_, fun h => absurd h hjj, fun _ => rfl⟩
    rw [Array.getElem?_setIfInBounds, if_neg (Ne.symm hjj), hm'']

theorem getElem?_of_not {j : Nat} (h : Evicts P models models') (hj : ¬ P j) :
    models'[j]? = models[j]? := by
  cases hm : models[j]? with
  | none =>
    have : models.size ≤ j := by simpa using hm
    simp [h.1, this]
  | some m =>
    obtain ⟨m', hm', -, hnP⟩ := h.2 j m hm
    rw [hm', hnP hj]

theorem evicted_of {j : Nat} (h : Evicts P models models') (hj : P j) {m' : Model}
    (hm' : models'[j]? = some m') : ∃ m, models[j]? = some m ∧ m.Evicted m' := by
  have hlt : j < models.size := by
    have := (Array.getElem?_eq_some_iff.mp hm').1
    rwa [h.1] at this
  obtain ⟨m'', hm'', hP, -⟩ := h.2 j models[j] (by simp [hlt])
  rw [hm'] at hm''
  cases hm''
  exact ⟨models[j], by simp [hlt], hP hj⟩

end Evicts

namespace Workspace

variable {own : List Handle} {w : Workspace}

variable {j : Nat} {m : Model}

theorem run_tidy_defined (hj : w.models[j]? = some m) (hd : w.heap.isDefined m.expression = true)
    {c : Handle} {h' : Heap} (hrel : (Heap.release m.expression).run w.heap = .ok c h') :
    (tidy j).run w =
      .ok () { w with heap := h', models := w.models.setIfInBounds j { m with expression := c } } := by
  unfold tidy
  rw [run_bind_of_ok (run_model j), hj, Option.getD_some, run_bind_of_ok run_get, if_pos hd,
    run_bind_of_ok (run_heapOp_ok hrel), run_setModel]

theorem run_tidy_undefined (hj : (w.models[j]?).getD default = m)
    (hd : w.heap.isDefined m.expression = false) : (tidy j).run w = .ok () w := by
  unfold tidy
  rw [run_bind_of_ok (run_model j), hj, run_bind_of_ok run_get, if_neg (by simp [hd])]
  rfl

theorem run_evict {w' : Workspace} (ht : (tidy j).run w = .ok () w') {m' : Model}
    (hm : w'.models[j]? = some m') :
    (evict j).run w = .ok () { w' with models := w'.models.setIfInBounds j { m' with evicted := true } } := by
  unfold evict
  rw [run_bind_of_ok ht, run_bind_of_ok (run_model j), hm, Option.getD_some, run_setModel]

/-- Evicting a model gives back its memoized tree, if it has one, and marks it evicted; nothing
else changes, and it never fails. -/
theorem evict_spec (hE : w.heap.Exact (own ++ memos w.models)) (j : Nat) :
    ∃ h' models', (evict j).run w = .ok () { w with heap := h', models := models' } ∧
      Evicts (· = j) w.models models' ∧ h'.Exact (own ++ memos models') := by
  cases hj : w.models[j]? with
  | none =>
    -- no such model: nothing happens
    have hout : w.models.size ≤ j := by simpa using hj
    refine ⟨w.heap, w.models, ?_, ⟨rfl, fun j' m hm => ⟨m, hm, fun h => ?_, fun _ => rfl⟩⟩, hE⟩
    · unfold evict
      rw [run_bind_of_ok (run_tidy_undefined (m := default) (by simp [hj]) rfl),
        run_bind_of_ok (run_model j), hj, run_setModel]
      simp [Array.setIfInBounds, hout]
    · subst h
      rw [hj] at hm
      cases hm
  | some m =>
    have hlt : j < w.models.size := (Array.getElem?_eq_some_iff.mp hj).1
    by_cases hd : w.heap.isDefined m.expression = true
    · -- the memoized tree goes back to its pool
      have hmemo : m.memo = some m.expression := by
        simp [Model.memo, Heap.named_of_isDefined hd]
      have hmem : m.expression ∈ own ++ memos w.models := by
        refine List.mem_append_right _ (List.mem_filterMap.mpr ⟨m, ?_, hmemo⟩)
        exact Array.mem_toList_iff.mpr (Array.mem_of_getElem? hj)
      obtain ⟨c, h₁, hrun, rfl, hE₁, -⟩ := hE.release fun _ => hmem
      have hm' : m.Evicted { m with expression := m.expression.cleared, evicted := true } :=
        ⟨rfl, rfl, rfl, rfl, Handle.named_cleared _⟩
      refine ⟨h₁, _, ?_, Evicts.set hj hm', hE₁.perm (memos_evict_perm hj hmemo hm'.memo)⟩
      have hm₁ : (w.models.setIfInBounds j { m with expression := m.expression.cleared })[j]? =
          some { m with expression := m.expression.cleared } := by
        simp [hlt]
      rw [run_evict (run_tidy_defined hj hd hrun) hm₁]
      simp [Array.setIfInBounds_setIfInBounds]
    · -- nothing is memoized: only the mark changes
      have hmemo : m.memo = none := by
        cases hn : m.expression.named
        · simp [Model.memo, hn]
        · exact absurd (hE.isDefined_of_memo hj (by simp [Model.memo, hn])) hd
      have hm' : m.Evicted { m with evicted := true } :=
        ⟨rfl, rfl, rfl, rfl, by simpa [Model.memo] using hmemo⟩
      refine ⟨w.heap, _, ?_, Evicts.set hj hm',
        hE.perm ((memos_set_perm_of_none hj hmemo hm'.memo).append_left own)⟩
      rw [run_evict (run_tidy_undefined (m := m) (by simp [hj]) (by simpa using hd)) hj]

/-- Evicting the models of a list of slots evicts each of them, in turn. -/
theorem evictAll_spec : ∀ (slots : List (Option Nat)) {w : Workspace},
    w.heap.Exact (own ++ memos w.models) →
    ∃ h' models', (evictAll slots).run w = .ok () { w with heap := h', models := models' } ∧
      Evicts (fun j => some j ∈ slots) w.models models' ∧ h'.Exact (own ++ memos models')
  | [], w, hE => ⟨w.heap, w.models, rfl, (Evicts.refl _).congr (by simp), hE⟩
  | none :: slots, _, hE => by
    obtain ⟨h', models', hrun, hev, hE'⟩ := evictAll_spec slots hE
    exact ⟨h', models', hrun, hev.congr (by simp), hE'⟩
  | some j :: slots, w, hE => by
    obtain ⟨h₁, models₁, hrun₁, hev₁, hE₁⟩ := evict_spec hE j
    obtain ⟨h', models', hrun, hev, hE'⟩ :=
      evictAll_spec slots (w := { w with heap := h₁, models := models₁ }) hE₁
    refine ⟨h', models', ?_, (hev₁.trans hev).congr (by simp [eq_comm]), hE'⟩
    simp only [evictAll]
    rw [run_bind_of_ok hrun₁, hrun]

end Workspace

/-! ### The invariant -/

/-- Model `m` is the one a window of `ms` holds for record `n`: a live model of the window's store
and pool whose record is the `n`-th with the window's extension, in contents of the store that were
seen (`Seen`) and carry the window's checksum. -/
structure Model.Fills (Seen : Nat → Backend → Prop) (ms : ModelStore) (n : Nat) (m : Model) :
    Prop where
  live : m.evicted = false
  store : m.store = ms.store
  pool : m.pool = ms.pool
  listed : ∃ b, Seen ms.store b ∧ Store.checksumOf b.entries = ms.checksum ∧
    (Store.listed b ms.extension)[n]? = some m.record

/-- Whether a model fills a record's slot reads only the window's store, pool, extension and
checksum. -/
theorem Model.Fills.congr {Seen : Nat → Backend → Prop} {ms ms' : ModelStore} {n : Nat} {m : Model}
    (hf : m.Fills Seen ms n) (hs : ms'.store = ms.store) (hp : ms'.pool = ms.pool)
    (he : ms'.extension = ms.extension) (hc : ms'.checksum = ms.checksum) : m.Fills Seen ms' n :=
  ⟨hf.live, hf.store.trans hs.symm, hf.pool.trans hp.symm, by rw [hs, he, hc]; exact hf.listed⟩

/-- A model store's window: it starts at a record `≥ 0`, has between one and `2 ^ 62` slots, and
its slot `a` holds, if anything, the model of record `first + a`. -/
structure ModelStore.Window (Seen : Nat → Backend → Prop) (models : Array Model) (ms : ModelStore) :
    Prop where
  first_nonneg : 0 ≤ ms.first.toInt
  size_pos : 0 < ms.memo.size
  size_le : ms.memo.size ≤ 2 ^ 62
  fills : ∀ a j : Nat, ms.memo[a]? = some (some j) →
    ∃ m : Model, models[j]? = some m ∧ m.Fills Seen ms (ms.first.toInt + a).toNat

namespace Workspace

/-- Whether model `j` sits in a slot of some model store's window. -/
def Windowed (w : Workspace) (j : Nat) : Prop :=
  ∃ (s : Nat) (ms : ModelStore) (a : Nat), w.modelStores[s]? = some ms ∧ ms.memo[a]? = some (some j)

/-- What a workspace keeps across model store calls, with `own` the references its callers hold
and `Seen` the record store contents a window may have been filled from. The heap holds exactly
the callers' references and one per memoized tree; record stores are open in-memory ones; every
window is well placed; a model sits in at most one slot of all windows; and a model outside every
window is evicted and memoizes nothing. -/
structure Kept (Seen : Nat → Backend → Prop) (own : List Handle) (w : Workspace) : Prop where
  exact : w.heap.Exact (own ++ memos w.models)
  memory : ∀ (k : Nat) (b : Backend), w.stores[k]? = some b → b.Memory
  windows : ∀ (s : Nat) (ms : ModelStore), w.modelStores[s]? = some ms → ms.Window Seen w.models
  once : ∀ (s s' : Nat) (ms ms' : ModelStore) (a a' j : Nat), w.modelStores[s]? = some ms →
    w.modelStores[s']? = some ms' → ms.memo[a]? = some (some j) → ms'.memo[a']? = some (some j) →
    s = s' ∧ a = a'
  parked : ∀ (j : Nat) (m : Model), w.models[j]? = some m → ¬ w.Windowed j →
    m.evicted = true ∧ m.expression.named = false

end Workspace

/-- A window reads only the models in its slots. -/
theorem ModelStore.Window.congr {Seen : Nat → Backend → Prop} {models models' : Array Model}
    {ms : ModelStore} (hW : ms.Window Seen models)
    (h : ∀ a j : Nat, ms.memo[a]? = some (some j) → models'[j]? = models[j]?) :
    ms.Window Seen models' := by
  refine ⟨hW.first_nonneg, hW.size_pos, hW.size_le, fun a j hj => ?_⟩
  rw [h a j hj]
  exact hW.fills a j hj

theorem getElem?_setIfInBounds_of {α : Type} {xs : Array α} {s : Nat} {x : α} (hs : xs[s]? = some x)
    (y : α) (t : Nat) : (xs.setIfInBounds s y)[t]? = if t = s then some y else xs[t]? := by
  have hlt : s < xs.size := (Array.getElem?_eq_some_iff.mp hs).1
  rw [Array.getElem?_setIfInBounds]
  by_cases hts : t = s
  · subst hts
    simp [hlt]
  · rw [if_neg (Ne.symm hts), if_neg hts]

namespace Workspace

variable {Seen : Nat → Backend → Prop} {own : List Handle} {w : Workspace}

/-- Replacing one model store keeps each model in at most one slot of all stores when the new
store holds each model in one slot only, and none that another store holds. -/
theorem once_setIfInBounds {stores : Array ModelStore} {s : Nat} {ms : ModelStore}
    (hs : stores[s]? = some ms)
    (honce : ∀ (t t' : Nat) (mt mt' : ModelStore) (a a' j : Nat), stores[t]? = some mt →
      stores[t']? = some mt' → mt.memo[a]? = some (some j) → mt'.memo[a']? = some (some j) →
      t = t' ∧ a = a')
    (ms' : ModelStore)
    (hinj : ∀ a a' j : Nat, ms'.memo[a]? = some (some j) → ms'.memo[a']? = some (some j) → a = a')
    (hapart : ∀ (t : Nat) (mt : ModelStore) (a b j : Nat), t ≠ s → stores[t]? = some mt →
      ms'.memo[a]? = some (some j) → mt.memo[b]? ≠ some (some j)) :
    ∀ (t t' : Nat) (mt mt' : ModelStore) (a a' j : Nat),
      (stores.setIfInBounds s ms')[t]? = some mt → (stores.setIfInBounds s ms')[t']? = some mt' →
      mt.memo[a]? = some (some j) → mt'.memo[a']? = some (some j) → t = t' ∧ a = a' := by
  intro t t' mt mt' a a' j ht ht' hj hj'
  have hget := getElem?_setIfInBounds_of hs ms'
  rw [hget] at ht ht'
  split at ht <;> split at ht' <;> rename_i hts hts'
  · cases ht
    cases ht'
    exact ⟨hts.trans hts'.symm, hinj a a' j hj hj'⟩
  · cases ht
    exact absurd hj' (hapart t' mt' a a' j hts' ht' hj)
  · cases ht'
    exact absurd hj (hapart t mt a' a j hts ht hj')
  · exact honce t t' mt mt' a a' j ht ht' hj hj'

/-- Replacing the window of model store `s` keeps the invariant when the new window is well placed
and holds only models of the old one, each once, and the models that leave the window are the
ones evicted. -/
theorem Kept.rewindow (hK : w.Kept Seen own) {s : Nat} {ms : ModelStore}
    (hs : w.modelStores[s]? = some ms) (ms' : ModelStore) {P : Nat → Prop} {h' : Heap} {models' : Array Model}
    (hev : Evicts P w.models models') (hE : h'.Exact (own ++ memos models'))
    (hW : ms'.Window Seen w.models)
    (hsub : ∀ a j : Nat, ms'.memo[a]? = some (some j) → ∃ a₀ : Nat, ms.memo[a₀]? = some (some j))
    (hinj : ∀ a a' j : Nat, ms'.memo[a]? = some (some j) → ms'.memo[a']? = some (some j) → a = a')
    (hleave : ∀ a j : Nat, ms.memo[a]? = some (some j) →
      (∀ a' : Nat, ms'.memo[a']? ≠ some (some j)) → P j)
    (hP : ∀ j, P j →
      (∃ a : Nat, ms.memo[a]? = some (some j)) ∧ ∀ a' : Nat, ms'.memo[a']? ≠ some (some j)) :
    Kept Seen own
      { w with heap := h', models := models', modelStores := w.modelStores.setIfInBounds s ms' } := by
  have hget := getElem?_setIfInBounds_of hs ms'
  -- a model of another window is not picked, so it is as it was
  have hother : ∀ (t : Nat) (mt : ModelStore) (a j : Nat), t ≠ s → w.modelStores[t]? = some mt →
      mt.memo[a]? = some (some j) →
      ¬ P j := fun t mt a j hts ht hj hPj => by
    obtain ⟨⟨a₀, ha₀⟩, -⟩ := hP j hPj
    exact hts (hK.once t s mt ms a a₀ j ht hs hj ha₀).1
  refine ⟨hE, hK.memory, fun t mt ht => ?_, once_setIfInBounds hs hK.once ms' hinj
    fun t mt a b j hts ht hj hb => ?_, fun j m hm hnw => ?_⟩
  · -- windows
    rw [hget] at ht
    split at ht
    · cases ht
      exact hW.congr fun a j hj => hev.getElem?_of_not fun hPj => (hP j hPj).2 a hj
    · exact (hK.windows t mt ht).congr fun a j hj => hev.getElem?_of_not (hother t mt a j ‹_› ht hj)
  · -- a model of the new window was in the old one, so it is in no other window
    obtain ⟨a₀, ha₀⟩ := hsub a j hj
    exact hts (hK.once t s mt ms b a₀ j ht hs hb ha₀).1
  · -- parked
    by_cases hPj : P j
    · obtain ⟨m₀, -, hm₀⟩ := hev.evicted_of hPj hm
      exact ⟨hm₀.evicted, hm₀.unnamed⟩
    · rw [hev.getElem?_of_not hPj] at hm
      refine hK.parked j m hm fun ⟨t, mt, a, ht, hj⟩ => hnw ?_
      by_cases hts : t = s
      · subst hts
        rw [hs] at ht
        cases ht
        by_contra hnot
        refine hPj (hleave a j hj fun a' ha' => hnot ⟨t, ms', a', ?_, ha'⟩)
        rw [hget, if_pos rfl]
      · exact ⟨t, mt, a, by rw [hget, if_neg hts]; exact ht, hj⟩

/-- Emptying a window evicts its models, each once, and keeps the invariant. -/
theorem Kept.invalidate (hK : w.Kept Seen own) {s : Nat} {ms : ModelStore}
    (hs : w.modelStores[s]? = some ms) :
    ∃ h' models',
      (Workspace.invalidate s).run w = .ok () { w with
        heap := h', models := models'
        modelStores := w.modelStores.setIfInBounds s
          { ms with memo := Array.replicate ms.memo.size none } } ∧
      Kept Seen own { w with
        heap := h', models := models'
        modelStores := w.modelStores.setIfInBounds s
          { ms with memo := Array.replicate ms.memo.size none } } := by
  obtain ⟨h', models', hrun, hev, hE⟩ := evictAll_spec ms.memo.toList hK.exact
  have hnone : ∀ a j : Nat, (Array.replicate ms.memo.size (none : Option Nat))[a]? ≠ some (some j) :=
    fun a j => by simp [Array.getElem?_replicate]
  refine ⟨h', models', ?_, hK.rewindow hs _ hev hE ?_ (fun a j hj => absurd hj (hnone a j))
    (fun a _ j hj => absurd hj (hnone a j)) (fun a j hj _ => ?_) (fun j hj => ?_)⟩
  · unfold Workspace.invalidate
    rw [run_bind_of_ok (run_modelStore s), hs, Option.getD_some, run_bind_of_ok hrun,
      run_setModelStore]
  · have hW := hK.windows s ms hs
    exact ⟨hW.first_nonneg, by simpa using hW.size_pos, by simpa using hW.size_le,
      fun a j hj => absurd hj (hnone a j)⟩
  · exact Array.mem_toList_iff.mpr (Array.mem_of_getElem? hj)
  · obtain ⟨a, ha⟩ := Array.mem_iff_getElem?.mp (Array.mem_toList_iff.mp hj)
    exact ⟨⟨a, ha⟩, fun a' => hnone a' j⟩

/-! ### Sliding a window -/

section Shift

variable (memo : Array (Option Nat)) (k : Nat) (delta : Int64)

/-- Where the models of the slots `js` land in `next` when the window moves by `delta`: the part of
`shiftSlots` that computes the new window. -/
def placeSlots : List Nat → Array (Option Nat) → Array (Option Nat)
  | [], next => next
  | j :: js, next =>
    match memo[j]?.getD none with
    | none => placeSlots js next
    | some mj =>
      if 0 ≤ j.toInt64 - delta ∧ j.toInt64 - delta < k.toInt64 then
        placeSlots js (next.setIfInBounds (j.toInt64 - delta).toNatClampNeg (some mj))
      else placeSlots js next

/-- The models of the slots `js` that fall off the window when it moves by `delta`, in slot
order. -/
def droppedSlots (js : List Nat) : List (Option Nat) :=
  js.map fun j =>
    match memo[j]?.getD none with
    | none => none
    | some mj => if 0 ≤ j.toInt64 - delta ∧ j.toInt64 - delta < k.toInt64 then none else some mj

/-- Moving slots evicts, in slot order, the models that fall off, and computes the new window. -/
theorem shiftSlots_eq : ∀ (js : List Nat) (next : Array (Option Nat)),
    shiftSlots memo k delta js next =
      (do evictAll (droppedSlots memo k delta js); pure (placeSlots memo k delta js next))
  | [], next => by
    simp only [shiftSlots, droppedSlots, placeSlots, List.map_nil, evictAll, pure_bind]
  | j :: js, next => by
    rw [show droppedSlots memo k delta (j :: js) = _ :: droppedSlots memo k delta js from rfl]
    simp only [shiftSlots, placeSlots]
    cases memo[j]?.getD none with
    | none => simpa only [evictAll] using shiftSlots_eq js next
    | some mj =>
      dsimp only
      split
      · simpa only [evictAll] using shiftSlots_eq js _
      · simp only [evictAll, bind_assoc]
        rw [shiftSlots_eq js next]

variable {memo k delta}

/-- In a window of at most `2 ^ 62` slots, the code's sixty-four-bit test that slot `j` stays inside
is `0 ≤ j - delta < k`, and the slot it lands on is `j - delta`. -/
theorem lands_toInt {j : Nat} (hj : j < k) (hk : k ≤ 2 ^ 62) :
    ((0 ≤ j.toInt64 - delta ∧ j.toInt64 - delta < k.toInt64) ↔
      (0 ≤ (j : Int) - delta.toInt ∧ (j : Int) - delta.toInt < k)) ∧
    (0 ≤ (j : Int) - delta.toInt ∧ (j : Int) - delta.toInt < k →
      (j.toInt64 - delta).toNatClampNeg = ((j : Int) - delta.toInt).toNat) :=
  ⟨Window.lands_iff hj hk delta, Window.toNatClampNeg_land hj hk⟩

theorem size_placeSlots : ∀ (js : List Nat) (next : Array (Option Nat)),
    (placeSlots memo k delta js next).size = next.size
  | [], _ => rfl
  | j :: js, next => by
    simp only [placeSlots]
    split
    · exact size_placeSlots js next
    · split
      · rw [size_placeSlots js _, Array.size_setIfInBounds]
      · exact size_placeSlots js next

theorem mem_droppedSlots (hk : k ≤ 2 ^ 62) {js : List Nat} (hjs : ∀ j ∈ js, j < k) {x : Nat} :
    some x ∈ droppedSlots memo k delta js ↔ ∃ j ∈ js, memo[j]? = some (some x) ∧
      ¬ (0 ≤ (j : Int) - delta.toInt ∧ (j : Int) - delta.toInt < k) := by
  simp only [droppedSlots, List.mem_map]
  constructor
  · rintro ⟨j, hj, hx⟩
    refine ⟨j, hj, ?_⟩
    rw [← (lands_toInt (hjs j hj) hk).1]
    rcases hmj : memo[j]? with _ | _ | mj <;> simp only [hmj, Option.getD_none,
      Option.getD_some] at hx
    · cases hx
    · cases hx
    · split at hx
      · cases hx
      · cases hx
        exact ⟨rfl, ‹_›⟩
  · rintro ⟨j, hj, hmj, hland⟩
    refine ⟨j, hj, ?_⟩
    rw [← (lands_toInt (hjs j hj) hk).1] at hland
    simp only [hmj, Option.getD_some, if_neg hland]

/-- A model in the new window comes from the slot of the old one that lands on its slot. -/
theorem placeSlots_origin (hk : k ≤ 2 ^ 62) : ∀ (js : List Nat) (next : Array (Option Nat)),
    (∀ j ∈ js, j < k) → ∀ (d x : Nat), (placeSlots memo k delta js next)[d]? = some (some x) →
      next[d]? = some (some x) ∨ ∃ j ∈ js, memo[j]? = some (some x) ∧ (j : Int) - delta.toInt = d
  | [], _, _, _, _, h => .inl h
  | j :: js, next, hjs, d, x, h => by
    have hrest : ∀ j ∈ js, j < k := fun j' hj' => hjs j' (List.mem_cons_of_mem _ hj')
    have weaken : ∀ {next' : Array (Option Nat)}, (next'[d]? = some (some x) ∨
        ∃ j ∈ js, memo[j]? = some (some x) ∧ (j : Int) - delta.toInt = d) →
        (next'[d]? = some (some x) ∨
          ∃ j' ∈ j :: js, memo[j']? = some (some x) ∧ (j' : Int) - delta.toInt = d) := by
      rintro next' (h | ⟨j', hj', hx⟩)
      · exact .inl h
      · exact .inr ⟨j', List.mem_cons_of_mem _ hj', hx⟩
    rcases hmj : memo[j]? with _ | _ | mj <;>
      simp only [placeSlots, hmj, Option.getD_none, Option.getD_some] at h
    · exact weaken (placeSlots_origin hk js next hrest d x h)
    · exact weaken (placeSlots_origin hk js next hrest d x h)
    · split at h
      · rename_i hland
        have hland' := (lands_toInt (hjs j (List.mem_cons_self ..)) hk).1.mp hland
        rw [(lands_toInt (hjs j (List.mem_cons_self ..)) hk).2 hland'] at h
        rcases placeSlots_origin hk js _ hrest d x h with h' | h'
        · rw [Array.getElem?_setIfInBounds] at h'
          split at h'
          · rename_i hd
            split at h'
            · cases h'
              exact .inr ⟨j, List.mem_cons_self .., hmj, by omega⟩
            · cases h'
          · exact .inl h'
        · exact weaken (.inr h')
      · exact weaken (placeSlots_origin hk js next hrest d x h)

/-- Slots that nothing lands on keep what `next` has there. -/
theorem placeSlots_frame (hk : k ≤ 2 ^ 62) : ∀ (js : List Nat) (next : Array (Option Nat)),
    (∀ j ∈ js, j < k) → ∀ d : Nat, (∀ j ∈ js, ∀ x, memo[j]? = some (some x) →
      0 ≤ (j : Int) - delta.toInt → (j : Int) - delta.toInt < k → (j : Int) - delta.toInt ≠ d) →
    (placeSlots memo k delta js next)[d]? = next[d]?
  | [], _, _, _, _ => rfl
  | j :: js, next, hjs, d, hd => by
    have hrest : ∀ j ∈ js, j < k := fun j' hj' => hjs j' (List.mem_cons_of_mem _ hj')
    have hdrest := fun j' hj' => hd j' (List.mem_cons_of_mem _ hj')
    rcases hmj : memo[j]? with _ | _ | mj <;>
      simp only [placeSlots, hmj, Option.getD_none, Option.getD_some]
    · exact placeSlots_frame hk js next hrest d hdrest
    · exact placeSlots_frame hk js next hrest d hdrest
    · split
      · rename_i hland
        have hland' := (lands_toInt (hjs j (List.mem_cons_self ..)) hk).1.mp hland
        rw [(lands_toInt (hjs j (List.mem_cons_self ..)) hk).2 hland',
          placeSlots_frame hk js _ hrest d hdrest, Array.getElem?_setIfInBounds,
          if_neg fun heq => hd j (List.mem_cons_self ..) mj hmj hland'.1 hland'.2 (by omega)]
      · exact placeSlots_frame hk js next hrest d hdrest

/-- A model whose slot lands inside the window is at its new slot, slots being distinct. -/
theorem placeSlots_placed (hk : k ≤ 2 ^ 62) : ∀ (js : List Nat) (next : Array (Option Nat)),
    (∀ j ∈ js, j < k) → js.Nodup → next.size = k → ∀ j ∈ js, ∀ x, memo[j]? = some (some x) →
      0 ≤ (j : Int) - delta.toInt → (j : Int) - delta.toInt < k →
      (placeSlots memo k delta js next)[((j : Int) - delta.toInt).toNat]? = some (some x)
  | [], _, _, _, _, _, hj, _, _, _, _ => absurd hj List.not_mem_nil
  | j₀ :: js, next, hjs, hnd, hsize, j, hj, x, hx, h0, hlt => by
    have hrest : ∀ j ∈ js, j < k := fun j' hj' => hjs j' (List.mem_cons_of_mem _ hj')
    have hnd' := (List.nodup_cons.mp hnd).2
    by_cases hj₀ : j₀ = j
    · -- the slot itself: placed now, and no later slot lands on the same one
      subst hj₀
      have hland : 0 ≤ j₀.toInt64 - delta ∧ j₀.toInt64 - delta < k.toInt64 :=
        (lands_toInt (hjs j₀ (List.mem_cons_self ..)) hk).1.mpr ⟨h0, hlt⟩
      simp only [placeSlots, hx, Option.getD_some, if_pos hland,
        (lands_toInt (hjs j₀ (List.mem_cons_self ..)) hk).2 ⟨h0, hlt⟩]
      rw [placeSlots_frame hk js _ hrest _ fun j' hj' _ _ _ _ heq => ?_]
      · simp [Array.getElem?_setIfInBounds, hsize]
        omega
      · have : j' = j₀ := by omega
        exact (List.nodup_cons.mp hnd).1 (this ▸ hj')
    · have hjr : j ∈ js := (List.mem_cons.mp hj).resolve_left (Ne.symm hj₀)
      rcases hmj : memo[j₀]? with _ | _ | mj <;>
        simp only [placeSlots, hmj, Option.getD_none, Option.getD_some]
      · exact placeSlots_placed hk js next hrest hnd' hsize j hjr x hx h0 hlt
      · exact placeSlots_placed hk js next hrest hnd' hsize j hjr x hx h0 hlt
      · split
        · exact placeSlots_placed hk js _ hrest hnd' (by rw [Array.size_setIfInBounds, hsize]) j hjr
            x hx h0 hlt
        · exact placeSlots_placed hk js next hrest hnd' hsize j hjr x hx h0 hlt

end Shift

/-- Sliding a window to hold record `i ≥ 0` keeps the invariant: every model moves to the slot of its
record and those that fall off are evicted, each once. Afterwards the window starts at a record
`≥ 0` and holds `i`. -/
theorem Kept.slide (hK : w.Kept Seen own) {s : Nat} {ms : ModelStore}
    (hs : w.modelStores[s]? = some ms) {i : Int64} (hi : 0 ≤ i.toInt) :
    ∃ w', (Workspace.slide s i).run w = .ok () w' ∧ w'.Kept Seen own ∧ w'.stores = w.stores ∧
      ∃ ms', w'.modelStores[s]? = some ms' ∧ ms' = { ms with memo := ms'.memo, first := ms'.first } ∧
        ms'.memo.size = ms.memo.size ∧ ms'.first.toInt ≤ i.toInt ∧
        i.toInt < ms'.first.toInt + ms'.memo.size := by
  have hW := hK.windows s ms hs
  cases hsh : shiftFor i ms.first ms.memo.size with
  | none =>
    -- `i` is already inside: nothing moves
    obtain ⟨hlo, hhi⟩ := Window.shiftFor_none hW.first_nonneg hW.size_le hsh
    refine ⟨w, ?_, hK, rfl, ms, hs, rfl, rfl, hlo, hhi⟩
    unfold Workspace.slide
    rw [run_bind_of_ok (run_modelStore s), hs, Option.getD_some]
    simp only [hsh]
    rfl
  | some delta =>
    obtain ⟨hfirst, hf0, hlo, hhi⟩ :=
      Window.shiftFor_some hi hW.first_nonneg hW.size_pos hW.size_le hsh
    have hk := hW.size_le
    have hrange : ∀ j ∈ List.range ms.memo.size, j < ms.memo.size := fun j hj => List.mem_range.mp hj
    obtain ⟨h', models', hrun, hev, hE⟩ :=
      evictAll_spec (droppedSlots ms.memo ms.memo.size delta (List.range ms.memo.size)) hK.exact
    let next := placeSlots ms.memo ms.memo.size delta (List.range ms.memo.size)
      (Array.replicate ms.memo.size none)
    have hsize : next.size = ms.memo.size := by
      rw [size_placeSlots, Array.size_replicate]
    -- a model of the new window comes from the slot of the old one its slot lands from
    have horigin : ∀ a x : Nat, next[a]? = some (some x) →
        ∃ j : Nat, ms.memo[j]? = some (some x) ∧ (j : Int) - delta.toInt = a := fun a x ha => by
      rcases placeSlots_origin hk _ _ hrange a x ha with h | ⟨j, -, hj, hja⟩
      · simp [Array.getElem?_replicate] at h
      · exact ⟨j, hj, hja⟩
    have hlt : ∀ {a x : Nat}, ms.memo[a]? = some (some x) → a < ms.memo.size := fun ha =>
      (Array.getElem?_eq_some_iff.mp ha).1
    refine ⟨_, ?_, hK.rewindow hs { ms with memo := next, first := ms.first + delta } hev hE
      ⟨hf0, by simpa [hsize] using hW.size_pos, by simpa [hsize] using hW.size_le,
        fun a x ha => ?_⟩ (fun a x ha => ?_) (fun a a' x ha ha' => ?_) (fun a x ha hnot => ?_)
        (fun x hx => ?_), rfl, _, getElem?_setIfInBounds_of hs _ s |>.trans (if_pos rfl), rfl,
        hsize, by omega, by simp only [hsize]; omega⟩
    · unfold Workspace.slide
      rw [run_bind_of_ok (run_modelStore s), hs, Option.getD_some]
      simp only [hsh]
      rw [run_bind_of_ok (by rw [shiftSlots_eq, run_bind_of_ok hrun]; rfl), run_setModelStore]
    · -- the model keeps its record: the slot moves by as much as the window's start
      obtain ⟨j, hj, hja⟩ := horigin a x ha
      obtain ⟨m, hm, hfill⟩ := hW.fills j x hj
      refine ⟨m, hm, ?_⟩
      have hidx : (ms.first + delta).toInt + a = ms.first.toInt + j := by omega
      simp only
      rw [hidx]
      exact hfill.congr rfl rfl rfl rfl
    · obtain ⟨j, hj, -⟩ := horigin a x ha
      exact ⟨j, hj⟩
    · obtain ⟨j, hj, hja⟩ := horigin a x ha
      obtain ⟨j', hj', hja'⟩ := horigin a' x ha'
      have := (hK.once s s ms ms j j' x hs hs hj hj').2
      omega
    · refine (mem_droppedSlots hk hrange).mpr ⟨a, List.mem_range.mpr (hlt ha), ha, fun hland => ?_⟩
      exact hnot _ (placeSlots_placed hk _ _ hrange List.nodup_range (by simp) a
        (List.mem_range.mpr (hlt ha)) x ha hland.1 hland.2)
    · obtain ⟨j, -, hj, hland⟩ := (mem_droppedSlots hk hrange).mp hx
      refine ⟨⟨j, hj⟩, fun a' ha' => ?_⟩
      obtain ⟨j', hj', hja'⟩ := horigin a' x ha'
      have := (hK.once s s ms ms j j' x hs hs hj hj').2
      have ha'lt : a' < next.size := (Array.getElem?_eq_some_iff.mp ha').1
      exact hland ⟨by omega, by omega⟩

end Workspace

end TreeArena
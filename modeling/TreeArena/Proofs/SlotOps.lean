import TreeArena.Proofs.Table

/-!
# The identifier table under the operations the pool issues

The pool changes its identifier table in three ways only (`SlotTable.Op`): it acquires the first
free slot cyclically from the hint and at once points it at the new record, it releases a slot,
and while records move it points the slot of a record that lives at the record's new position.
Over every sequence of such operations from a fresh table (`IssuedAll`), the live count stays the
number of slots that hold a position and the hint stays a slot (`Counted`, kept by each
operation in `Counted.step`).

The table's behaviour follows from that count (`Behaves`): an acquire succeeds exactly when fewer
slots are live than the table has, and takes the first free slot from the hint; so as many
acquires as the table has free slots all succeed, which a copy or a tree read from bytes relies
on when it acquires without looking at the answer. Releasing a free slot changes nothing, and an
identifier resolves exactly when it names a live slot in its current generation.

Main statement: `issued_tables_behave`.
-/

namespace TreeArena

namespace SlotTable

/-- A change the pool makes to its identifier table. -/
inductive Op where
  /-- Acquires the first free slot, if there is one, and points it at `pos`. -/
  | acquire (pos : Nat)
  /-- Releases slot `s`. -/
  | release (s : Nat)
  /-- Points slot `s` at `pos`, as records move. -/
  | set (s pos : Nat)
deriving DecidableEq, Repr

/-- The table after one operation; an acquire that finds no free slot changes nothing. -/
def step (t : SlotTable) : Op → SlotTable
  | .acquire pos =>
    match t.firstFree with
    | some s => (t.claim s).set s pos
    | none => t
  | .release s => t.release s
  | .set s pos => t.set s pos

/-- The table after operations in turn. -/
def steps (t : SlotTable) (ops : List Op) : SlotTable := ops.foldl step t

/-- The pool points a slot at a new position only while the slot is live. -/
def Issued (t : SlotTable) : Op → Prop
  | .set s _ => t.isFree s = false
  | _ => True

/-- Every operation of a sequence is issued on the table the ones before it left. -/
def IssuedAll : SlotTable → List Op → Prop
  | _, [] => True
  | t, op :: ops => t.Issued op ∧ (t.step op).IssuedAll ops

instance decidableIssued (t : SlotTable) : (op : Op) → Decidable (t.Issued op)
  | .acquire _ => isTrue trivial
  | .release _ => isTrue trivial
  | .set s _ => inferInstanceAs (Decidable (t.isFree s = false))

instance decidableIssuedAll : (t : SlotTable) → (ops : List Op) → Decidable (t.IssuedAll ops)
  | _, [] => isTrue trivial
  | t, op :: ops =>
    have := decidableIssuedAll (t.step op) ops
    inferInstanceAs (Decidable (t.Issued op ∧ (t.step op).IssuedAll ops))

theorem step_acquire_of_some {t : SlotTable} {s : Nat} (hs : t.firstFree = some s) (pos : Nat) :
    t.step (.acquire pos) = (t.claim s).set s pos := by
  simp [step, hs]

theorem step_acquire_of_none {t : SlotTable} (hs : t.firstFree = none) (pos : Nat) :
    t.step (.acquire pos) = t := by
  simp [step, hs]

@[simp] theorem step_release (t : SlotTable) (s : Nat) : t.step (.release s) = t.release s := rfl

@[simp] theorem step_set (t : SlotTable) (s pos : Nat) : t.step (.set s pos) = t.set s pos := rfl

@[simp] theorem steps_nil (t : SlotTable) : t.steps [] = t := rfl

@[simp] theorem steps_cons (t : SlotTable) (op : Op) (ops : List Op) :
    t.steps (op :: ops) = (t.step op).steps ops := rfl

/-! ### Counting live slots -/

/-- The live count is the number of slots that hold a position, and the hint is a slot. -/
structure Counted (t : SlotTable) : Prop where
  live_eq : t.live = t.positions.countP Option.isSome
  hint_lt : t.hint < t.size

theorem countP_range_isSome {α : Type} (l : List (Option α)) :
    (List.range l.length).countP (fun s => (l[s]?.getD none).isSome) = l.countP Option.isSome := by
  induction l with
  | nil => rfl
  | cons x l ih =>
    rw [List.length_cons, List.range_succ_eq_map, List.countP_cons, List.countP_map,
      List.countP_cons, ← ih]
    simp [Function.comp_def]

theorem length_liveSlots (t : SlotTable) :
    t.liveSlots.length = t.positions.countP Option.isSome := by
  rw [liveSlots, List.length_filterMap_eq_countP, ← Array.countP_toList, ← countP_range_isSome]
  simp [position, size]

theorem countP_setIfInBounds {α : Type} (p : α → Bool) (xs : Array α) {i : Nat} (h : i < xs.size)
    (a : α) : (xs.setIfInBounds i a).countP p =
      xs.countP p - (if p xs[i] then 1 else 0) + (if p a then 1 else 0) := by
  rw [Array.setIfInBounds, dif_pos h, Array.countP_set]

@[simp] theorem hint_release (t : SlotTable) (s : Nat) : (t.release s).hint = t.hint := by
  unfold SlotTable.release
  split <;> rfl

theorem position_eq_getElem {t : SlotTable} {s : Nat} (hs : s < t.positions.size) :
    t.position s = t.positions[s] := by
  simp [position, hs]

namespace Counted

variable {t : SlotTable}

theorem size_pos (h : t.Counted) : 0 < t.size := Nat.lt_of_le_of_lt (Nat.zero_le _) h.hint_lt

theorem live_le (h : t.Counted) : t.live ≤ t.size := by
  rw [h.live_eq]
  exact Array.countP_le_size

/-- While fewer slots are live than the table has, one of them is free. -/
theorem exists_free (h : t.Counted) (hlt : t.live < t.size) :
    ∃ s, s < t.size ∧ t.isFree s = true := by
  rw [h.live_eq] at hlt
  have hne : ¬ ∀ a ∈ t.positions, a.isSome = true := fun hall =>
    absurd (Array.countP_eq_size.mpr hall) (by unfold size at hlt; omega)
  simp only [not_forall, Array.mem_iff_getElem] at hne
  obtain ⟨a, ⟨s, hs, rfl⟩, hnone⟩ := hne
  refine ⟨s, hs, ?_⟩
  rw [isFree, position_eq_getElem hs]
  simpa using hnone

/-- Claiming a free slot and pointing it at a position adds one live slot and keeps the hint a
slot. -/
theorem claim_set (h : t.Counted) {s : Nat} (hs : s < t.size) (hfree : t.isFree s = true)
    (pos : Nat) : ((t.claim s).set s pos).Counted := by
  have hnone : t.positions[s] = none := by
    rw [← position_eq_getElem hs]
    simpa [isFree] using hfree
  constructor
  · simp only [SlotTable.set, claim]
    rw [countP_setIfInBounds _ _ (by rw [Array.size_setIfInBounds]; exact hs),
      countP_setIfInBounds _ _ hs]
    simp [hnone, h.live_eq]
  · show (s + 1) % t.size < ((t.claim s).set s pos).size
    rw [size_set, size_claim]
    exact Nat.mod_lt _ h.size_pos

theorem set (h : t.Counted) {s : Nat} (hlive : t.isFree s = false) (pos : Nat) :
    (t.set s pos).Counted := by
  have hs : s < t.size := by
    cases hp : t.position s with
    | none => simp [isFree, hp] at hlive
    | some i => exact position_lt hp
  have hsome : t.positions[s].isSome = true := by
    rw [← position_eq_getElem hs]
    simpa [isFree] using hlive
  constructor
  · simp only [SlotTable.set]
    rw [countP_setIfInBounds _ _ hs]
    simp [hsome, h.live_eq]
    have : 0 < t.positions.countP Option.isSome :=
      Array.countP_pos_iff.mpr ⟨_, Array.getElem_mem hs, hsome⟩
    omega
  · simpa using h.hint_lt

theorem release (h : t.Counted) (s : Nat) : (t.release s).Counted := by
  by_cases hfree : t.isFree s = true
  · rwa [SlotTable.release, if_pos hfree]
  · have hs : s < t.size := by
      cases hp : t.position s with
      | none => simp [isFree, hp] at hfree
      | some i => exact position_lt hp
    have hsome : t.positions[s].isSome = true := by
      rw [← position_eq_getElem hs]
      simpa [isFree, Option.isSome_iff_ne_none] using hfree
    have hpos : 0 < t.positions.countP Option.isSome :=
      Array.countP_pos_iff.mpr ⟨_, Array.getElem_mem hs, hsome⟩
    constructor
    · rw [SlotTable.release, if_neg hfree]
      simp only
      rw [countP_setIfInBounds _ _ hs]
      simp [hsome, h.live_eq]
    · rw [hint_release, size_release]
      exact h.hint_lt

theorem live_lt_of_free (h : t.Counted) {s : Nat} (hs : s < t.size) (hfree : t.isFree s = true) :
    t.live < t.size := by
  have hnone : t.positions[s].isSome = false := by
    rw [← position_eq_getElem hs]
    simpa [isFree] using hfree
  have hne : t.positions.countP Option.isSome ≠ t.positions.size := fun heq =>
    absurd (Array.countP_eq_size.mp heq _ (Array.getElem_mem hs)) (by simp [hnone])
  have := h.live_le
  rw [h.live_eq] at this ⊢
  exact Nat.lt_of_le_of_ne this hne

theorem firstFree_spec (h : t.Counted) {s : Nat} (hs : t.firstFree = some s) :
    s < t.size ∧ t.isFree s = true := by
  unfold firstFree at hs
  split at hs
  · cases hs
  · obtain ⟨j, rfl⟩ := scan_eq_mod t _ _ _ hs
    exact ⟨Nat.mod_lt _ h.size_pos, isFree_of_scan t _ _ _ hs⟩

/-- Every operation the pool issues keeps the count. -/
theorem step (h : t.Counted) {op : Op} (hop : t.Issued op) : (t.step op).Counted := by
  cases op with
  | acquire pos =>
    cases hs : t.firstFree with
    | none => rwa [step_acquire_of_none hs]
    | some s =>
      obtain ⟨hlt, hfree⟩ := h.firstFree_spec hs
      rw [step_acquire_of_some hs]
      exact h.claim_set hlt hfree pos
  | release s => exact h.release s
  | set s pos => exact h.set hop pos

theorem steps (h : t.Counted) {ops : List Op} (hops : t.IssuedAll ops) : (t.steps ops).Counted := by
  induction ops generalizing t with
  | nil => exact h
  | cons op ops ih => exact ih (h.step hops.1) hops.2

end Counted

/-- A fresh table of at least one slot counts no live slot, and its hint is the first slot. -/
theorem counted_empty {n : Nat} (hn : 0 < n) : (empty n).Counted where
  live_eq := by simp [empty, Array.countP_replicate]
  hint_lt := by
    show 0 < (empty n).size
    simpa using hn

/-! ### Acquiring -/

/-- `s` is the first free slot met scanning the slots cyclically from the hint. -/
def FirstFree (t : SlotTable) (s : Nat) : Prop :=
  ∃ j, j < t.size ∧ s = (t.hint + j) % t.size ∧ t.isFree s = true ∧
    ∀ k, k < j → t.isFree ((t.hint + k) % t.size) = false

/-- The scan from `hint + i` returns the first free slot among the `fuel` it visits. -/
theorem scan_eq_some {t : SlotTable} : ∀ {fuel i s : Nat}, t.scan fuel i = some s →
    ∃ j, i ≤ j ∧ j < i + fuel ∧ s = (t.hint + j) % t.size ∧ t.isFree s = true ∧
      ∀ k, i ≤ k → k < j → t.isFree ((t.hint + k) % t.size) = false
  | 0, _, _, h => by simp [scan] at h
  | fuel + 1, i, s, h => by
    rw [scan] at h
    split at h
    · rename_i hfree
      cases h
      exact ⟨i, Nat.le_refl _, by omega, rfl, hfree, fun k h1 h2 => absurd h2 (by omega)⟩
    · rename_i hbusy
      obtain ⟨j, h1, h2, rfl, hfree, hfirst⟩ := scan_eq_some h
      refine ⟨j, by omega, by omega, rfl, hfree, fun k hk hkj => ?_⟩
      by_cases hki : k = i
      · subst hki
        simpa using hbusy
      · exact hfirst k (by omega) hkj

theorem FirstFree.unique {t : SlotTable} {s s' : Nat} (h : t.FirstFree s) (h' : t.FirstFree s') :
    s = s' := by
  obtain ⟨j, -, rfl, hfree, hfirst⟩ := h
  obtain ⟨j', -, rfl, hfree', hfirst'⟩ := h'
  rcases Nat.lt_trichotomy j j' with hlt | rfl | hlt
  · rw [hfirst' j hlt] at hfree
    cases hfree
  · rfl
  · rw [hfirst j' hlt] at hfree'
    cases hfree'

theorem firstFree_first {t : SlotTable} {s : Nat} (hs : t.firstFree = some s) : t.FirstFree s := by
  unfold firstFree at hs
  split at hs
  · cases hs
  · obtain ⟨j, -, hj, rfl, hfree, hfirst⟩ := scan_eq_some hs
    exact ⟨j, by omega, rfl, hfree, fun k hk => hfirst k (Nat.zero_le _) hk⟩

namespace Counted

variable {t : SlotTable}

/-- On a counted table, `firstFree` finds exactly the first free slot from the hint. -/
theorem firstFree_eq_some_iff (h : t.Counted) {s : Nat} : t.firstFree = some s ↔ t.FirstFree s := by
  refine ⟨firstFree_first, fun hfirst => ?_⟩
  obtain ⟨j, hj, hsj, hfree, -⟩ := id hfirst
  have hlt := h.live_lt_of_free (hsj ▸ Nat.mod_lt _ h.size_pos) hfree
  -- the scan finds some slot, and the slot it finds is first from the hint as `s` is
  obtain ⟨s', hs'⟩ := Option.isSome_iff_exists.mp
    (isSome_scan t t.size 0 j hj (by rw [Nat.zero_add, ← hsj]; exact hfree))
  have hff : t.firstFree = some s' := by rw [firstFree, if_neg (by omega), hs']
  rw [hff, FirstFree.unique (firstFree_first hff) hfirst]

/-- An acquire succeeds exactly when fewer slots are live than the table has. -/
theorem acquire_isSome_iff (h : t.Counted) : t.acquire.isSome ↔ t.live < t.size := by
  constructor
  · intro hsome
    have hne := acquire_isSome_imp t hsome
    have := h.live_le
    omega
  · intro hlt
    obtain ⟨s₀, hs₀, hfree₀⟩ := h.exists_free hlt
    obtain ⟨j, hj, hjs⟩ := exists_offset t.hint s₀ t.size h.size_pos hs₀
    have hscan := isSome_scan t t.size 0 j hj (by rw [Nat.zero_add, hjs]; exact hfree₀)
    simpa [acquire, firstFree, Nat.ne_of_lt hlt] using hscan

/-- An acquire takes the first free slot from the hint, marks it live at position zero and moves
the hint past it. -/
theorem acquire_eq_some_iff (h : t.Counted) {s : Nat} {t' : SlotTable} :
    t.acquire = some (s, t') ↔ t.FirstFree s ∧ t' = t.claim s := by
  rw [acquire, Option.map_eq_some_iff]
  constructor
  · rintro ⟨s', hs', heq⟩
    obtain ⟨rfl, rfl⟩ := Prod.mk.inj heq
    exact ⟨h.firstFree_eq_some_iff.mp hs', rfl⟩
  · rintro ⟨hfirst, rfl⟩
    exact ⟨s, h.firstFree_eq_some_iff.mpr hfirst, rfl⟩

end Counted

/-- Acquiring a slot for each position in turn, each pointed at its position at once, finds a
free slot every time. -/
def AcquiresEach : SlotTable → List Nat → Prop
  | _, [] => True
  | t, pos :: ps => ∃ s t', t.acquire = some (s, t') ∧ (t'.set s pos).AcquiresEach ps

/-- As many acquires as the table has free slots all succeed: a copy or a tree read from bytes
that checked the free slots first may acquire without looking at the answer. -/
theorem Counted.acquiresEach {t : SlotTable} (h : t.Counted) {ps : List Nat}
    (hps : ps.length ≤ t.free) : t.AcquiresEach ps := by
  induction ps generalizing t with
  | nil => trivial
  | cons pos ps ih =>
    have hle := h.live_le
    have hlt : t.live < t.size := by unfold free at hps; simp at hps; omega
    obtain ⟨⟨s, t'⟩, hs⟩ := Option.isSome_iff_exists.mp (h.acquire_isSome_iff.mpr hlt)
    obtain ⟨hfirst, rfl⟩ := h.acquire_eq_some_iff.mp hs
    obtain ⟨j, -, hsj, hfree, -⟩ := id hfirst
    have hslt : s < t.size := hsj ▸ Nat.mod_lt _ h.size_pos
    refine ⟨s, t.claim s, hs, ih (h.claim_set hslt hfree pos) ?_⟩
    unfold free at hps ⊢
    simp at hps ⊢
    omega

theorem release_of_isFree {t : SlotTable} {s : Nat} (hfree : t.isFree s = true) : t.release s = t := by
  rw [SlotTable.release, if_pos hfree]

/-! ### The table the pool works on -/

/-- How a table the pool has worked on behaves. -/
structure Behaves (t : SlotTable) : Prop where
  /-- The live count is the number of slots that hold a position. -/
  live_eq : t.live = t.liveSlots.length
  hint_lt : t.hint < t.size
  acquire_isSome_iff : t.acquire.isSome ↔ t.live < t.size
  acquire_eq_some_iff : ∀ s t', t.acquire = some (s, t') ↔ t.FirstFree s ∧ t' = t.claim s
  acquiresEach : ∀ ps : List Nat, ps.length ≤ t.free → t.AcquiresEach ps
  release_free : ∀ s, t.isFree s = true → t.release s = t
  resolve_isSome_iff : ∀ id, (t.resolve id).isSome ↔
    id ≠ NodeId.none ∧ id.slot < t.size ∧ t.isFree id.slot = false ∧
      t.generation id.slot = id.generation

theorem Counted.behaves {t : SlotTable} (h : t.Counted) : t.Behaves where
  live_eq := h.live_eq.trans (length_liveSlots t).symm
  hint_lt := h.hint_lt
  acquire_isSome_iff := h.acquire_isSome_iff
  acquire_eq_some_iff _ _ := h.acquire_eq_some_iff
  acquiresEach _ hps := h.acquiresEach hps
  release_free _ := release_of_isFree
  resolve_isSome_iff id := by
    rw [resolve_isSome_iff]
    tauto

/-- Every table the pool reaches from a fresh one by the operations it issues behaves so. -/
theorem issued_tables_behave {n : Nat} (hn : 0 < n) {ops : List Op}
    (hops : (empty n).IssuedAll ops) : ((empty n).steps ops).Behaves :=
  ((counted_empty hn).steps hops).behaves

/-- Three slots acquired, the middle one released and acquired again, and a live slot pointed
elsewhere. -/
theorem three_slot_table_behaves :
    0 < 3 ∧ (empty 3).IssuedAll [.acquire 0, .acquire 10, .acquire 20, .release 1, .acquire 0,
        .set 1 30] ∧
      ((empty 3).steps [.acquire 0, .acquire 10, .acquire 20, .release 1, .acquire 0,
        .set 1 30]).Behaves :=
  ⟨by decide, by decide, issued_tables_behave (by decide) (by decide)⟩

end SlotTable

end TreeArena

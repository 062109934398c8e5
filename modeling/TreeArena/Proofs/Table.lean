import Mathlib.Data.List.Nodup
import Mathlib.Data.List.Perm.Subperm
import TreeArena.Pool.Basic

/-!
# The identifier table locates the records

`SlotTable.Locates t l` says that the table `t` maps the slot of every record of `l` to the
record's position, maps no other slot to a position, and counts the records as live. Every edit
keeps it by rewriting the entries of the records it moved (`Pool.reindexNodes`), and each kind of
edit has its lemma here: records rearranged inside a range (`locates_reindex_of_perm`), one record
cut out after its slot was freed (`locates_reindex_erase`), one record appended in a slot just
claimed (`locates_push`).

Located slots are distinct (`Locates.slot_inj`), so there are never more records than slots, and
while there are fewer a free slot is always found (`firstFree_eq_some`).
-/

namespace TreeArena

namespace SlotTable

/-! ### Table updates -/

theorem position_lt {t : SlotTable} {s i : Nat} (h : t.position s = some i) : s < t.size := by
  unfold position at h
  by_contra hs
  rw [Array.getElem?_eq_none (by unfold size at hs; omega)] at h
  cases h

theorem position_eq_none_of_le {t : SlotTable} {s : Nat} (h : t.size ≤ s) : t.position s = none := by
  cases hp : t.position s with
  | none => rfl
  | some i => have := position_lt hp; omega

@[simp] theorem size_empty (n : Nat) : (empty n).size = n := by
  simp [empty, size]

@[simp] theorem position_empty (n s : Nat) : (empty n).position s = none := by
  simp only [empty, position]
  by_cases hs : s < n <;> simp [hs]

@[simp] theorem generation_empty (n s : Nat) : (empty n).generation s = 0 := by
  simp only [empty, generation]
  by_cases hs : s < n <;> simp [hs]

@[simp] theorem size_set (t : SlotTable) (s p : Nat) : (t.set s p).size = t.size := by
  simp [set, size]

@[simp] theorem live_set (t : SlotTable) (s p : Nat) : (t.set s p).live = t.live := rfl

@[simp] theorem generations_set (t : SlotTable) (s p : Nat) :
    (t.set s p).generations = t.generations := rfl

@[simp] theorem hint_set (t : SlotTable) (s p : Nat) : (t.set s p).hint = t.hint := rfl

theorem position_set (t : SlotTable) (s p s' : Nat) :
    (t.set s p).position s' = if s = s' ∧ s < t.size then some p else t.position s' := by
  unfold set position size
  rw [Array.getElem?_setIfInBounds]
  by_cases h : s = s'
  · subst h
    by_cases hs : s < t.positions.size
    · simp [hs]
    · simp [hs]
  · simp [h]

@[simp] theorem size_claim (t : SlotTable) (s : Nat) : (t.claim s).size = t.size := by
  simp [claim, size]

@[simp] theorem live_claim (t : SlotTable) (s : Nat) : (t.claim s).live = t.live + 1 := rfl

@[simp] theorem generations_claim (t : SlotTable) (s : Nat) :
    (t.claim s).generations = t.generations := rfl

theorem position_claim (t : SlotTable) (s s' : Nat) :
    (t.claim s).position s' = if s = s' ∧ s < t.size then some 0 else t.position s' := by
  have := position_set t s 0 s'
  unfold set at this
  exact this

theorem position_claim_set (t : SlotTable) (s p s' : Nat) :
    ((t.claim s).set s p).position s' = if s = s' ∧ s < t.size then some p else t.position s' := by
  rw [position_set, position_claim, size_claim]
  by_cases h : s = s' ∧ s < t.size
  · obtain ⟨rfl, hs⟩ := h
    simp [hs]
  · simp only [h, if_false]

@[simp] theorem size_release (t : SlotTable) (s : Nat) : (t.release s).size = t.size := by
  unfold release
  split
  · rfl
  · simp [size]

theorem position_release (t : SlotTable) (s s' : Nat) :
    (t.release s).position s' = if s = s' then none else t.position s' := by
  by_cases hfree : t.isFree s = true
  · rw [release, if_pos hfree]
    by_cases h : s = s'
    · subst h
      simp only [isFree, Option.isNone_iff_eq_none] at hfree
      simp [hfree]
    · simp [h]
  · rw [release, if_neg hfree]
    unfold position
    simp only [Array.getElem?_setIfInBounds]
    by_cases h : s = s'
    · subst h
      by_cases hs : s < t.positions.size <;> simp [hs]
    · simp [h]

theorem live_release (t : SlotTable) (s : Nat) :
    (t.release s).live = if t.isFree s then t.live else t.live - 1 := by
  unfold release
  split <;> simp_all

/-- Freeing a slot in use bumps its generation, wrapping at `halfWord`. -/
theorem generation_release {t : SlotTable} (hg : t.generations.size = t.size) (s s' : Nat) :
    (t.release s).generation s' =
      if s = s' ∧ t.isFree s = false then (t.generation s + 1) % halfWord
      else t.generation s' := by
  by_cases hf : t.isFree s = true
  · simp [release, hf]
  · rw [release, if_neg hf]
    have hlt : s < t.generations.size := by
      cases hp : t.position s with
      | none => simp [isFree, hp] at hf
      | some i => rw [hg]; exact position_lt hp
    unfold generation
    simp only [Array.getElem?_modify]
    by_cases h : s = s'
    · subst h
      simp [hf, Array.getElem?_eq_getElem hlt]
    · simp [h]

@[simp] theorem generations_size_release (t : SlotTable) (s : Nat) :
    (t.release s).generations.size = t.generations.size := by
  unfold release
  split <;> simp

/-! ### Rewriting the entries of a range -/

end SlotTable

namespace Pool

open SlotTable

/-- Rewriting the entries of a range only sets entries, so it keeps whatever setting one keeps. -/
theorem reindexNodes_frame {β : Type} (f : SlotTable → β) (hf : ∀ t s i, f (t.set s i) = f t)
    (a : Arena) (t : SlotTable) (pos n : Nat) : f (reindexNodes a t pos n) = f t := by
  induction n generalizing t pos with
  | zero => rfl
  | succ n ih =>
    rw [reindexNodes, ih]
    split
    · exact hf ..
    · rfl

@[simp] theorem size_reindexNodes (a : Arena) (t : SlotTable) (pos n : Nat) :
    (reindexNodes a t pos n).size = t.size :=
  reindexNodes_frame SlotTable.size size_set a t pos n

@[simp] theorem live_reindexNodes (a : Arena) (t : SlotTable) (pos n : Nat) :
    (reindexNodes a t pos n).live = t.live :=
  reindexNodes_frame SlotTable.live live_set a t pos n

@[simp] theorem generations_reindexNodes (a : Arena) (t : SlotTable) (pos n : Nat) :
    (reindexNodes a t pos n).generations = t.generations :=
  reindexNodes_frame SlotTable.generations generations_set a t pos n

@[simp] theorem hint_reindexNodes (a : Arena) (t : SlotTable) (pos n : Nat) :
    (reindexNodes a t pos n).hint = t.hint :=
  reindexNodes_frame SlotTable.hint hint_set a t pos n

/-- A slot that no record of the range carries keeps its entry. -/
theorem position_reindexNodes_of_forall_ne (a : Arena) (s : Nat) :
    ∀ (t : SlotTable) (pos n : Nat), (∀ j (h : j < a.size), pos ≤ j → j < pos + n → a[j].slot ≠ s) →
      (reindexNodes a t pos n).position s = t.position s := by
  intro t pos n
  induction n generalizing t pos with
  | zero => intro _; rfl
  | succ n ih =>
    intro hne
    rw [reindexNodes, ih _ _ (fun j h h1 h2 => hne j h (by omega) (by omega))]
    split
    · rename_i nd hnd
      obtain ⟨hp, rfl⟩ := Array.getElem?_eq_some_iff.mp hnd
      rw [position_set, if_neg (fun h => hne pos hp (by omega) (by omega) h.1)]
    · rfl

/-- A record of the range whose slot no other record of the range carries gets its position. -/
theorem position_reindexNodes_of_mem (a : Arena) {j : Nat} (hj : j < a.size) :
    ∀ (t : SlotTable) (pos n : Nat), pos ≤ j → j < pos + n → a[j].slot < t.size →
      (∀ j' (h : j' < a.size), pos ≤ j' → j' < pos + n → a[j'].slot = a[j].slot → j' = j) →
      (reindexNodes a t pos n).position a[j].slot = some j := by
  intro t pos n
  induction n generalizing t pos with
  | zero => intro _ h; omega
  | succ n ih =>
    intro h1 h2 hs huniq
    rw [reindexNodes]
    by_cases hjp : j = pos
    · -- the record itself is rewritten first, and no later record of the range touches its slot
      subst hjp
      rw [position_reindexNodes_of_forall_ne a _ _ _ _
        (fun j' h h1' h2' heq => by have := huniq j' h (by omega) (by omega) heq; omega)]
      rw [Array.getElem?_eq_getElem hj]
      simp [position_set, hs]
    · exact ih _ _ (by omega) (by omega) (by split <;> simpa using hs)
        (fun j' h h1' h2' heq => huniq j' h (by omega) (by omega) heq)

end Pool

namespace SlotTable

/-! ### Located records -/

/-- The table locates the records of `l`: every record's slot holds the record's position, a
slot holds a position only for the record there, and the live count is the number of records. -/
structure Locates (t : SlotTable) (l : List Node) : Prop where
  position_slot : ∀ (i : Nat) (h : i < l.length), t.position l[i].slot = some i
  slot_position : ∀ {s i : Nat}, t.position s = some i → ∃ h : i < l.length, l[i].slot = s
  live_eq : t.live = l.length

namespace Locates

variable {t : SlotTable} {l : List Node}

theorem empty (n : Nat) : (SlotTable.empty n).Locates [] :=
  ⟨fun _ hi => absurd hi (Nat.not_lt_zero _), fun hp => by simp at hp, rfl⟩

theorem slot_lt (h : t.Locates l) (i : Nat) (hi : i < l.length) : l[i].slot < t.size :=
  position_lt (h.position_slot i hi)

theorem slot_inj (h : t.Locates l) {i j : Nat} (hi : i < l.length) (hj : j < l.length)
    (heq : l[i].slot = l[j].slot) : i = j := by
  have h1 := h.position_slot i hi
  rw [heq, h.position_slot j hj] at h1
  exact (Option.some.inj h1).symm

theorem nodup (h : t.Locates l) : (l.map Node.slot).Nodup := by
  rw [List.Nodup, List.pairwise_iff_getElem]
  intro i j hi hj hij heq
  simp only [List.getElem_map] at heq
  have := h.slot_inj (by simpa using hi) (by simpa using hj) heq
  omega

theorem position_of_mem (h : t.Locates l) {nd : Node} (hnd : nd ∈ l) :
    ∃ i, ∃ hi : i < l.length, l[i] = nd ∧ t.position nd.slot = some i := by
  obtain ⟨i, hi, rfl⟩ := List.getElem_of_mem hnd
  exact ⟨i, hi, rfl, h.position_slot i hi⟩

theorem isFree_iff (h : t.Locates l) (s : Nat) : t.isFree s = true ↔ ∀ nd ∈ l, nd.slot ≠ s := by
  unfold isFree
  constructor
  · intro hfree nd hnd hs
    obtain ⟨i, hi, rfl, hp⟩ := h.position_of_mem hnd
    rw [hs] at hp
    simp [hp] at hfree
  · intro hne
    cases hp : t.position s with
    | none => rfl
    | some i =>
      obtain ⟨hi, hs⟩ := h.slot_position hp
      exact absurd hs (hne _ (List.getElem_mem hi))

theorem length_le (h : t.Locates l) : l.length ≤ t.size := by
  have hsub : l.map Node.slot ⊆ List.range t.size := by
    intro s hs
    obtain ⟨nd, hnd, rfl⟩ := List.mem_map.mp hs
    obtain ⟨i, hi, rfl, _⟩ := h.position_of_mem hnd
    exact List.mem_range.mpr (h.slot_lt i hi)
  simpa using (h.nodup.subperm hsub).length_le

theorem exists_free (h : t.Locates l) (hlt : l.length < t.size) :
    ∃ s, s < t.size ∧ t.isFree s = true := by
  by_contra hall
  have hsub : List.range t.size ⊆ l.map Node.slot := by
    intro s hs
    have hs := List.mem_range.mp hs
    have hnf : ¬ t.isFree s = true := fun hf => hall ⟨s, hs, hf⟩
    rw [h.isFree_iff] at hnf
    simp only [not_forall, not_not] at hnf
    obtain ⟨nd, hnd, rfl⟩ := hnf
    exact List.mem_map.mpr ⟨nd, hnd, rfl⟩
  have := (List.nodup_range.subperm hsub).length_le
  simp at this
  omega

theorem of_map_slot_eq (h : t.Locates l) {l' : List Node} (heq : l'.map Node.slot = l.map Node.slot) :
    t.Locates l' := by
  have hlen : l'.length = l.length := by simpa using congrArg List.length heq
  have hslot : ∀ i (hi : i < l'.length), l'[i].slot = l[i].slot := by
    intro i hi
    have := congrArg (fun m => m[i]?) heq
    simpa [hi, hlen ▸ hi] using this
  refine ⟨fun i hi => ?_, fun hp => ?_, by rw [h.live_eq, hlen]⟩
  · rw [hslot i hi]
    exact h.position_slot i (hlen ▸ hi)
  · obtain ⟨hi, hs⟩ := h.slot_position hp
    exact ⟨hlen ▸ hi, by rw [hslot _ (hlen ▸ hi), hs]⟩

theorem push (h : t.Locates l) {s : Nat} (hfree : t.isFree s = true) (hs : s < t.size)
    {nd : Node} (hnd : nd.slot = s) : ((t.claim s).set s l.length).Locates (l ++ [nd]) := by
  rw [h.isFree_iff] at hfree
  refine ⟨fun i hi => ?_, fun {s' i} hp => ?_, by simp [h.live_eq]⟩
  · rw [position_claim_set]
    by_cases hil : i < l.length
    · rw [List.getElem_append_left hil]
      rw [if_neg (fun h' => hfree _ (List.getElem_mem hil) h'.1.symm)]
      exact h.position_slot i hil
    · have hi' : i = l.length := by simp at hi; omega
      subst hi'
      simp [hnd, hs]
  · rw [position_claim_set] at hp
    split at hp
    · rename_i hss
      cases hp
      exact ⟨by simp, by simp [hnd, hss.1]⟩
    · obtain ⟨hi, hs'⟩ := h.slot_position hp
      exact ⟨by simp; omega, by rw [List.getElem_append_left hi]; exact hs'⟩

end Locates

open Pool

/-- Records rearranged inside the range `[lo, hi)`, every record outside it staying in place, are
located again once the entries of the range are rewritten. -/
theorem locates_reindex_of_perm {t : SlotTable} {l l' : List Node} (h : t.Locates l)
    (hperm : l'.Perm l) {lo hi : Nat}
    (hout : ∀ i (h₁ : i < l'.length) (h₂ : i < l.length), (i < lo ∨ hi ≤ i) → l'[i] = l[i])
    {a : Arena} (ha : a.toList = l') : (reindexNodes a t lo (hi - lo)).Locates l' := by
  have hlen : l'.length = l.length := hperm.length_eq
  have hnd' : (l'.map Node.slot).Nodup := (hperm.map Node.slot).nodup_iff.mpr h.nodup
  have hsize : a.size = l'.length := by rw [← ha]; simp
  have hget : ∀ j (hj : j < a.size), a[j] = getElem l' j (hsize ▸ hj) := by
    intro j hj
    simp only [← Array.getElem_toList, ha]
  have hinj : ∀ i j (hi : i < l'.length) (hj : j < l'.length), l'[i].slot = l'[j].slot → i = j := by
    intro i j hi hj heq
    rw [List.Nodup, List.pairwise_iff_getElem] at hnd'
    by_contra hne
    rcases Nat.lt_or_gt_of_ne hne with hlt | hlt
    · exact hnd' i j (by simpa using hi) (by simpa using hj) hlt (by simpa using heq)
    · exact hnd' j i (by simpa using hj) (by simpa using hi) hlt (by simpa using heq.symm)
  have hslt : ∀ nd ∈ l', nd.slot < t.size := by
    intro nd hnd
    obtain ⟨i, hi, rfl, _⟩ := h.position_of_mem (hperm.subset hnd)
    exact h.slot_lt i hi
  -- a slot carried by a record of the range gets that record's position
  have hmid : ∀ j (hj : j < l'.length), lo ≤ j → j < hi →
      (reindexNodes a t lo (hi - lo)).position l'[j].slot = some j := by
    intro j hj h1 h2
    have := position_reindexNodes_of_mem a (hsize ▸ hj) t lo (hi - lo) h1 (by omega)
      (by rw [hget]; exact hslt _ (List.getElem_mem hj))
      (fun j' h h1' h2' heq => by
        rw [hget, hget] at heq
        exact hinj _ _ _ _ heq)
    simpa [hget] using this
  -- any other slot keeps its entry
  have hrest : ∀ s, (∀ j (hj : j < l'.length), lo ≤ j → j < hi → l'[j].slot ≠ s) →
      (reindexNodes a t lo (hi - lo)).position s = t.position s := by
    intro s hne
    exact position_reindexNodes_of_forall_ne a s t lo (hi - lo)
      (fun j hj h1 h2 => by rw [hget]; exact hne j _ h1 (by omega))
  refine ⟨fun i hi' => ?_, fun {s i} hp => ?_, by simp [h.live_eq, hlen]⟩
  · by_cases hin : lo ≤ i ∧ i < hi
    · exact hmid i hi' hin.1 hin.2
    · rw [hrest _ (fun j hj h1 h2 heq => by have := hinj _ _ hj hi' heq; omega),
        hout i hi' (hlen ▸ hi') (by omega)]
      exact h.position_slot i (hlen ▸ hi')
  · by_cases hs : ∃ j, ∃ hj : j < l'.length, lo ≤ j ∧ j < hi ∧ l'[j].slot = s
    · obtain ⟨j, hj, h1, h2, rfl⟩ := hs
      rw [hmid j hj h1 h2] at hp
      cases hp
      exact ⟨hj, rfl⟩
    · rw [hrest s (fun j hj h1 h2 heq => hs ⟨j, hj, h1, h2, heq⟩)] at hp
      obtain ⟨hil, hslot⟩ := h.slot_position hp
      by_cases hin : lo ≤ i ∧ i < hi
      · -- the record that carried `s` moved within the range, where `s` would have been rewritten
        exfalso
        have hmem : s ∈ l'.map Node.slot :=
          (hperm.map Node.slot).symm.subset (List.mem_map.mpr ⟨_, List.getElem_mem hil, hslot⟩)
        obtain ⟨nd, hnd, rfl⟩ := List.mem_map.mp hmem
        obtain ⟨k, hk, hkeq⟩ := List.getElem_of_mem hnd
        by_cases hkin : lo ≤ k ∧ k < hi
        · exact hs ⟨k, hk, hkin.1, hkin.2, by rw [hkeq]⟩
        · have := hout k hk (hlen ▸ hk) (by omega)
          rw [hkeq] at this
          rw [this] at hslot
          have := h.slot_inj hil (hlen ▸ hk) hslot
          omega
      · exact ⟨hlen ▸ hil, by rw [hout i (hlen ▸ hil) hil (by omega)]; exact hslot⟩

/-- Cutting out a record whose slot was freed, the records after it closing the gap, keeps the
records located once the entries from the cut on are rewritten. -/
theorem locates_reindex_erase {t : SlotTable} {A Z : List Node} {x : Node}
    (h : t.Locates (A ++ x :: Z)) {a : Arena} (ha : a.toList = A ++ Z) :
    (reindexNodes a (t.release x.slot) A.length Z.length).Locates (A ++ Z) := by
  have hsize : a.size = A.length + Z.length := by rw [← Array.length_toList, ha]; simp
  have hget : ∀ j (hj : j < a.size), a[j] = getElem (A ++ Z) j (by simp; omega) := by
    intro j hj
    simp only [← Array.getElem_toList, ha]
  -- positions in the old list: `A` stays, `Z` is one further on
  have hA : ∀ i (hi : i < A.length), getElem (A ++ x :: Z) i (by simp; omega) = A[i] := by
    intro i hi; simp [List.getElem_append_left hi]
  have hZ : ∀ i (hi : i < Z.length),
      getElem (A ++ x :: Z) (A.length + 1 + i) (by simp; omega) = Z[i] := by
    intro i hi
    rw [List.getElem_append_right (by omega)]
    simp [show A.length + 1 + i - A.length = i + 1 by omega]
  have hx : getElem (A ++ x :: Z) A.length (by simp) = x := by simp
  have hnew : ∀ i (hi : i < (A ++ Z).length), (A ++ Z)[i] =
      if hia : i < A.length then A[i] else getElem Z (i - A.length) (by simp at hi; omega) := by
    intro i hi
    split
    · rename_i hia; exact List.getElem_append_left hia
    · rename_i hia; exact List.getElem_append_right (by omega)
  have hxA : ∀ i (hi : i < A.length), A[i].slot ≠ x.slot := by
    intro i hi heq
    have := h.slot_inj (show i < (A ++ x :: Z).length by simp; omega)
      (show A.length < (A ++ x :: Z).length by simp) (by rw [hA i hi, hx]; exact heq)
    omega
  have hxZ : ∀ i (hi : i < Z.length), Z[i].slot ≠ x.slot := by
    intro i hi heq
    have := h.slot_inj (show A.length + 1 + i < (A ++ x :: Z).length by simp; omega)
      (show A.length < (A ++ x :: Z).length by simp) (by rw [hZ i hi, hx]; exact heq)
    omega
  have hZinj : ∀ i j (hi : i < Z.length) (hj : j < Z.length), Z[i].slot = Z[j].slot → i = j := by
    intro i j hi hj heq
    rw [← hZ i hi, ← hZ j hj] at heq
    have := h.slot_inj _ _ heq
    omega
  have hAZ : ∀ i j (hi : i < A.length) (hj : j < Z.length), A[i].slot ≠ Z[j].slot := by
    intro i j hi hj heq
    rw [← hA i hi, ← hZ j hj] at heq
    have := h.slot_inj _ _ heq
    omega
  have hrel : (t.release x.slot).size = t.size := size_release t x.slot
  -- every record of `Z` is found one place earlier
  have hmoved : ∀ k (hk : k < Z.length),
      (reindexNodes a (t.release x.slot) A.length Z.length).position Z[k].slot =
        some (A.length + k) := by
    intro k hk
    have hk' : A.length + k < a.size := by omega
    have hak : a[A.length + k] = Z[k] := by
      rw [hget, hnew _ (by simp; omega), dif_neg (by omega)]
      simp only [Nat.add_sub_cancel_left]
    have := position_reindexNodes_of_mem a hk' (t.release x.slot) A.length Z.length (by omega)
      (by omega)
      (by
        rw [hrel, hak]
        have := h.slot_lt (A.length + 1 + k) (by simp; omega)
        rwa [hZ] at this)
      (fun j' h' h1 h2 heq => by
        rw [hak, hget, hnew j' (by simp; omega), dif_neg (by omega)] at heq
        have := hZinj _ _ _ _ heq
        omega)
    rwa [hak] at this
  refine ⟨fun i hi => ?_, fun {s i} hp => ?_, ?_⟩
  · by_cases hia : i < A.length
    · rw [hnew i hi, dif_pos hia, position_reindexNodes_of_forall_ne]
      · rw [position_release, if_neg (Ne.symm (hxA i hia)), ← hA i hia]
        exact h.position_slot i _
      · intro j hj h1 h2 heq
        rw [hget, hnew j (by simp; omega), dif_neg (by omega)] at heq
        exact hAZ i _ hia _ heq.symm
    · obtain ⟨k, rfl⟩ : ∃ k, i = A.length + k := ⟨i - A.length, by omega⟩
      rw [hnew _ hi, dif_neg hia]
      simp only [Nat.add_sub_cancel_left]
      exact hmoved k (by simp at hi; omega)
  · by_cases hs : ∃ j, ∃ hj : j < Z.length, Z[j].slot = s
    · obtain ⟨j, hj, rfl⟩ := hs
      rw [hmoved j hj] at hp
      cases hp
      refine ⟨by simp; omega, ?_⟩
      rw [hnew _ (by simp; omega), dif_neg (by omega)]
      simp
    · rw [position_reindexNodes_of_forall_ne] at hp
      · rw [position_release] at hp
        split at hp
        · cases hp
        · rename_i hne
          obtain ⟨hil, hslot⟩ := h.slot_position hp
          by_cases hia : i < A.length
          · refine ⟨by simp; omega, ?_⟩
            rw [List.getElem_append_left hia, ← hA i hia]
            exact hslot
          · by_cases hix : i = A.length
            · subst hix; rw [hx] at hslot; exact absurd hslot hne
            · exfalso
              obtain ⟨k, rfl⟩ : ∃ k, i = A.length + 1 + k := ⟨i - (A.length + 1), by omega⟩
              have hz : k < Z.length := by simp at hil; omega
              rw [hZ k hz] at hslot
              exact hs ⟨_, hz, hslot⟩
      · intro j hj h1 h2 heq
        rw [hget, hnew j (by simp; omega), dif_neg (by omega)] at heq
        exact hs ⟨_, _, heq⟩
  · have hfree : t.isFree x.slot = false := by
      have := h.position_slot A.length (by simp)
      rw [hx] at this
      simp [isFree, this]
    simp [live_release, hfree, h.live_eq]

/-! ### Finding a free slot -/

/-- The scan from `hint + i` finds a slot whenever one of the next `fuel` slots is free. -/
theorem isSome_scan (t : SlotTable) :
    ∀ (fuel i j : Nat), j < fuel → t.isFree ((t.hint + (i + j)) % t.size) = true →
      (t.scan fuel i).isSome := by
  intro fuel
  induction fuel with
  | zero => intro _ _ h; omega
  | succ fuel ih =>
    intro i j hj hfree
    rw [scan]
    split
    · rfl
    · rename_i hnot
      cases j with
      | zero => exact absurd hfree hnot
      | succ j =>
        exact ih (i + 1) j (by omega) (by rw [show i + 1 + j = i + (j + 1) by omega]; exact hfree)

theorem scan_eq_mod (t : SlotTable) :
    ∀ (fuel i s : Nat), t.scan fuel i = some s → ∃ j, s = (t.hint + j) % t.size := by
  intro fuel
  induction fuel with
  | zero => intro _ _ h; cases h
  | succ fuel ih =>
    intro i s h
    rw [scan] at h
    split at h
    · cases h; exact ⟨i, rfl⟩
    · exact ih (i + 1) s h

theorem exists_offset (h s n : Nat) (hn : 0 < n) (hs : s < n) :
    ∃ j, j < n ∧ (h + j) % n = s := by
  refine ⟨(s + (n - h % n)) % n, Nat.mod_lt _ hn, ?_⟩
  have hm : h % n < n := Nat.mod_lt _ hn
  have hd := Nat.div_add_mod h n
  rw [Nat.add_mod_mod, show h + (s + (n - h % n)) = s + n * (h / n + 1) by rw [Nat.mul_add]; omega,
    Nat.add_mul_mod_self_left, Nat.mod_eq_of_lt hs]

/-- While fewer records than slots are located, `firstFree` finds a free slot of the table. -/
theorem firstFree_eq_some {t : SlotTable} {l : List Node} (h : t.Locates l)
    (hlt : l.length < t.size) : ∃ s, t.firstFree = some s ∧ s < t.size ∧ t.isFree s = true := by
  obtain ⟨s₀, hs₀, hfree₀⟩ := h.exists_free hlt
  obtain ⟨j, hj, hjs⟩ := exists_offset t.hint s₀ t.size (by omega) hs₀
  have hsome := isSome_scan t t.size 0 j hj (by rw [Nat.zero_add, hjs]; exact hfree₀)
  obtain ⟨s, hs⟩ := Option.isSome_iff_exists.mp hsome
  obtain ⟨k, rfl⟩ := scan_eq_mod t _ _ _ hs
  refine ⟨_, ?_, Nat.mod_lt _ (by omega), isFree_of_scan t _ _ _ hs⟩
  rw [firstFree, if_neg (by rw [h.live_eq]; omega), hs]

theorem firstFree_spec {t : SlotTable} {l : List Node} (h : t.Locates l) {s : Nat}
    (hs : t.firstFree = some s) : s < t.size ∧ t.isFree s = true := by
  unfold firstFree at hs
  split at hs
  · cases hs
  · rename_i hne
    have := h.length_le
    obtain ⟨k, rfl⟩ := scan_eq_mod t _ _ _ hs
    exact ⟨Nat.mod_lt _ (by rw [h.live_eq] at hne; omega), isFree_of_scan t _ _ _ hs⟩

/-- On a table that locates records, `firstFree` finds nothing exactly when no slot is free. -/
theorem firstFree_eq_none_iff {t : SlotTable} {l : List Node} (h : t.Locates l) :
    t.firstFree = none ↔ t.free = 0 := by
  have hle := h.length_le
  unfold free
  rw [h.live_eq]
  constructor
  · intro hn
    by_contra hne
    obtain ⟨s, hs, -⟩ := firstFree_eq_some h (by omega)
    rw [hn] at hs
    cases hs
  · intro h0
    rw [firstFree, if_pos (by rw [h.live_eq]; omega)]

end SlotTable

end TreeArena

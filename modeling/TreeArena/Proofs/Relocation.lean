import TreeArena.Proofs.Alloc

/-!
# Relocating records

The two primitives every edit is made of, read on the record list. A rotation by three reversals
moves the first `k` elements of an array to its end (`toList_turn`). `Pool.move` cuts a block of
records out and puts it back in front of the record that marked the target, returning where the
block now starts; the table then locates every record again (`move_spec`). `Pool.excise` cuts a
block out (`excise_block`): the records after it close the gap, the bytes in use drop by the
bytes cut, and the table points the slot of every record after the cut at the record's new
position while every other slot keeps its entry.

Main statement: `records_relocate`, both primitives on every pool whose table locates its
records.
-/

namespace TreeArena

namespace Pool

open SlotTable

/-- Cutting out the records `X` at position `A.length`: the records `Z` after them close the gap,
the bytes in use drop by the bytes of `X`, the slot of every record of `Z` points at its new
position, and every other slot keeps its entry. -/
theorem excise_block {p : Pool} {A X Z : List Node} (hl : p.nodes.toList = A ++ X ++ Z)
    (hnd : (Z.map Node.slot).Nodup) (hlt : ∀ nd ∈ Z, nd.slot < p.slots.size) :
    ∃ (a : Arena) (t : SlotTable), (excise A.length X.length).run p =
        .ok () { p with nodes := a, slots := t } ∧
      a.toList = A ++ Z ∧ a.used + Arena.used X.toArray = p.nodes.used ∧
      (∀ j (hj : j < Z.length), t.position Z[j].slot = some (A.length + j)) ∧
      (∀ s, (∀ nd ∈ Z, nd.slot ≠ s) → t.position s = p.slots.position s) ∧
      p.slots.Repoints t := by
  have hsize : p.nodes.size = A.length + X.length + Z.length := by
    rw [← Array.length_toList, hl]
    simp only [List.length_append]
  let a := p.nodes.extract 0 A.length ++ p.nodes.extract (A.length + X.length) p.nodes.size
  have ha : a.toList = A ++ Z := by
    have hd : (A ++ X ++ Z).drop (A.length + X.length) = Z := by
      rw [show A.length + X.length = (A ++ X).length by simp, List.drop_left]
    simp only [a, Array.toList_append, Array.toList_extract, List.extract, hl, hd, Nat.sub_zero,
      List.drop_zero]
    rw [List.append_assoc, List.take_left, hsize, List.take_of_length_le (by simp)]
  have hasize : a.size = A.length + Z.length := by
    rw [← Array.length_toList, ha, List.length_append]
  -- the record at `A.length + j` of the shortened arena is the `j`th record of `Z`
  have hZ : ∀ j (hj : j < Z.length), a[A.length + j] = Z[j] := by
    intro j hj
    have hj' : A.length + j < (A ++ Z).length := by simp; omega
    simp only [← Array.getElem_toList, ha, List.getElem_append_right (Nat.le_add_right _ _),
      Nat.add_sub_cancel_left]
  refine ⟨a, reindexNodes a p.slots A.length Z.length, ?_, ha, ?_, fun j hj => ?_, fun s hs => ?_,
    repoints_reindexNodes _ _ _ _⟩
  · simp only [excise]
    show EStateM.Result.ok () _ = _
    rw [show a.size - A.length = Z.length by omega]
  · -- the bytes in use are the sizes of the records, which add up block by block
    rw [Arena.used_eq_total, Arena.used_eq_total, Arena.used_eq_total, ha, hl]
    simp only [List.map_append, total_append]
    omega
  · have := position_reindexNodes_of_mem a (show A.length + j < a.size by omega) p.slots A.length
      Z.length (by omega) (by omega) (by rw [hZ j hj]; exact hlt _ (List.getElem_mem hj))
      (fun j' h h1 h2 heq => by
        obtain ⟨k, rfl⟩ : ∃ k, j' = A.length + k := ⟨j' - A.length, by omega⟩
        rw [hZ k (by omega), hZ j hj] at heq
        have hk' : k < (Z.map Node.slot).length := by simp; omega
        have hj' : j < (Z.map Node.slot).length := by simpa using hj
        have hmap : (Z.map Node.slot)[k] = (Z.map Node.slot)[j] := by simpa using heq
        have := (List.Nodup.getElem_inj_iff hnd).mp hmap
        omega)
    rwa [hZ j hj] at this
  · refine position_reindexNodes_of_forall_ne a s p.slots A.length Z.length fun j h h1 h2 => ?_
    obtain ⟨k, rfl⟩ : ∃ k, j = A.length + k := ⟨j - A.length, by omega⟩
    rw [hZ k (by omega)]
    exact hs _ (List.getElem_mem _)

/-- What moving and cutting records does to a pool `p`. A block of records moved in front of a
record, or to the end, leaves the other records in order with the block at the target's place,
returns the block's new start and leaves the table locating every record; a block cut out is gone,
its bytes no longer in use, and the records after it are pointed at their new positions. -/
structure Relocates (p : Pool) : Prop where
  move : ∀ (P B S : List Node) (dst : Nat), p.nodes.toList = P ++ B ++ S → B ≠ [] →
    dst ≤ P.length ∨ P.length + B.length ≤ dst ∧ dst ≤ p.nodes.size →
    ∃ (a : Arena) (t : SlotTable), (move dst P.length B.length).run p =
        .ok (landing dst P.length B.length) { p with nodes := a, slots := t } ∧
      a.toList = (P ++ S).take (landing dst P.length B.length) ++ B ++
        (P ++ S).drop (landing dst P.length B.length) ∧
      t.Locates a.toList ∧ p.slots.Repoints t
  excise : ∀ (A X Z : List Node), p.nodes.toList = A ++ X ++ Z →
    ∃ (a : Arena) (t : SlotTable), (excise A.length X.length).run p =
        .ok () { p with nodes := a, slots := t } ∧
      a.toList = A ++ Z ∧ a.used + Arena.used X.toArray = p.nodes.used ∧
      (∀ j (hj : j < Z.length), t.position Z[j].slot = some (A.length + j)) ∧
      (∀ s, (∀ nd ∈ Z, nd.slot ≠ s) → t.position s = p.slots.position s) ∧
      p.slots.Repoints t

/-- Rotating a byte string left by three reversals moves its first `k` bytes to the end, and on
a pool whose table locates its records, moving and cutting records relocate them exactly. -/
theorem records_relocate {p : Pool} (hloc : p.slots.Locates p.nodes.toList) :
    (∀ (s : Array UInt8) (k : Nat), (turn s k).toList = s.toList.drop k ++ s.toList.take k) ∧
      p.Relocates := by
  refine ⟨toList_turn, ⟨fun P B S dst hl hB hdst => move_spec hloc hl hB hdst,
    fun A X Z hl => excise_block hl ?_ ?_⟩⟩
  · -- the records after the cut carry distinct slots of the table, as all records do
    have hnd := hloc.nodup
    rw [hl, List.map_append] at hnd
    exact (List.nodup_append.mp hnd).2.1
  · intro nd hnd
    obtain ⟨i, hi, rfl, -⟩ := hloc.position_of_mem (show nd ∈ p.nodes.toList by rw [hl]; simp [hnd])
    exact hloc.slot_lt i hi

/-- A pool just built, of sixty-four bytes, locates its one record, so its records relocate
exactly. -/
theorem new_pool_relocates :
    ∃ p, Pool.new 0 64 {} = .ok p ∧ p.slots.Locates p.nodes.toList ∧
      (∀ (s : Array UInt8) (k : Nat), (turn s k).toList = s.toList.drop k ++ s.toList.take k) ∧
        p.Relocates := by
  obtain ⟨p, hp⟩ : ∃ p, Pool.new 0 64 {} = .ok p := ⟨_, rfl⟩
  have hloc := (new_spec (w := fun _ => 0) hp).1.laid.locates
  exact ⟨p, hp, hloc, records_relocate hloc⟩

end Pool

end TreeArena

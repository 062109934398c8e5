import TreeArena.Proofs.Table

/-!
# Moving and cutting records

`Pool.move` takes a block of records out of the arena and puts it back in front of the record that
was at `dst`, rotating the records in between; `Pool.excise` cuts records out and closes the gap.
Read on the record list, a move is "remove the block, insert it at the target" (`move_spec`): the
records other than the block keep their order, and the block lands at the target's position among
them. Both rewrite the table entries of every record that moved, so the table keeps locating the
records, and neither touches generations or the scan hint (`SlotTable.Repoints`).
-/

namespace TreeArena

namespace SlotTable

/-- `t'` differs from `t` at most in the positions its slots hold. -/
structure Repoints (t t' : SlotTable) : Prop where
  size_eq : t'.size = t.size
  generations_eq : t'.generations = t.generations
  hint_eq : t'.hint = t.hint

theorem Repoints.refl (t : SlotTable) : t.Repoints t := ⟨rfl, rfl, rfl⟩

theorem Repoints.trans {t t' t'' : SlotTable} (h : t.Repoints t') (h' : t'.Repoints t'') :
    t.Repoints t'' :=
  ⟨h'.size_eq.trans h.size_eq, h'.generations_eq.trans h.generations_eq, h'.hint_eq.trans h.hint_eq⟩

theorem repoints_reindexNodes (a : Arena) (t : SlotTable) (pos n : Nat) :
    t.Repoints (Pool.reindexNodes a t pos n) := ⟨by simp, by simp, by simp⟩

theorem repoints_set (t : SlotTable) (s p : Nat) : t.Repoints (t.set s p) := ⟨by simp, rfl, rfl⟩

end SlotTable

namespace Pool

open SlotTable

/-! ### Rotating a range -/

theorem toList_turnRange (a : Arena) (lo hi k : Nat) :
    (turnRange a lo hi k).toList =
      a.toList.take lo ++ (((a.toList.drop lo).take (hi - lo)).drop k ++
        ((a.toList.drop lo).take (hi - lo)).take k) ++ a.toList.drop hi := by
  simp [turnRange, toList_turn, Array.toList_extract, List.extract, List.take_of_length_le]

/-- Rotating the range that holds `Y` then `W` by the length of `Y` swaps the two. -/
theorem toList_turnRange_swap {a : Arena} {X Y W Z : List Node} (h : a.toList = X ++ Y ++ W ++ Z) :
    (turnRange a X.length (X.length + Y.length + W.length) Y.length).toList = X ++ W ++ Y ++ Z := by
  rw [toList_turnRange, h]
  have hmid : ((X ++ Y ++ W ++ Z).drop X.length).take (X.length + Y.length + W.length - X.length) =
      Y ++ W := by
    rw [show X ++ Y ++ W ++ Z = X ++ ((Y ++ W) ++ Z) by simp, List.drop_left,
      show X.length + Y.length + W.length - X.length = (Y ++ W).length by simp; omega,
      List.take_left]
  have hpre : (X ++ Y ++ W ++ Z).take X.length = X := by
    rw [show X ++ Y ++ W ++ Z = X ++ (Y ++ W ++ Z) by simp, List.take_left]
  have hsuf : (X ++ Y ++ W ++ Z).drop (X.length + Y.length + W.length) = Z := by
    rw [show X.length + Y.length + W.length = (X ++ Y ++ W).length by simp; omega, List.drop_left]
  rw [hmid, hpre, hsuf, List.drop_left, List.take_left]
  simp

/-- Swapping two neighbouring blocks leaves every record outside them in place. -/
theorem getElem_swap_of_outside {X Y W Z : List Node} {i : Nat}
    (h₁ : i < (X ++ W ++ Y ++ Z).length) (h₂ : i < (X ++ Y ++ W ++ Z).length)
    (hi : i < X.length ∨ X.length + Y.length + W.length ≤ i) :
    (X ++ W ++ Y ++ Z)[i] = (X ++ Y ++ W ++ Z)[i] := by
  rcases hi with hi | hi
  · simp only [List.append_assoc]
    rw [List.getElem_append_left hi, List.getElem_append_left hi]
  · rw [List.getElem_append_right (by simp; omega), List.getElem_append_right (by simp; omega)]
    simp only [List.length_append]
    congr 1
    omega

theorem perm_swap (X Y W Z : List Node) : (X ++ W ++ Y ++ Z).Perm (X ++ Y ++ W ++ Z) := by
  simp only [List.append_assoc]
  exact List.Perm.append_left X (by
    rw [← List.append_assoc, ← List.append_assoc]
    exact List.Perm.append_right Z List.perm_append_comm)

/-- Swapping two neighbouring blocks and rewriting the entries of both keeps the records
located. -/
theorem locates_swap {t : SlotTable} {X Y W Z : List Node} (h : t.Locates (X ++ Y ++ W ++ Z))
    {a : Arena} (ha : a.toList = X ++ W ++ Y ++ Z) :
    (reindexNodes a t X.length (X.length + Y.length + W.length - X.length)).Locates a.toList := by
  rw [ha]
  exact locates_reindex_of_perm h (perm_swap X Y W Z)
    (fun i h₁ h₂ hi => getElem_swap_of_outside h₁ h₂ hi) ha

/-- Where a block of `n` records at `src` lands, counted among the other records, when it is moved
in front of the record at `dst`. -/
def landing (dst src n : Nat) : Nat := if dst ≤ src then dst else dst - n

/-- Moving a block of records: the records other than the block keep their order, and the block
is put back in front of the record that was at `dst`; the position it lands at is returned. The
table follows. -/
theorem move_spec {p : Pool} (hloc : p.slots.Locates p.nodes.toList) {P B S : List Node}
    (hl : p.nodes.toList = P ++ B ++ S) (hB : B ≠ []) {dst : Nat}
    (hdst : dst ≤ P.length ∨ P.length + B.length ≤ dst ∧ dst ≤ p.nodes.size) :
    ∃ (a : Arena) (t : SlotTable), (move dst P.length B.length).run p =
        .ok (landing dst P.length B.length) { p with nodes := a, slots := t } ∧
      a.toList = (P ++ S).take (landing dst P.length B.length) ++ B ++
        (P ++ S).drop (landing dst P.length B.length) ∧
      t.Locates a.toList ∧ p.slots.Repoints t := by
  have hn : B.length ≠ 0 := by simpa using hB
  by_cases htriv : dst = P.length ∨ dst = P.length + B.length
  · -- the block is already in place
    have hd : landing dst P.length B.length = P.length := by
      unfold landing; split <;> omega
    refine ⟨p.nodes, p.slots, ?_, ?_, hloc, Repoints.refl _⟩
    · rw [hd, move, if_pos (by omega)]
      rfl
    · rw [hd, hl, List.take_left, List.drop_left]
  · by_cases hlt : dst < P.length
    · -- the block moves towards the front, over the records `Y` from `dst` on
      obtain ⟨X, Y, rfl, rfl⟩ : ∃ X Y, P = X ++ Y ∧ X.length = dst :=
        ⟨P.take dst, P.drop dst, (List.take_append_drop _ _).symm, by simp; omega⟩
      simp only [List.length_append] at hlt htriv ⊢
      have hd : landing X.length (X.length + Y.length) B.length = X.length := by
        unfold landing; rw [if_pos (by omega)]
      have hl' : p.nodes.toList = X ++ Y ++ B ++ S := by rw [hl]
      let a := turnRange p.nodes X.length (X.length + Y.length + B.length) Y.length
      refine ⟨a, reindexNodes a p.slots X.length (X.length + Y.length + B.length - X.length),
        ?_, ?_, ?_, repoints_reindexNodes _ _ _ _⟩
      · rw [hd, move, if_neg (by omega), if_pos (by omega),
          show X.length + Y.length - X.length = Y.length by omega]
        rfl
      · rw [toList_turnRange_swap hl', hd]
        simp
      · exact locates_swap (hl' ▸ hloc) (toList_turnRange_swap hl')
    · -- the block moves towards the end, over the records `W` up to `dst`
      have hsize : p.nodes.size = P.length + B.length + S.length := by
        rw [← Array.length_toList, hl]; simp; omega
      obtain ⟨W, Z, rfl, rfl⟩ : ∃ W Z, S = W ++ Z ∧ P.length + B.length + W.length = dst :=
        ⟨S.take (dst - P.length - B.length), S.drop (dst - P.length - B.length),
          (List.take_append_drop _ _).symm, by simp; omega⟩
      have hd : landing (P.length + B.length + W.length) P.length B.length =
          P.length + W.length := by
        unfold landing; rw [if_neg (by omega)]; omega
      have hl' : p.nodes.toList = P ++ B ++ W ++ Z := by rw [hl]; simp
      let a := turnRange p.nodes P.length (P.length + B.length + W.length) B.length
      refine ⟨a, reindexNodes a p.slots P.length (P.length + B.length + W.length - P.length),
        ?_, ?_, ?_, repoints_reindexNodes _ _ _ _⟩
      · rw [hd, move, if_neg (by omega), if_neg (by omega),
          show P.length + B.length + W.length - B.length = P.length + W.length by omega]
        rfl
      · rw [toList_turnRange_swap hl', hd, show P ++ (W ++ Z) = (P ++ W) ++ Z by simp,
          show P.length + W.length = (P ++ W).length by simp, List.take_left, List.drop_left]
      · exact locates_swap (hl' ▸ hloc) (toList_turnRange_swap hl')

/-! ### Cutting a record out -/

/-- Cutting out the record at `A.length`, whose slot is already free, closes the gap; the table
follows. -/
theorem excise_spec {p : Pool} {A Z : List Node} {x : Node} {t : SlotTable}
    (hloc : t.Locates (A ++ x :: Z)) (hl : p.nodes.toList = A ++ x :: Z)
    (hslots : p.slots = t.release x.slot) :
    ∃ (a : Arena) (t' : SlotTable), (excise A.length 1).run p =
        .ok () { p with nodes := a, slots := t' } ∧
      a.toList = A ++ Z ∧ t'.Locates a.toList ∧ p.slots.Repoints t' := by
  have hsize : p.nodes.size = A.length + 1 + Z.length := by
    rw [← Array.length_toList, hl]; simp; omega
  have ha : (p.nodes.extract 0 A.length ++ p.nodes.extract (A.length + 1) p.nodes.size).toList =
      A ++ Z := by
    have hd : (A ++ x :: Z).drop (A.length + 1) = Z := by
      rw [show A ++ x :: Z = (A ++ [x]) ++ Z by simp, show A.length + 1 = (A ++ [x]).length by simp,
        List.drop_left]
    simp only [Array.toList_append, Array.toList_extract, List.extract, hl, hd, Nat.sub_zero,
      List.drop_zero]
    rw [show A ++ x :: Z = A ++ (x :: Z) from rfl, List.take_left, hsize,
      List.take_of_length_le (by simp)]
  have hsize' : (p.nodes.extract 0 A.length ++ p.nodes.extract (A.length + 1) p.nodes.size).size =
      A.length + Z.length := by
    rw [← Array.length_toList, ha]; simp
  refine ⟨_, reindexNodes (p.nodes.extract 0 A.length ++ p.nodes.extract (A.length + 1) p.nodes.size)
    p.slots A.length Z.length, ?_, ha, ?_, repoints_reindexNodes _ _ _ _⟩
  · simp only [excise]
    show EStateM.Result.ok () _ = _
    rw [hsize', Nat.add_sub_cancel_left]
  · rw [ha, hslots]
    exact locates_reindex_erase hloc ha

/-! ### Rewriting one record -/

theorem run_modifyAt (i : Nat) (f : Node → Node) (p : Pool) :
    (modifyAt i f).run p = .ok () { p with nodes := p.nodes.modify i f } := rfl

theorem run_setRetain (i n : Nat) (p : Pool) :
    (setRetain i n).run p =
      .ok () { p with nodes := p.nodes.modify i fun nd => { nd with retain := n } } := rfl

theorem run_setChildren {i : Nat} {n : Int} (h0 : 0 ≤ n) (hn : n ≤ maxCount) (p : Pool) :
    (setChildren i n).run p =
      .ok () { p with nodes := p.nodes.modify i fun nd => { nd with children := n.toNat } } := by
  simp only [setChildren]
  rw [if_neg (by omega)]
  rfl

theorem locates_modify {t : SlotTable} {a : Arena} (h : t.Locates a.toList) (i : Nat)
    {f : Node → Node} (hf : ∀ nd, (f nd).slot = nd.slot) : t.Locates (a.modify i f).toList := by
  apply h.of_map_slot_eq
  rw [Arena.modify, Array.toList_modify]
  apply List.ext_getElem (by simp)
  intro j h1 h2
  simp only [List.getElem_map, List.getElem_modify]
  split <;> simp [hf]

end Pool

end TreeArena

import TreeArena.Proofs.EditOps
import TreeArena.Expr.Basic

/-!
# Constructors take over their operands

An operator node is created childless and then takes its operands one by one: each is installed
as a child, unless the new node is already a failure, and the operand's handle is released. The
unit the operand's handle owned thus moves to the new edge, and the client keeps the new node's
handle only.

When every operand owns a unit, a constructor that returns keeps the heap exact for the client's
handles with the operands given up and the new node gained (`Heap.Exact.operator`). A constructor
can also fault halfway, when an operand cannot be installed: the new node and the operands not yet
installed then keep the units their handles owned, although the client holds none of those
handles any more. The heap stays exact once those lost handles are counted too.
-/

namespace TreeArena

namespace Heap

open Pool TreeArena.Tree

variable {h : Heap}

/-- Installing owned operands below `r`: on return the heap is exact for the other handles, with
no new ownership; a fault leaves it exact once some handles not given back are counted too. -/
theorem Exact.installAll (r : Handle) : ∀ (cs : List Handle) (i : Nat) {h : Heap}
    {base : List Handle}, h.Exact (cs ++ base) →
    Ends (Expr.installAll r i cs) h (fun _ h' => Keeps base h h')
      fun h' => ∃ L, Keeps (L ++ base) h h'
  | [], _, _, _, hE => ends_pure hE.keeps_self
  | c :: cs, i, h, base, hE => by
    rw [Expr.installAll]
    -- once the operand is installed, or skipped by a failure receiver, its handle is given back
    have hrest : ∀ h₁, Keeps (c :: cs ++ base) h h₁ →
        Ends (do let _ ← Heap.release c; Expr.installAll r (i + 1) cs) h₁
          (fun _ h' => Keeps base h h') fun h' => ∃ L, Keeps (L ++ base) h h' := by
      intro h₁ hk₁
      obtain ⟨_, h₂, hrel, -, hE₂, hn₂, ht₂⟩ := hk₁.exact.release (r := c) fun _ => List.mem_cons_self
      rw [List.cons_append, List.erase_cons_head] at hE₂
      refine (Returns.ends (Q := fun _ h' => h' = h₂) (F := fun h' => ∃ L, Keeps (L ++ base) h h')
        ⟨_, h₂, hrel, rfl⟩).bind fun _ h₂ hh => ?_
      subst hh
      -- what was given back so far is kept through the rest of the operands
      have hk₂ : Keeps (cs ++ base) h h₂ :=
        ⟨hE₂, fun x hx => hk₁.narrows x (hn₂ x hx),
          hk₁.frees.trans (fun _ _ _ => SlotTable.Frees.trans) ht₂⟩
      refine (Exact.installAll r cs (i + 1) hE₂).mono (fun _ _ hk => hk₂.trans hk) ?_
      rintro h' ⟨L, hk⟩
      exact ⟨L, hk₂.trans hk⟩
    refine ends_get_bind ?_
    dsimp only
    split
    · exact ((hE.addChild r c i i).ends ⟨c :: cs, hE.keeps_self⟩).bind fun _ h₁ hk₁ => hrest h₁ hk₁
    · exact hrest h hE.keeps_self

/-- A handle gained before an edit that keeps it is gained alike after it: an owned one stays
owned, and an edit owns nothing new. -/
theorem Keeps.gain_eq {h₁ h₂ : Heap} {r : Handle} {base : List Handle}
    (hk : Keeps (gain h₁ r base) h₁ h₂) : gain h₂ r base = gain h₁ r base := by
  unfold gain
  cases ho : h₁.owns r with
  | true =>
    have : h₂.owns r = true := hk.exact.owns (by simp [gain, ho])
    simp [this]
  | false =>
    have : h₂.owns r = false := by
      cases ho₂ : h₂.owns r
      · rfl
      · exact absurd (hk.narrows r ho₂) (by simp [ho])
    simp [this]

theorem perm_gain_operands (h : Heap) (r : Handle) (cs base : List Handle) :
    (cs ++ gain h r base).Perm (gain h r (cs ++ base)) := by
  unfold gain
  split
  · exact List.perm_middle
  · exact List.Perm.refl _

/-- A constructor over owned operands: on return the client holds the new node's handle in place
of the operands; a fault leaves the heap exact once some handles no one holds are counted. -/
theorem Exact.operator {cs base : List Handle} (hE : h.Exact (cs ++ base)) (k : Nat) {t : Nat}
    (ht : t < 256) :
    Ends (Expr.operator k t cs) h (fun c h' => h'.Exact (gain h' c base))
      fun h' => ∃ L, h'.Exact (L ++ base) := by
  unfold Expr.operator
  refine ((hE.create k ht []).ends ⟨cs, hE⟩).bind fun r h₁ hE₁ => ?_
  refine (Exact.installAll r cs 0 (hE₁.perm (perm_gain_operands h₁ r cs base))).bind (fun _ h₂ hk => ?_) |>.mono
    (fun _ _ hQ => hQ) fun h₂ ⟨L, hk⟩ => ?_
  · refine ends_pure ?_
    rw [hk.gain_eq]
    exact hk.exact
  · unfold gain at hk
    split at hk
    · exact ⟨L ++ [r], hk.exact.perm (by simp)⟩
    · exact ⟨L, hk.exact⟩

end Heap

end TreeArena

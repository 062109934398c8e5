import TreeArena.Proofs.Forest

/-!
# Holes in a forest

A position of the arena is a hole in the forest: the levels above it (each a parent record with
its children on either side of the hole) and the roots on either side of the outermost level. The
hole holds a run of sibling subtrees: one subtree for a node, none for a boundary where a subtree
can be inserted, a node's whole list of children for a splice. `Ctx.fill` puts a run in the hole,
and its layout is the records before the hole, the run's records, and the records after it
(`layout_fill`), so the hole's position is the number of records before it (`Ctx.pos`).

Holes compose (`Ctx.comp`): a hole of a forest that sits in the hole of a larger one is a hole of
the larger one. `exists_fill` finds the hole of every record position.
-/

namespace TreeArena

namespace Tree

/-- One level above a hole: the parent record and its children on each side of the hole. -/
structure Frame where
  head : Node
  left : List Tree
  right : List Tree

/-- A forest with a hole: the levels above the hole, innermost first, and the roots on each side
of the outermost level. -/
structure Ctx where
  up : List Frame
  left : List Tree
  right : List Tree

namespace Frame

/-- The parent's subtree with `ts` in the hole. -/
def close (f : Frame) (ts : List Tree) : Tree := node f.head (f.left ++ ts ++ f.right)

/-- Closes the levels from the innermost out. -/
def closeAll : List Frame → List Tree → List Tree
  | [], ts => ts
  | f :: fs, ts => closeAll fs [f.close ts]

/-- Records in front of the hole that the levels contribute: each parent record and the children
left of the hole, outermost level first. -/
def before : List Frame → List Node
  | [] => []
  | f :: fs => before fs ++ f.head :: layout f.left

/-- Records after the hole that the levels contribute, innermost level first. -/
def after : List Frame → List Node
  | [] => []
  | f :: fs => layout f.right ++ after fs

theorem closeAll_append (fs gs : List Frame) (ts : List Tree) :
    closeAll (fs ++ gs) ts = closeAll gs (closeAll fs ts) := by
  induction fs generalizing ts with
  | nil => rfl
  | cons f fs ih => exact ih _

theorem before_append (fs gs : List Frame) : before (fs ++ gs) = before gs ++ before fs := by
  induction fs with
  | nil => simp [before]
  | cons f fs ih => simp [before, ih]

theorem after_append (fs gs : List Frame) : after (fs ++ gs) = after fs ++ after gs := by
  induction fs with
  | nil => simp [after]
  | cons f fs ih => simp [after, ih]

theorem closeAll_singleton (fs : List Frame) (t : Tree) : ∃ T, closeAll fs [t] = [T] := by
  induction fs generalizing t with
  | nil => exact ⟨t, rfl⟩
  | cons f fs ih => exact ih (f.close [t])

theorem layout_closeAll (fs : List Frame) (ts : List Tree) :
    layout (closeAll fs ts) = before fs ++ layout ts ++ after fs := by
  induction fs generalizing ts with
  | nil => simp [closeAll, before, after]
  | cons f fs ih => simp [closeAll, ih, close, before, after]

/-- The level's counts are right with `n` subtrees in the hole, and its other children are well
formed. -/
def Wf (f : Frame) (n : Nat) : Prop :=
  f.head.children = f.left.length + n + f.right.length ∧ (∀ t ∈ f.left, t.Wf) ∧ ∀ t ∈ f.right, t.Wf

/-- The levels are well formed with `n` subtrees in the hole: the innermost level holds the run,
every outer level the one subtree closed below it. -/
def WfAll : List Frame → Nat → Prop
  | [], _ => True
  | f :: fs, n => f.Wf n ∧ WfAll fs 1

theorem wf_close_iff {f : Frame} {ts : List Tree} :
    (f.close ts).Wf ↔ f.Wf ts.length ∧ ∀ t ∈ ts, t.Wf := by
  simp only [close, wf_node_iff, Frame.Wf, List.length_append, List.mem_append]
  constructor
  · rintro ⟨hc, hk⟩
    exact ⟨⟨by omega, fun t h => hk t (.inl (.inl h)), fun t h => hk t (.inr h)⟩,
      fun t h => hk t (.inl (.inr h))⟩
  · rintro ⟨⟨hc, hl, hr⟩, hts⟩
    refine ⟨by omega, fun t h => ?_⟩
    rcases h with (h | h) | h
    · exact hl t h
    · exact hts t h
    · exact hr t h

theorem wf_closeAll_iff {fs : List Frame} {ts : List Tree} :
    (∀ t ∈ closeAll fs ts, t.Wf) ↔ WfAll fs ts.length ∧ ∀ t ∈ ts, t.Wf := by
  induction fs generalizing ts with
  | nil => simp [closeAll, WfAll]
  | cons f fs ih =>
    rw [closeAll, ih, WfAll, List.length_singleton, List.forall_mem_singleton, wf_close_iff]
    exact ⟨fun ⟨h1, h2, h3⟩ => ⟨⟨h2, h1⟩, h3⟩, fun ⟨⟨h2, h1⟩, h3⟩ => ⟨h1, h2, h3⟩⟩

end Frame

namespace Ctx

/-- The forest with the run `ts` in the hole. -/
def fill (c : Ctx) (ts : List Tree) : List Tree := c.left ++ Frame.closeAll c.up ts ++ c.right

/-- The records in front of the hole. -/
def before (c : Ctx) : List Node := layout c.left ++ Frame.before c.up

/-- The records after the hole. -/
def after (c : Ctx) : List Node := Frame.after c.up ++ layout c.right

/-- Position of the hole: the number of records in front of it. -/
def pos (c : Ctx) : Nat := c.before.length

/-- The counts around the hole are right for a run of `n` subtrees, and every subtree beside the
hole is well formed. -/
def Wf (c : Ctx) (n : Nat) : Prop := Frame.WfAll c.up n ∧ (∀ t ∈ c.left, t.Wf) ∧ ∀ t ∈ c.right, t.Wf

theorem layout_fill (c : Ctx) (ts : List Tree) :
    layout (c.fill ts) = c.before ++ layout ts ++ c.after := by
  simp [fill, before, after, Frame.layout_closeAll]

theorem forall_mem_fill {P : Tree → Prop} {c : Ctx} {ts : List Tree} :
    (∀ t ∈ c.fill ts, P t) ↔
      (∀ t ∈ c.left, P t) ∧ (∀ t ∈ Frame.closeAll c.up ts, P t) ∧ ∀ t ∈ c.right, P t := by
  simp only [fill, List.forall_mem_append, and_assoc]

/-- A property of every tree that splits at the frames into a part about the frames and a part
about the trees in the hole splits the same way over the whole forest. -/
theorem forall_mem_fill_iff_of_closeAll {P : Tree → Prop} {c : Ctx} {ts : List Tree} {U V : Prop}
    (hup : (∀ t ∈ Frame.closeAll c.up ts, P t) ↔ U ∧ V) :
    (∀ t ∈ c.fill ts, P t) ↔ (U ∧ (∀ t ∈ c.left, P t) ∧ ∀ t ∈ c.right, P t) ∧ V := by
  rw [forall_mem_fill, hup]
  constructor
  · rintro ⟨hl, ⟨hu, hv⟩, hr⟩
    exact ⟨⟨hu, hl, hr⟩, hv⟩
  · rintro ⟨⟨hu, hl, hr⟩, hv⟩
    exact ⟨hl, ⟨hu, hv⟩, hr⟩

theorem wf_fill_iff {c : Ctx} {ts : List Tree} :
    (∀ t ∈ c.fill ts, t.Wf) ↔ c.Wf ts.length ∧ ∀ t ∈ ts, t.Wf :=
  forall_mem_fill_iff_of_closeAll Frame.wf_closeAll_iff

/-- The hole in the children of the subtree in `c`'s hole, between `left` and `right`. -/
def child (c : Ctx) (h : Node) (left right : List Tree) : Ctx := ⟨⟨h, left, right⟩ :: c.up, c.left, c.right⟩

theorem child_fill (c : Ctx) (h : Node) (left right ts : List Tree) :
    (c.child h left right).fill ts = c.fill [node h (left ++ ts ++ right)] := rfl

theorem child_before (c : Ctx) (h : Node) (left right : List Tree) :
    (c.child h left right).before = c.before ++ h :: layout left := by
  simp [child, before, Frame.before]

theorem child_after (c : Ctx) (h : Node) (left right : List Tree) :
    (c.child h left right).after = layout right ++ c.after := by
  simp [child, after, Frame.after]

theorem child_pos (c : Ctx) (h : Node) (left right : List Tree) :
    (c.child h left right).pos = c.pos + 1 + (layout left).length := by
  simp [pos, child_before]; omega

theorem eq_child_of_up {c : Ctx} {f : Frame} {fs : List Frame} (h : c.up = f :: fs) :
    c = (⟨fs, c.left, c.right⟩ : Ctx).child f.head f.left f.right := by
  cases c
  simp only at h
  simp [h, child]

/-- A hole of a forest whose subtree lies outside the root `T` is a hole of the forest without
`T`: at the same position if it comes before `T`, and `T`'s records earlier if it comes after. -/
theorem exists_erase_root {c : Ctx} {u : Tree} {L R : List Tree} {T : Tree}
    (hc : c.fill [u] = L ++ T :: R) (hout : u.head ∉ T.records) :
    ∃ c' : Ctx, c'.up = c.up ∧ c'.fill [u] = L ++ R ∧
      (c'.pos = c.pos ∧ c.pos + u.size ≤ (layout L).length ∨
        c'.pos + T.size = c.pos ∧ (layout L).length + T.size ≤ c.pos) := by
  obtain ⟨V, hV⟩ := Frame.closeAll_singleton c.up u
  have hVr : V.records = Frame.before c.up ++ u.records ++ Frame.after c.up := by
    have := Frame.layout_closeAll c.up [u]
    rwa [hV, layout_singleton, layout_singleton] at this
  have hVl : V.size = (Frame.before c.up).length + u.size + (Frame.after c.up).length := by
    simp [size, hVr]
    omega
  have hpos : c.pos = (layout c.left).length + (Frame.before c.up).length := by
    simp [pos, before]
  have hsplit : c.left ++ V :: c.right = L ++ T :: R := by
    rw [← hc, fill, hV]
    simp
  -- the subtree's root tree is not `T`, which does not hold its root record
  have hne : V ≠ T := by
    rintro rfl
    apply hout
    rw [hVr, records_eq]
    simp
  rcases List.append_eq_append_iff.mp hsplit with ⟨a, hL, ha⟩ | ⟨a, hl, ha⟩
  · cases a with
    | nil =>
      simp only [List.nil_append, List.cons.injEq] at ha
      exact absurd ha.1 hne
    | cons V' M =>
      simp only [List.cons_append, List.cons.injEq] at ha
      obtain ⟨rfl, hr⟩ := ha
      refine ⟨⟨c.up, c.left, M ++ R⟩, rfl, ?_, .inl ⟨rfl, ?_⟩⟩
      · simp [fill, hV, hL]
      · simp only [hL, layout_append, layout_cons, List.length_append, size] at hVl ⊢
        omega
  · cases a with
    | nil =>
      simp only [List.nil_append, List.cons.injEq] at ha
      exact absurd ha.1.symm hne
    | cons T' M =>
      simp only [List.cons_append, List.cons.injEq] at ha
      obtain ⟨rfl, hr⟩ := ha
      refine ⟨⟨c.up, L ++ M, c.right⟩, rfl, ?_, .inr ⟨?_, ?_⟩⟩
      · simp [fill, hV, hr]
      · simp only [hl, pos, before, layout_append, layout_cons, List.length_append, size] at hpos ⊢
        omega
      · simp only [hl, layout_append, layout_cons, List.length_append, size] at hpos ⊢
        omega

/-- The same hole in the forest with the roots `R` appended. -/
def appendRight (c : Ctx) (R : List Tree) : Ctx := ⟨c.up, c.left, c.right ++ R⟩

@[simp] theorem appendRight_up (c : Ctx) (R : List Tree) : (c.appendRight R).up = c.up := rfl

@[simp] theorem appendRight_nil (c : Ctx) : c.appendRight [] = c := by
  simp [appendRight]

@[simp] theorem appendRight_appendRight (c : Ctx) (R R' : List Tree) :
    (c.appendRight R).appendRight R' = c.appendRight (R ++ R') := by
  simp [appendRight]

theorem appendRight_fill (c : Ctx) (R ts : List Tree) :
    (c.appendRight R).fill ts = c.fill ts ++ R := by
  simp [appendRight, fill]

@[simp] theorem appendRight_pos (c : Ctx) (R : List Tree) : (c.appendRight R).pos = c.pos := rfl

/-- A hole of the forest in `o`'s hole, seen as a hole of the whole forest. -/
def comp (o i : Ctx) : Ctx :=
  match o.up with
  | [] => ⟨i.up, o.left ++ i.left, i.right ++ o.right⟩
  | f :: fs => ⟨i.up ++ ⟨f.head, f.left ++ i.left, i.right ++ f.right⟩ :: fs, o.left, o.right⟩

theorem comp_fill (o i : Ctx) (ts : List Tree) : (o.comp i).fill ts = o.fill (i.fill ts) := by
  unfold comp
  split
  · rename_i h
    simp [fill, h, Frame.closeAll]
  · rename_i f fs h
    simp [fill, h, Frame.closeAll_append, Frame.closeAll, Frame.close]

theorem comp_before (o i : Ctx) : (o.comp i).before = o.before ++ i.before := by
  unfold comp
  split
  · rename_i h
    simp [before, h, Frame.before]
  · rename_i f fs h
    simp [before, h, Frame.before_append, Frame.before]

theorem comp_after (o i : Ctx) : (o.comp i).after = i.after ++ o.after := by
  unfold comp
  split
  · rename_i h
    simp [after, h, Frame.after]
  · rename_i f fs h
    simp [after, h, Frame.after_append, Frame.after]

theorem comp_pos (o i : Ctx) : (o.comp i).pos = o.pos + i.pos := by
  simp [pos, comp_before]

/-- The hole of the subtree whose children hold `c`'s hole, when there is a level above it. -/
def parent (c : Ctx) : Option Ctx :=
  match c.up with
  | [] => none
  | _ :: fs => some ⟨fs, c.left, c.right⟩

/-- The hole between the roots `left` and `right`. -/
def top (left right : List Tree) : Ctx := ⟨[], left, right⟩

theorem top_fill (left right ts : List Tree) : (top left right).fill ts = left ++ ts ++ right := rfl

theorem top_before (left right : List Tree) : (top left right).before = layout left := by
  simp [top, before, Frame.before]

theorem top_after (left right : List Tree) : (top left right).after = layout right := by
  simp [top, after, Frame.after]

theorem top_pos (left right : List Tree) : (top left right).pos = (layout left).length := by
  simp [pos, top_before]

theorem before_append_after {c₁ c₂ : Ctx} (hc : c₂.fill [] = c₁.fill []) :
    c₂.before ++ c₂.after = c₁.before ++ c₁.after := by
  have h1 := layout_fill c₁ []
  have h2 := layout_fill c₂ []
  rw [hc] at h2
  simp only [layout_nil, List.append_nil] at h1 h2
  rw [← h1, h2]

/-- Filling two holes of one forest with the same run gives the same records in another order. -/
theorem perm_layout_fill {c₁ c₂ : Ctx} (hc : c₂.fill [] = c₁.fill []) (ts : List Tree) :
    (layout (c₂.fill ts)).Perm (layout (c₁.fill ts)) := by
  have h₁ := List.perm_append_comm_assoc c₁.before (layout ts) c₁.after
  have h₂ := List.perm_append_comm_assoc c₂.before (layout ts) c₂.after
  rw [before_append_after hc] at h₂
  rw [layout_fill, layout_fill, List.append_assoc, List.append_assoc]
  exact h₂.trans h₁.symm

end Ctx

/-- Every record position of a forest is the hole of one subtree. -/
theorem exists_fill : ∀ (ts : List Tree) (i : Nat), i < (layout ts).length →
    ∃ (c : Ctx) (t : Tree), c.fill [t] = ts ∧ c.pos = i
  | t :: rest, i, hi => by
    simp only [layout_cons, List.length_append] at hi
    by_cases hit : i < t.records.length
    · by_cases h0 : i = 0
      · exact ⟨.top [] rest, t, rfl, by simp [Ctx.top_pos, h0]⟩
      · -- the position lies below the root of `t`: find it among the children
        have hk : i - 1 < (layout t.kids).length := by
          rw [records_eq] at hit; simp at hit; omega
        obtain ⟨c, u, hc, hp⟩ := exists_fill t.kids (i - 1) hk
        refine ⟨(Ctx.top [] rest).comp (Ctx.comp (.child (.top [] []) t.head [] []) c), u, ?_, ?_⟩
        · rw [Ctx.comp_fill, Ctx.comp_fill, Ctx.child_fill, Ctx.top_fill, Ctx.top_fill, hc]
          simp [eta]
        · rw [Ctx.comp_pos, Ctx.comp_pos, Ctx.child_pos, hp, Ctx.top_pos, Ctx.top_pos]
          simp; omega
    · obtain ⟨c, u, hc, hp⟩ := exists_fill rest (i - t.records.length) (by omega)
      refine ⟨(Ctx.top [t] []).comp c, u, ?_, ?_⟩
      · rw [Ctx.comp_fill, Ctx.top_fill, hc]
        simp
      · rw [Ctx.comp_pos, hp, Ctx.top_pos]
        simp; omega
termination_by ts => (layout ts).length
decreasing_by
  all_goals simp only [layout_cons, List.length_append]
  · rw [records_eq]; simp; omega
  · have := t.size_pos; unfold size at this; omega

/-- Three ways a run `X` between `A` and `B` meets one element `Y` of the same list: `Y` lies
before the run, in it, or after it. -/
theorem append_eq_cons_cases {α : Type} {A X B C D : List α} {Y : α}
    (h : A ++ X ++ B = C ++ Y :: D) :
    (∃ M, A = C ++ Y :: M ∧ D = M ++ X ++ B) ∨
    (∃ X₁ X₂, X = X₁ ++ Y :: X₂ ∧ C = A ++ X₁ ∧ D = X₂ ++ B) ∨
    (∃ M, C = A ++ X ++ M ∧ B = M ++ Y :: D) := by
  rcases List.append_eq_append_iff.mp h with ⟨M, hC, hB⟩ | ⟨c', hAX, hYD⟩
  · exact .inr (.inr ⟨M, hC, hB⟩)
  cases c' with
  | nil =>
    simp only [List.append_nil, List.nil_append] at hAX hYD
    exact .inr (.inr ⟨[], by simp [hAX], by simp [hYD]⟩)
  | cons y c'' =>
    simp only [List.cons_append, List.cons.injEq] at hYD
    obtain ⟨rfl, rfl⟩ := hYD
    rcases List.append_eq_append_iff.mp hAX with ⟨a', hC, hX⟩ | ⟨c₀, hA, hX⟩
    · exact .inr (.inl ⟨a', c'', hX, hC, rfl⟩)
    cases c₀ with
    | nil =>
      simp only [List.append_nil, List.nil_append] at hA hX
      exact .inr (.inl ⟨[], c'', by simp [hX], by simp [hA], rfl⟩)
    | cons z c₀' =>
      simp only [List.cons_append, List.cons.injEq] at hX
      obtain ⟨rfl, rfl⟩ := hX
      exact .inl ⟨c₀', hA, by simp⟩

namespace Ctx

/-- A hole with an outermost level `f` is a hole of the children of `f`'s record, which is a root. -/
theorem fill_of_up_eq {c : Ctx} {fs : List Frame} {f : Frame} (h : c.up = fs ++ [f])
    (ts : List Tree) :
    c.fill ts = c.left ++ node f.head ((⟨fs, f.left, f.right⟩ : Ctx).fill ts) :: c.right := by
  simp [fill, h, Frame.closeAll_append, Frame.closeAll, Frame.close]

theorem pos_of_up_eq {c : Ctx} {fs : List Frame} {f : Frame} (h : c.up = fs ++ [f]) :
    c.pos = (layout c.left).length + 1 + (⟨fs, f.left, f.right⟩ : Ctx).pos := by
  simp [pos, before, h, Frame.before_append, Frame.before]
  omega

/-- Two holes of one forest, the first holding a run and the second one subtree whose root
record is not in the run: either the run lies strictly inside the subtree, at a hole `e` of it
whose levels are the innermost levels of the first hole, or the two are apart, and then the subtree keeps a hole at the same depth once the run is taken
out, at the same position if it comes first and the run's records earlier if it comes after. -/
theorem fill_cases {c₁ c₂ : Ctx} {us : List Tree} {t : Tree} (h : c₁.fill us = c₂.fill [t])
    (hout : t.head ∉ layout us) :
    (∃ e : Ctx, e.up ≠ [] ∧ e.fill us = [t] ∧ (∀ vs, c₂.fill (e.fill vs) = c₁.fill vs) ∧
      c₁.pos = c₂.pos + e.pos ∧ ∃ gs, c₁.up = e.up ++ gs) ∨
    ∀ vs, ∃ c' : Ctx, c'.fill [t] = c₁.fill vs ∧ c'.up.length = c₂.up.length ∧
      (c'.pos = c₂.pos ∧ c₂.pos + t.size ≤ c₁.pos ∨
        c'.pos + (layout us).length = c₂.pos + (layout vs).length ∧
          c₁.pos + (layout us).length ≤ c₂.pos) := by
  obtain ⟨Y, hY⟩ := Frame.closeAll_singleton c₂.up t
  have hYr : Y.records = Frame.before c₂.up ++ t.records ++ Frame.after c₂.up := by
    have := Frame.layout_closeAll c₂.up [t]
    rwa [hY, layout_singleton, layout_singleton] at this
  have hG : c₁.left ++ Frame.closeAll c₁.up us ++ c₁.right = c₂.left ++ Y :: c₂.right := by
    have := h
    simp only [fill, hY] at this
    simpa using this
  have hX := Frame.layout_closeAll c₁.up
  have hp₁ : c₁.pos = (layout c₁.left).length + (Frame.before c₁.up).length := by
    simp [pos, before]
  have hp₂ : c₂.pos = (layout c₂.left).length + (Frame.before c₂.up).length := by
    simp [pos, before]
  have hsize : Y.size = (Frame.before c₂.up).length + t.size + (Frame.after c₂.up).length := by
    simp only [size, hYr, List.length_append]
  rcases append_eq_cons_cases hG with ⟨M, hA, hD⟩ | ⟨X₁, X₂, hXs, hC, hD⟩ | ⟨M, hC, hB⟩
  · -- the subtree comes before the run
    right
    intro vs
    refine ⟨⟨c₂.up, c₂.left, M ++ Frame.closeAll c₁.up vs ++ c₁.right⟩, ?_, rfl, .inl ⟨?_, ?_⟩⟩
    · simp [fill, hY, hA]
    · simp [pos, before]
    · rw [hp₁, hp₂, hA]
      simp only [layout_append, layout_cons, List.length_append]
      simp only [Tree.size] at hsize ⊢
      omega
  · -- the subtree's root tree is in the run
    rcases List.eq_nil_or_concat c₁.up with h₁ | ⟨fs, f, h₁⟩
    · exfalso
      rw [h₁, Frame.closeAll] at hXs
      apply hout
      rw [hXs, layout_append, layout_cons]
      refine List.mem_append_right _ (List.mem_append_left _ ?_)
      rw [hYr, records_eq]
      simp
    rw [List.concat_eq_append] at h₁
    have hX1 : Frame.closeAll c₁.up us = [f.close (Frame.closeAll fs us)] := by
      rw [h₁, Frame.closeAll_append]
      rfl
    rw [hX1] at hXs
    obtain ⟨rfl, rfl, hYf⟩ : X₁ = [] ∧ X₂ = [] ∧ Y = f.close (Frame.closeAll fs us) := by
      rcases X₁ with _ | ⟨x, X₁⟩
      · simp only [List.nil_append, List.cons.injEq] at hXs
        exact ⟨rfl, hXs.2.symm, hXs.1.symm⟩
      · simp at hXs
    simp only [List.append_nil, List.nil_append] at hC hD
    rcases List.eq_nil_or_concat c₂.up with h₂ | ⟨gs, g, h₂⟩
    · -- the subtree is the root tree holding the run
      have hYt : Y = t := by
        rw [h₂] at hY
        simpa [Frame.closeAll] using hY.symm
      left
      refine ⟨⟨c₁.up, [], []⟩, by simp [h₁], ?_, fun vs => ?_, ?_, [], by simp⟩
      · simp [fill, hX1, ← hYf, hYt]
      · simp [fill, h₂, Frame.closeAll, hC, hD]
      · rw [hp₁, hp₂, h₂, hC]
        simp [pos, before, Frame.before]
    · -- both holes are below the same root tree: compare them one level down
      rw [List.concat_eq_append] at h₂
      have hY2 : Y = g.close (Frame.closeAll gs [t]) := by
        rw [h₂, Frame.closeAll_append] at hY
        simpa [Frame.closeAll] using hY.symm
      rw [hY2] at hYf
      simp only [Frame.close, node.injEq] at hYf
      obtain ⟨hhead, hkids⟩ := hYf
      have hin : (⟨fs, f.left, f.right⟩ : Ctx).fill us = (⟨gs, g.left, g.right⟩ : Ctx).fill [t] := by
        simp only [fill]
        exact hkids.symm
      have hlen : gs.length < c₂.up.length := by
        rw [h₂]
        simp
      rw [pos_of_up_eq h₁] at ⊢
      rw [pos_of_up_eq h₂]
      rcases fill_cases hin hout with ⟨e, he, heu, hev, hep, gs', hgs'⟩ | hdis
      · left
        refine ⟨e, he, heu, fun vs => ?_, ?_, gs' ++ [f], ?_⟩
        · rw [fill_of_up_eq h₂, fill_of_up_eq h₁, hev vs, hC, hD, hhead]
        · rw [hep, hC]
          omega
        · rw [h₁, show fs = e.up ++ gs' from hgs', List.append_assoc]
      · right
        intro vs
        obtain ⟨c'', hc'', hlen', hpos⟩ := hdis vs
        have hup : (⟨c''.up ++ [⟨f.head, c''.left, c''.right⟩], c₁.left, c₁.right⟩ : Ctx).up =
            c''.up ++ [⟨f.head, c''.left, c''.right⟩] := rfl
        refine ⟨⟨c''.up ++ [⟨f.head, c''.left, c''.right⟩], c₁.left, c₁.right⟩, ?_, ?_, ?_⟩
        · rw [fill_of_up_eq hup, fill_of_up_eq h₁]
          exact congrArg (fun x => c₁.left ++ node f.head x :: c₁.right) hc''
        · simp [hlen', h₂]
        · have heta : (⟨c''.up, c''.left, c''.right⟩ : Ctx) = c'' := rfl
          rw [pos_of_up_eq hup, heta, hC]
          dsimp only
          omega
  · -- the subtree comes after the run
    right
    intro vs
    refine ⟨⟨c₂.up, c₁.left ++ Frame.closeAll c₁.up vs ++ M, c₂.right⟩, ?_, rfl, .inr ⟨?_, ?_⟩⟩
    · simp [fill, hY, hB]
    · rw [hp₂, hC]
      simp [pos, before, hX]
      omega
    · rw [hp₁, hp₂, hC]
      simp [hX]
      omega
termination_by c₂.up.length

/-- A hole below the root of a one-tree forest is a hole among that root's children. -/
theorem exists_kids_hole {e : Ctx} (he : e.up ≠ []) {t u : Tree} (h : e.fill [t] = [u]) :
    ∃ g : Ctx, (∀ vs, e.fill vs = [node u.head (g.fill vs)]) ∧ e.pos = 1 + g.pos := by
  obtain ⟨fs, f, hf⟩ : ∃ fs f, e.up = fs ++ [f] := by
    rcases List.eq_nil_or_concat e.up with h0 | ⟨fs, f, hf⟩
    · exact absurd h0 he
    · exact ⟨fs, f, by rw [hf, List.concat_eq_append]⟩
  rw [fill_of_up_eq hf] at h
  have hl : e.left = [] ∧ e.right = [] := by
    have := congrArg List.length h
    simp at this
    constructor <;> apply List.eq_nil_of_length_eq_zero <;> omega
  rw [hl.1, hl.2, List.nil_append, List.cons.injEq] at h
  refine ⟨⟨fs, f.left, f.right⟩, fun vs => ?_, ?_⟩
  · rw [fill_of_up_eq hf, hl.1, hl.2, ← h.1]
    rfl
  · rw [pos_of_up_eq hf, hl.1]
    simp only [layout_nil, List.length_nil]

/-- A hole below the root of a one-tree forest keeps the forest one tree, with the same root
record, whatever run it holds. -/
theorem fill_single {e : Ctx} (he : e.up ≠ []) {t u : Tree} (h : e.fill [t] = [u]) (vs : List Tree) :
    ∃ u' : Tree, e.fill vs = [u'] ∧ u'.head = u.head := by
  obtain ⟨g, hg, -⟩ := exists_kids_hole he h
  exact ⟨_, hg vs, rfl⟩

/-- A subtree outside the subtree `T` keeps a hole at the same depth, with the same root record,
once `T` is taken out of the forest. -/
theorem exists_hole_without {cT cO : Ctx} {T O : Tree} (h : cO.fill [O] = cT.fill [T])
    (hout : O.head ∉ T.records) :
    ∃ (c : Ctx) (O' : Tree), c.fill [O'] = cT.fill [] ∧ c.up.length = cO.up.length ∧
      O'.head = O.head := by
  rcases fill_cases h.symm (by rwa [layout_singleton]) with ⟨e, he, heu, hev, -, -⟩ | hdis
  · obtain ⟨u', hu', hhead⟩ := fill_single he heu []
    exact ⟨cO, u', by rw [← hu', hev], rfl, hhead⟩
  · obtain ⟨c', hc', hlen, -⟩ := hdis []
    exact ⟨c', O, hc', hlen, rfl⟩

/-- The hole with the records around it rewritten by `φ`. -/
def map (φ : Node → Node) (c : Ctx) : Ctx :=
  ⟨c.up.map fun f => ⟨φ f.head, mapAll φ f.left, mapAll φ f.right⟩, mapAll φ c.left, mapAll φ c.right⟩

theorem closeAll_map (φ : Node → Node) (fs : List Frame) (ts : List Tree) :
    Frame.closeAll (fs.map fun f => ⟨φ f.head, mapAll φ f.left, mapAll φ f.right⟩) (mapAll φ ts) =
      mapAll φ (Frame.closeAll fs ts) := by
  induction fs generalizing ts with
  | nil => rfl
  | cons f fs ih =>
    simp only [List.map_cons, Frame.closeAll]
    rw [← ih]
    simp [Frame.close]

/-- Rewriting the records of a forest rewrites those around each of its holes and in it. -/
theorem map_fill (φ : Node → Node) (c : Ctx) (ts : List Tree) :
    (c.map φ).fill (mapAll φ ts) = mapAll φ (c.fill ts) := by
  simp [map, fill, closeAll_map]

theorem before_map (φ : Node → Node) (fs : List Frame) :
    (Frame.before (fs.map fun f => ⟨φ f.head, mapAll φ f.left, mapAll φ f.right⟩)).length =
      (Frame.before fs).length := by
  induction fs with
  | nil => rfl
  | cons f fs ih =>
    simp only [List.map_cons, Frame.before, List.length_append, List.length_cons, ih,
      layout_mapAll, List.length_map]

@[simp] theorem map_pos (φ : Node → Node) (c : Ctx) : (c.map φ).pos = c.pos := by
  simp only [pos, before, map, List.length_append, layout_mapAll, List.length_map, before_map]

@[simp] theorem map_up_length (φ : Node → Node) (c : Ctx) : (c.map φ).up.length = c.up.length := by
  simp [map]

theorem frames_map_eq_self {φ : Node → Node} :
    ∀ fs : List Frame, (∀ nd ∈ Frame.before fs ++ Frame.after fs, φ nd = nd) →
      (fs.map fun f => ⟨φ f.head, mapAll φ f.left, mapAll φ f.right⟩) = fs
  | [], _ => rfl
  | f :: fs, hφ => by
    simp only [Frame.before, Frame.after, List.mem_append, List.mem_cons] at hφ
    rw [List.map_cons, frames_map_eq_self fs fun nd hnd => hφ nd (by
      rcases List.mem_append.mp hnd with h | h
      · exact .inl (.inl h)
      · exact .inr (.inr h))]
    rw [hφ f.head (.inl (.inr (.inl rfl))),
      mapAll_eq_self f.left fun nd hnd => hφ nd (.inl (.inr (.inr hnd))),
      mapAll_eq_self f.right fun nd hnd => hφ nd (.inr (.inl hnd))]

theorem map_eq_self {φ : Node → Node} {c : Ctx} (hφ : ∀ nd ∈ layout (c.fill []), φ nd = nd) :
    c.map φ = c := by
  rw [layout_fill, layout_nil, List.append_nil] at hφ
  simp only [before, after, List.mem_append] at hφ
  cases c with
  | mk up left right =>
    simp only [map]
    rw [frames_map_eq_self up fun nd hnd => hφ nd (by
        rcases List.mem_append.mp hnd with h | h
        · exact .inl (.inr h)
        · exact .inr (.inl h)),
      mapAll_eq_self left fun nd hnd => hφ nd (.inl (.inl hnd)),
      mapAll_eq_self right fun nd hnd => hφ nd (.inr (.inr hnd))]

/-! ### Neighbours of a hole -/

/-- The hole in front of the subtree `u`, which follows `c`'s hole. -/
def pushRight (c : Ctx) (u : Tree) : Ctx :=
  match c.up with
  | [] => ⟨[], c.left, u :: c.right⟩
  | f :: fs => ⟨⟨f.head, f.left, u :: f.right⟩ :: fs, c.left, c.right⟩

/-- The hole behind the subtree `u`, which precedes `c`'s hole. -/
def pushLeft (c : Ctx) (u : Tree) : Ctx :=
  match c.up with
  | [] => ⟨[], c.left ++ [u], c.right⟩
  | f :: fs => ⟨⟨f.head, f.left ++ [u], f.right⟩ :: fs, c.left, c.right⟩

theorem pushRight_fill (c : Ctx) (u : Tree) (ts : List Tree) :
    (c.pushRight u).fill ts = c.fill (ts ++ [u]) := by
  unfold pushRight
  split <;> rename_i h <;> simp [fill, h, Frame.closeAll, Frame.close]

theorem pushLeft_fill (c : Ctx) (u : Tree) (ts : List Tree) :
    (c.pushLeft u).fill ts = c.fill (u :: ts) := by
  unfold pushLeft
  split <;> rename_i h <;> simp [fill, h, Frame.closeAll, Frame.close]

@[simp] theorem pushRight_pos (c : Ctx) (u : Tree) : (c.pushRight u).pos = c.pos := by
  unfold pushRight
  split <;> rename_i h <;> simp [pos, before, h, Frame.before]

@[simp] theorem pushLeft_pos (c : Ctx) (u : Tree) : (c.pushLeft u).pos = c.pos + u.size := by
  unfold pushLeft
  split <;> rename_i h
  · simp [pos, before, h, Frame.before, size]
  · simp [pos, before, h, Frame.before, size]
    omega

@[simp] theorem pushRight_up_length (c : Ctx) (u : Tree) :
    (c.pushRight u).up.length = c.up.length := by
  unfold pushRight
  split <;> rename_i h <;> simp [h]

@[simp] theorem pushLeft_up_length (c : Ctx) (u : Tree) :
    (c.pushLeft u).up.length = c.up.length := by
  unfold pushLeft
  split <;> rename_i h <;> simp [h]

/-- A hole of a forest is still a hole once a root is put back between two roots. -/
theorem exists_insert_root {c : Ctx} {u : Tree} {L R : List Tree} (hc : c.fill [u] = L ++ R)
    (T : Tree) :
    ∃ c' : Ctx, c'.up = c.up ∧ c'.fill [u] = L ++ T :: R ∧
      (c'.pos = c.pos ∧ c.pos + u.size ≤ (layout L).length ∨
        c'.pos = c.pos + T.size ∧ (layout L).length ≤ c.pos) := by
  obtain ⟨V, hV⟩ := Frame.closeAll_singleton c.up u
  have hVr : V.records = Frame.before c.up ++ u.records ++ Frame.after c.up := by
    have := Frame.layout_closeAll c.up [u]
    rwa [hV, layout_singleton, layout_singleton] at this
  have hsplit : L ++ [] ++ R = c.left ++ V :: c.right := by
    rw [List.append_nil, ← hc, fill, hV]
    simp
  have hpos : c.pos = (layout c.left).length + (Frame.before c.up).length := by
    simp [pos, before]
  rcases append_eq_cons_cases hsplit with ⟨M, hL, hR⟩ | ⟨X₁, X₂, hX, -, -⟩ | ⟨M, hl, hr⟩
  · refine ⟨⟨c.up, c.left, M ++ T :: R⟩, rfl, ?_, .inl ⟨?_, ?_⟩⟩
    · simp [fill, hV, hL]
    · simp [pos, before]
    · rw [hpos, hL]
      simp only [layout_append, layout_cons, List.length_append, size, hVr] at *
      omega
  · simp at hX
  · refine ⟨⟨c.up, L ++ T :: M, c.right⟩, rfl, ?_, .inr ⟨?_, ?_⟩⟩
    · simp [fill, hV, hr]
    · rw [hpos, hl]
      simp [pos, before, size]
      omega
    · rw [hpos, hl]
      simp
      omega

end Ctx

end Tree

end TreeArena

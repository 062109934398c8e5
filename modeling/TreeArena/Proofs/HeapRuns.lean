import TreeArena.Proofs.Operands

/-!
# Runs of handle operations

A client holds owning handles and makes the public calls of the handle layer in any order
(`Heap.Call`): the queries, which only read (`Heap.Query`), the edits (`Heap.Edit`), creating,
copying, assigning and releasing handles, navigation, clones, imports and limits; and it builds
expressions (`Heap.Op.operator`). It gives up a handle only to a call that takes its unit: the
target of `release` and of `assign`, and the operands of a constructor. A call may fault; the heap
is then as the call left it.

Every call keeps the heap exact for the handles the client holds (`Heap.Exact.call`), and one
that faults leaves the heap as it was. A constructor may fault halfway: the units of the handles
it took over stay in the heap although the client holds none of them (`Heap.Exact.operator_after`).
A run keeps the heap exact for the client's handles together with the handles lost so, and loses
none when no constructor faulted (`Heap.Ops.exact`).
-/

namespace TreeArena

namespace Heap

open Pool TreeArena.Tree

variable {α : Type} {h h' : Heap} {own own' lost : List Handle}

/-! ### Queries and edits -/

/-- The queries of the handle layer: each reads the heap and changes nothing. -/
inductive Query where
  | kind (r : Handle)
  | payload (r : Handle)
  | retainCount (r : Handle)
  | childCount (r : Handle)
  | descendants (r : Handle) (self : Bool)
  | indexOf (r t : Handle)
  | hasChild (r t : Handle)
  | hasSibling (r t : Handle)
  | hasAncestor (r t : Handle) (self : Bool)
  | encodeTree (r : Handle)
  | failureOf (k : Nat)

/-- A query run for its effect on the heap. -/
def Query.run : Query → HeapM Unit
  | .kind r => do let _ ← Heap.kind r
  | .payload r => do let _ ← Heap.payload r
  | .retainCount r => do let _ ← Heap.retainCount r
  | .childCount r => do let _ ← Heap.childCount r
  | .descendants r self => do let _ ← Heap.descendants r self
  | .indexOf r t => do let _ ← Heap.indexOf r t
  | .hasChild r t => do let _ ← Heap.hasChild r t
  | .hasSibling r t => do let _ ← Heap.hasSibling r t
  | .hasAncestor r t self => do let _ ← Heap.hasAncestor r t self
  | .encodeTree r => do let _ ← Heap.encodeTree r
  | .failureOf k => do let _ ← Heap.failureOf k

/-- The edits of the handle layer: each keeps the handles' units where they are. -/
inductive Edit where
  | addChild (r t : Handle) (index count : Int)
  | removeChildAt (r : Handle) (i : Int)
  | removeChild (r t : Handle) (count : Int)
  | removeChildren (r : Handle)
  | replaceChild (r old new : Handle)
  | replaceChildAt (r : Handle) (i : Int) (new : Handle)
  | replaceWith (r t : Handle)
  | replaceWithFailure (r : Handle) (count : Int)
  | merge (r t : Handle) (i : Int)

/-- The handle operation an edit runs. -/
def Edit.run : Edit → HeapM Unit
  | .addChild r t index count => Heap.addChild r t index count
  | .removeChildAt r i => Heap.removeChildAt r i
  | .removeChild r t count => Heap.removeChild r t count
  | .removeChildren r => Heap.removeChildren r
  | .replaceChild r old new => Heap.replaceChild r old new
  | .replaceChildAt r i new => Heap.replaceChildAt r i new
  | .replaceWith r t => Heap.replaceWith r t
  | .replaceWithFailure r count => Heap.replaceWithFailure r count
  | .merge r t i => Heap.merge r t i

theorem reads_discard {m : HeapM α} {P : α → Prop} (hr : Reads m h P) :
    Reads (do let _ ← m) h fun _ => True :=
  hr.bind fun _ _ => reads_pure trivial

/-- The sibling query looks for `t` among the children of `r`'s parent, and changes nothing. -/
theorem reads_hasSibling (r t : Handle) : Reads (hasSibling r t) h fun _ => True := by
  unfold hasSibling
  refine reads_get.bind fun h' hh => ?_
  subst hh
  split
  · exact reads_pure trivial
  · refine (reads_locate r).bind fun off _ => (reads_homeOf r).bind fun k _ =>
      (reads_readPool k id).bind fun p _ => ?_
    split
    · exact reads_pure trivial
    · exact (reads_hasChild _ t).mono fun _ _ => trivial

theorem Query.reads (q : Query) : Reads q.run h fun _ => True := by
  cases q with
  | kind r => exact reads_discard (reads_inspect r _)
  | payload r => exact reads_discard (reads_inspect r _)
  | retainCount r => exact reads_discard (reads_inspect r _)
  | childCount r => exact reads_discard (reads_inspect r _)
  | descendants r self => exact reads_discard (reads_inspect r _)
  | indexOf r t => exact reads_discard (reads_indexOf r t)
  | hasChild r t => exact reads_discard (reads_hasChild r t)
  | hasSibling r t => exact reads_discard (reads_hasSibling r t)
  | hasAncestor r t self => exact reads_discard (reads_hasAncestor r t self)
  | encodeTree r => exact reads_discard (reads_inspect r _)
  | failureOf k => exact reads_discard (reads_readPool k _)

theorem Exact.edit (hE : h.Exact own) (e : Edit) : Guarded e.run h fun _ h' => Keeps own h h' := by
  cases e with
  | addChild r t index count => exact hE.addChild r t index count
  | removeChildAt r i => exact hE.removeChildAt r i
  | removeChild r t count => exact hE.removeChild r t count
  | removeChildren r => exact hE.removeChildren r
  | replaceChild r old new => exact hE.replaceChild r old new
  | replaceChildAt r i new => exact hE.replaceChildAt r i new
  | replaceWith r t => exact hE.replaceWith r t
  | replaceWithFailure r count => exact hE.replaceWithFailure r count
  | merge r t i => exact hE.merge r t i

/-! ### Calls -/

/-- The public calls of the handle layer, the expression constructors apart. -/
inductive Call where
  | query (q : Query)
  | edit (e : Edit)
  | create (k kind : Nat) (payload : List UInt8)
  | copy (r : Handle)
  | assign (r o : Handle)
  | release (r : Handle)
  | childAt (r : Handle) (i : Int)
  | parent (r : Handle)
  | clone (r : Handle)
  | decodeInto (k : Nat) (data : List UInt8)
  | setLimit (k : Nat) (n : Int)

/-- A call run, handing back the handle it returns, if any; the cleared handle a release returns
names no node and is left out. -/
def Call.run : Call → HeapM (Option Handle)
  | .query q => do q.run; return none
  | .edit e => do e.run; return none
  | .create k kind payload => do return some (← Heap.create k kind payload)
  | .copy r => do return some (← Heap.copy r)
  | .assign r o => do return some (← Heap.assign r o)
  | .release r => do let _ ← Heap.release r; return none
  | .childAt r i => do return some (← Heap.childAt r i)
  | .parent r => do return some (← Heap.parent r)
  | .clone r => do return some (← Heap.clone r)
  | .decodeInto k data => do return (← Heap.decodeInto k data).toOption
  | .setLimit k n => do Heap.onPool k (Pool.setLimit n); return none

/-- The arguments have the sizes the operations take: a node type fits a byte. -/
def Call.Fits : Call → Prop
  | .create _ kind _ => kind < 256
  | _ => True

instance : DecidablePred Call.Fits := fun c =>
  match c with
  | .create _ kind _ => Nat.decLt kind 256
  | .query _ | .edit _ | .copy _ | .assign _ _ | .release _ | .childAt _ _ | .parent _ | .clone _
  | .decodeInto _ _ | .setLimit _ _ => isTrue trivial

/-- The handle whose unit the call takes. -/
def Call.takes : Call → Option Handle
  | .assign r _ => some r
  | .release r => some r
  | _ => none

/-- The handles of `own` a client keeps once the call took its unit. -/
def Call.rest (c : Call) (own : List Handle) : List Handle := c.takes.elim own own.erase

/-- The heap a run of `m` leaves, whether it returns or faults. -/
def after (m : HeapM α) (h : Heap) : Heap :=
  match m.run h with
  | .ok _ h' => h'
  | .error _ h' => h'

/-- The handles a client that held `own` holds after a call: those it kept, with the handle handed
back when it owns a unit; all of them when the call faulted. -/
def Call.holds (c : Call) (own : List Handle) (h : Heap) : List Handle :=
  match c.run.run h with
  | .ok res h' => res.elim (c.rest own) fun x => gain h' x (c.rest own)
  | .error _ _ => own

/-- The handles a client holds after a run of `m` that hands back a handle: the handle joins
them when it owns a unit. -/
def gainAfter (m : HeapM Handle) (own : List Handle) (h : Heap) : List Handle :=
  match m.run h with
  | .ok c h' => gain h' c own
  | .error _ _ => own

/-- Whether a run of `m` from `h` faults. -/
def faults (m : HeapM α) (h : Heap) : Bool :=
  match m.run h with
  | .ok _ _ => false
  | .error _ _ => true

/-- One call of a client that holds the handles `own` in `h` and holds `own'` in the heap `h'` the
call leaves; the flag is set when the call is a constructor that faulted. A handle is given up
only if it owns a unit the client holds: the target of `release` and `assign`, and the operands
of a constructor, which take them over. -/
inductive Op : Bool → List Handle → Heap → List Handle → Heap → Prop where
  | call {own : List Handle} {h : Heap} (c : Call) (hc : c.Fits)
      (ht : ∀ r, c.takes = some r → h.owns r = true → r ∈ own) :
      Op false own h (c.holds own h) (after c.run h)
  | operator {own : List Handle} {h : Heap} (k t : Nat) (cs : List Handle) (ht : t < 256)
      (hcs : cs.Subperm own) :
      Op (faults (Expr.operator k t cs) h) own h (gainAfter (Expr.operator k t cs) (own.diff cs) h)
        (after (Expr.operator k t cs) h)

/-- A run of calls; the flag is set when one of them is a constructor that faulted. -/
inductive Ops : Bool → List Handle → Heap → List Handle → Heap → Prop where
  | refl {own : List Handle} {h : Heap} : Ops false own h own h
  | step {b b' : Bool} {own own₁ own' : List Handle} {h h₁ h' : Heap}
      (hop : Op b own h own₁ h₁) (hrest : Ops b' own₁ h₁ own' h') : Ops (b || b') own h own' h'

/-! ### What one call keeps -/

theorem gain_append (h : Heap) (c : Handle) (own lost : List Handle) :
    gain h c (own ++ lost) = gain h c own ++ lost := by
  unfold gain
  split <;> rfl

/-- Assigning a handle to itself changes nothing and keeps its unit. -/
theorem Exact.gain_erase_self (hE : h.Exact own) {r : Handle} (hr : h.owns r = true → r ∈ own) :
    h.Exact (gain h r (own.erase r)) := by
  unfold gain
  split
  · rename_i ho
    exact hE.perm (List.perm_cons_erase (hr ho)).symm
  · rename_i ho
    rwa [List.erase_of_not_mem fun hm => ho (hE.owns hm)]

/-- Every call keeps the heap exact for the handles the client holds after it, when the unit
it takes is one the client holds; a call that faults leaves the heap as it was. -/
theorem Exact.call (hE : h.Exact own) {c : Call} (hc : c.Fits)
    (ht : ∀ r, c.takes = some r → h.owns r = true → r ∈ own) :
    Guarded c.run h fun res h' => h'.Exact (res.elim (c.rest own) fun x => gain h' x (c.rest own)) := by
  cases c with
  | query q => exact (Query.reads q).bind fun _ _ => guarded_pure hE
  | edit e => exact Guarded.bind_ok (hE.edit e) fun _ _ hk => returns_pure hk.exact
  | create k kind payload => exact Guarded.bind_ok (hE.create k hc payload) fun _ _ hE' => returns_pure hE'
  | copy r => exact Guarded.bind_ok (hE.copy r) fun _ _ hQ => returns_pure hQ.1
  | assign r o =>
    have hr := ht r rfl
    by_cases hro : r = o
    · -- assigning a handle to itself returns it and changes nothing
      subst hro
      refine Returns.guarded ⟨some r, h, ?_, hE.gain_erase_self hr⟩
      simp [Call.run, Heap.assign]
    · exact Guarded.bind_ok (hE.assign hr hro) fun _ _ hE' => returns_pure hE'
  | release r =>
    exact Returns.guarded ((hE.release (ht r rfl)).bind fun _ _ hQ => returns_pure hQ.2.1)
  | childAt r i => exact Guarded.bind_ok (hE.childAt r i) fun _ _ hQ => returns_pure hQ.1
  | parent r => exact Guarded.bind_ok (hE.parent r) fun _ _ hQ => returns_pure hQ.1
  | clone r => exact Guarded.bind_ok (hE.clone r) fun _ _ hE' => returns_pure hE'
  | decodeInto k data => exact Guarded.bind_ok (hE.decodeInto k data) fun _ _ hQ => returns_pure hQ.1
  | setLimit k n => exact Guarded.bind_ok (hE.setLimit k n) fun _ _ hE' => returns_pure hE'

/-- The handles kept by a call are kept beside handles lost before. -/
theorem Exact.rest_append (hE : h.Exact (own ++ lost)) {c : Call}
    (ht : ∀ r, c.takes = some r → h.owns r = true → r ∈ own) :
    c.rest (own ++ lost) = c.rest own ++ lost := by
  unfold Call.rest
  cases htk : c.takes with
  | none => rfl
  | some r =>
    by_cases ho : h.owns r = true
    · exact List.erase_append_left lost (ht r htk ho)
    · have hmem : r ∉ own ++ lost := fun hm => ho (hE.owns hm)
      simp only [Option.elim_some]
      rw [List.erase_of_not_mem hmem,
        List.erase_of_not_mem fun hm => hmem (List.mem_append_left lost hm)]

/-- A call keeps the heap exact for the handles held after it and those lost before. -/
theorem Exact.call_after (hE : h.Exact (own ++ lost)) {c : Call} (hc : c.Fits)
    (ht : ∀ r, c.takes = some r → h.owns r = true → r ∈ own) :
    (after c.run h).Exact (c.holds own h ++ lost) := by
  have hg := hE.call hc fun r htk ho => List.mem_append_left lost (ht r htk ho)
  rw [hE.rest_append ht] at hg
  unfold after Call.holds
  cases hm : c.run.run h with
  | ok res h' =>
    have hE' := hg.ok hm
    cases res <;> simpa [gain_append] using hE'
  | error e h' =>
    obtain rfl := hg.error hm
    exact hE

theorem operands_perm {cs : List Handle} (hcs : cs.Subperm own) (lost : List Handle) :
    (cs ++ (own.diff cs ++ lost)).Perm (own ++ lost) := by
  rw [← List.append_assoc]
  exact (List.subperm_append_diff_self_of_count_le (List.subperm_ext_iff.mp hcs)).append_right lost

/-- A constructor over operands the client holds: it hands back the new node's handle for them,
or faults and loses some handles' units, which the client then no longer holds. -/
theorem Exact.operator_after (hE : h.Exact (own ++ lost)) (k : Nat) {t : Nat} (ht : t < 256)
    {cs : List Handle} (hcs : cs.Subperm own) :
    ∃ L, (after (Expr.operator k t cs) h).Exact
        (gainAfter (Expr.operator k t cs) (own.diff cs) h ++ L ++ lost) ∧
      (faults (Expr.operator k t cs) h = false → L = []) := by
  have hends := (hE.perm (operands_perm hcs lost)).operator k ht
  unfold after gainAfter faults
  unfold Ends at hends
  cases hm : (Expr.operator k t cs).run h with
  | ok c h' =>
    rw [hm] at hends
    exact ⟨[], by simpa [gain_append] using hends, fun _ => rfl⟩
  | error e h' =>
    rw [hm] at hends
    obtain ⟨L, hL⟩ := hends
    refine ⟨L, hL.perm ?_, fun h => absurd h (by simp)⟩
    rw [← List.append_assoc]
    exact List.perm_append_comm.append_right lost

/-- One call keeps the heap exact for the handles held after it and those lost before, with
some handles more lost when it is a constructor that faulted. -/
theorem Op.exact {b : Bool} (hop : Op b own h own' h') (hE : h.Exact (own ++ lost)) :
    ∃ L, h'.Exact (own' ++ L ++ lost) ∧ (b = false → L = []) := by
  cases hop with
  | call c hc ht => exact ⟨[], by simpa using hE.call_after hc ht, fun _ => rfl⟩
  | operator k t cs ht hcs => exact hE.operator_after k ht hcs

/-- A run keeps the heap exact for the handles held at its end and those lost on the way, and
loses none unless a constructor faulted. -/
theorem Ops.exact {b : Bool} (hrun : Ops b own h own' h') (hE : h.Exact (own ++ lost)) :
    ∃ L, h'.Exact (own' ++ L ++ lost) ∧ (b = false → L = []) := by
  -- induction on the run, carrying the handles lost so far
  induction hrun generalizing lost with
  | refl => exact ⟨[], by simpa using hE, fun _ => rfl⟩
  | step hop _ ih =>
    obtain ⟨L₁, hE₁, hnil₁⟩ := hop.exact hE
    rw [List.append_assoc] at hE₁
    obtain ⟨L₂, hE₂, hnil₂⟩ := ih hE₁
    refine ⟨L₂ ++ L₁, by simpa using hE₂, fun hb => ?_⟩
    simp only [Bool.or_eq_false_iff] at hb
    simp [hnil₁ hb.1, hnil₂ hb.2]

end Heap

end TreeArena

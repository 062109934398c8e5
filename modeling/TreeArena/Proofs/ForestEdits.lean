import TreeArena.Proofs.Links

/-!
# Edits of the abstract forest

The abstract forest maps each live identifier to its node: type, payload, ordered children and
retain count (`NodeView`). The public edits act on it as relations between the forest before and
the forest after, built from two moves:

* `Forest.Adopts F t F'`: the node `t` is readied for a new parent; a child leaves its parent's
  children and keeps the edge's unit, a root gains a unit for the edge;
* `Forest.Releases F xs F'`: the nodes `xs` each give back one unit, first to last; a node giving
  back its last unit is dropped, and its children give back their edges' units before the rest
  of `xs` do.

Adding, removing and replacing children, and replacing a node by another, are these two moves
around one change of a children list (`AddsChild`, `RemovesChildAt`, `RemovesChild`,
`RemovesChildren`, `ReplacesChild`, `ReplacesWith`). Releasing has one outcome at most
(`Releases.unique`), and so has adopting in a forest where no node has two parents
(`Adopts.unique`).
-/

namespace TreeArena

/-- The node with another list of children. -/
def NodeView.withChildren (v : NodeView) (cs : List NodeId) : NodeView := { v with children := cs }

/-- The node with another retain count. -/
def NodeView.withRetain (v : NodeView) (n : Nat) : NodeView := { v with retain := n }

@[simp] theorem NodeView.children_withChildren (v : NodeView) (cs : List NodeId) :
    (v.withChildren cs).children = cs := rfl

@[simp] theorem NodeView.retain_withChildren (v : NodeView) (cs : List NodeId) :
    (v.withChildren cs).retain = v.retain := rfl

@[simp] theorem NodeView.children_withRetain (v : NodeView) (n : Nat) :
    (v.withRetain n).children = v.children := rfl

@[simp] theorem NodeView.retain_withRetain (v : NodeView) (n : Nat) : (v.withRetain n).retain = n :=
  rfl

/-- The abstract forest: the node each identifier names, if any. -/
abbrev Forest := NodeId → Option NodeView

namespace Forest

variable {F F' : Forest} {x y : NodeId} {v : NodeView}

/-- The forest with the node named `x` set to `v`. -/
def put (F : Forest) (x : NodeId) (v : NodeView) : Forest := fun y => if y = x then some v else F y

/-- The forest without the node named `x`. -/
def drop (F : Forest) (x : NodeId) : Forest := fun y => if y = x then none else F y

@[simp] theorem put_self (F : Forest) (x : NodeId) (v : NodeView) : F.put x v x = some v := by
  simp [put]

@[simp] theorem put_of_ne (F : Forest) (v : NodeView) (h : y ≠ x) : F.put x v y = F y := by
  simp [put, h]

@[simp] theorem drop_self (F : Forest) (x : NodeId) : F.drop x x = none := by
  simp [drop]

@[simp] theorem drop_of_ne (F : Forest) (h : y ≠ x) : F.drop x y = F y := by
  simp [drop, h]

@[simp] theorem put_put (F : Forest) (x : NodeId) (v v' : NodeView) :
    (F.put x v).put x v' = F.put x v' := by
  funext y
  by_cases h : y = x <;> simp [put, h]

theorem put_eq_self (h : F x = some v) : F.put x v = F := by
  funext y
  by_cases hy : y = x
  · subst hy
    simp [h]
  · simp [hy]

/-- No node lists `x` among its children. -/
def Orphan (F : Forest) (x : NodeId) : Prop := ∀ q u, F q = some u → x ∉ u.children

/-- No node is listed as a child by two nodes. -/
def ParentsUnique (F : Forest) : Prop :=
  ∀ q q' u u' c, F q = some u → F q' = some u' → c ∈ u.children → c ∈ u'.children → q = q'

/-! ### Adopting and releasing -/

/-- Readying the node `t` for a new parent: a child leaves its parent's children and keeps the
edge's unit; a root gains a unit for the edge it is about to get. -/
inductive Adopts (F : Forest) (t : NodeId) : Forest → Prop
  | child {q : NodeId} {u : NodeView} : F q = some u → t ∈ u.children →
      Adopts F t (F.put q (u.withChildren (u.children.erase t)))
  | root {v : NodeView} : F t = some v → F.Orphan t →
      Adopts F t (F.put t (v.withRetain (v.retain + 1)))

/-- The nodes `xs` each give back one unit, first to last. A node keeping some is counted one
fewer; a node giving back its last is dropped, and its children give back their edges' units,
first to last, before the rest of `xs`. -/
inductive Releases : Forest → List NodeId → Forest → Prop
  | nil (F : Forest) : Releases F [] F
  | keep {F F' : Forest} {x : NodeId} {xs : List NodeId} {v : NodeView} : F x = some v →
      v.retain ≠ 1 → Releases (F.put x (v.withRetain (v.retain - 1))) xs F' →
      Releases F (x :: xs) F'
  | free {F F' : Forest} {x : NodeId} {xs : List NodeId} {v : NodeView} : F x = some v →
      v.retain = 1 → Releases (F.drop x) (v.children ++ xs) F' → Releases F (x :: xs) F'

/-- Releasing has one outcome at most: which case applies is read off the node. -/
theorem Releases.unique {F₁ F₂ : Forest} {xs : List NodeId} (h₁ : Releases F xs F₁)
    (h₂ : Releases F xs F₂) : F₁ = F₂ := by
  induction h₁ generalizing F₂ with
  | nil => cases h₂; rfl
  | keep hx hne _ ih =>
    cases h₂ with
    | keep hx' _ h₂ =>
      obtain rfl := Option.some.inj (hx.symm.trans hx')
      exact ih h₂
    | free hx' hone _ =>
      obtain rfl := Option.some.inj (hx.symm.trans hx')
      exact absurd hone hne
  | free hx hone _ ih =>
    cases h₂ with
    | keep hx' hne _ =>
      obtain rfl := Option.some.inj (hx.symm.trans hx')
      exact absurd hone hne
    | free hx' _ h₂ =>
      obtain rfl := Option.some.inj (hx.symm.trans hx')
      exact ih h₂

/-- In a forest where no node has two parents, adopting has one outcome at most. -/
theorem Adopts.unique (hF : F.ParentsUnique) {t : NodeId} {F₁ F₂ : Forest} (h₁ : Adopts F t F₁)
    (h₂ : Adopts F t F₂) : F₁ = F₂ := by
  cases h₁ with
  | child hq ht =>
    cases h₂ with
    | child hq' ht' =>
      obtain rfl := hF _ _ _ _ _ hq hq' ht ht'
      obtain rfl := Option.some.inj (hq.symm.trans hq')
      rfl
    | root _ horph => exact absurd ht (horph _ _ hq)
  | root hv horph =>
    cases h₂ with
    | child hq' ht' => exact absurd ht' (horph _ _ hq')
    | root hv' _ =>
      obtain rfl := Option.some.inj (hv.symm.trans hv')
      rfl

theorem Adopts.mem_children {t : NodeId} {F₁ : Forest} (had : Adopts F t F₁) {r c : NodeId}
    {u : NodeView} (hr : F r = some u) (hc : c ∈ u.children) (hct : c ≠ t) :
    ∃ u₁, F₁ r = some u₁ ∧ c ∈ u₁.children := by
  cases had with
  | @child q u₀ hq _ =>
    by_cases hrq : r = q
    · subst hrq
      obtain rfl := Option.some.inj (hr.symm.trans hq)
      exact ⟨_, put_self .., by simpa [List.mem_erase_of_ne hct] using hc⟩
    · exact ⟨u, by rw [put_of_ne _ _ hrq, hr], hc⟩
  | root hv _ =>
    by_cases hrt : r = t
    · subst hrt
      obtain rfl := Option.some.inj (hr.symm.trans hv)
      exact ⟨_, put_self .., by simpa using hc⟩
    · exact ⟨u, by rw [put_of_ne _ _ hrt, hr], hc⟩

/-- A child that adopting `t` leaves below a node was below it before. -/
theorem Adopts.mem_children_of {t : NodeId} {F₁ : Forest} (had : Adopts F t F₁) {r c : NodeId}
    {u₁ : NodeView} (hr : F₁ r = some u₁) (hc : c ∈ u₁.children) :
    ∃ u, F r = some u ∧ c ∈ u.children := by
  cases had with
  | @child q u₀ hq _ =>
    by_cases hrq : r = q
    · subst hrq
      rw [put_self] at hr
      obtain rfl := Option.some.inj hr
      exact ⟨u₀, hq, List.mem_of_mem_erase (by simpa using hc)⟩
    · exact ⟨u₁, by rwa [put_of_ne _ _ hrq] at hr, hc⟩
  | @root v hv _ =>
    by_cases hrt : r = t
    · subst hrt
      rw [put_self] at hr
      obtain rfl := Option.some.inj hr
      exact ⟨v, hv, by simpa using hc⟩
    · exact ⟨u₁, by rwa [put_of_ne _ _ hrt] at hr, hc⟩

/-- A child's parent stays its parent when another node is adopted, in a forest where no node
then has two parents. -/
theorem Adopts.parent_eq {t : NodeId} {F₁ : Forest} (had : Adopts F t F₁)
    (hF₁ : F₁.ParentsUnique) {q q' c : NodeId} {v u : NodeView} (hv : F q = some v)
    (hc : c ∈ v.children) (hct : c ≠ t) (hu : F₁ q' = some u) (hc' : c ∈ u.children) : q = q' := by
  obtain ⟨u₁, hu₁, hm₁⟩ := had.mem_children hv hc hct
  exact hF₁ _ _ _ _ _ hu₁ hu hm₁ hc'

/-! ### The public edits -/

/-- Installing `t` as child `i` of `r`: `t` is adopted, then put at position `min i n` of `r`'s
children, `n` their number once `t` is adopted. -/
def AddsChild (F : Forest) (r t : NodeId) (i : Nat) (F' : Forest) : Prop :=
  ∃ F₁ u, Adopts F t F₁ ∧ F₁ r = some u ∧
    F' = F₁.put r (u.withChildren (u.children.insertIdx (min i u.children.length) t))

/-- Removing child `i` of `r`, which gives back its edge's unit. -/
def RemovesChildAt (F : Forest) (r : NodeId) (i : Nat) (F' : Forest) : Prop :=
  ∃ u c, F r = some u ∧ u.children[i]? = some c ∧
    Releases (F.put r (u.withChildren (u.children.eraseIdx i))) [c] F'

/-- Removing the child `t` of `r`, which gives back its edge's unit. -/
def RemovesChild (F : Forest) (r t : NodeId) (F' : Forest) : Prop :=
  ∃ u, F r = some u ∧ t ∈ u.children ∧
    Releases (F.put r (u.withChildren (u.children.erase t))) [t] F'

/-- Removing every child of `r`; each gives back its edge's unit, first to last. -/
def RemovesChildren (F : Forest) (r : NodeId) (F' : Forest) : Prop :=
  ∃ u, F r = some u ∧ Releases (F.put r (u.withChildren [])) u.children F'

/-- Putting `new` in the place of the child `old` of `r`: `new` is adopted and takes `old`'s place
in `r`'s children, and `old` gives back its edge's unit. -/
def ReplacesChild (F : Forest) (r old new : NodeId) (F' : Forest) : Prop :=
  ∃ F₁ u, Adopts F new F₁ ∧ F₁ r = some u ∧ old ∈ u.children ∧
    Releases (F₁.put r (u.withChildren (u.children.replace old new))) [old] F'

/-- Putting `t` in the place of `r`: below a parent of `r` this is replacing the child `r` of that
parent; a root `r` leaves the forest as it is. -/
def ReplacesWith (F : Forest) (r t : NodeId) (F' : Forest) : Prop :=
  (∃ q u, F q = some u ∧ r ∈ u.children ∧ ReplacesChild F q r t F') ∨ (F.Orphan r ∧ F' = F)

/-- Replacing a child of `q` is replacing that child: `q` was its parent before `t` was adopted. -/
theorem ReplacesChild.replacesWith {q r t : NodeId} (h : ReplacesChild F q r t F') :
    ReplacesWith F r t F' := by
  obtain ⟨F₁, u, had, hu, hr, -⟩ := id h
  obtain ⟨u₀, hu₀, hr₀⟩ := had.mem_children_of hu hr
  exact .inl ⟨q, u₀, hu₀, hr₀, h⟩

end Forest

end TreeArena

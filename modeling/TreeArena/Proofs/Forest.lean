import TreeArena.Arena.Layout

/-!
# The arena as a forest

A well-formed arena is the depth-first layout of a forest: each record is followed by the layouts
of its children's subtrees, and its children count is the number of those subtrees. `Tree` is
that forest and `Tree.layout` lays it out. The layout ignores the children counts, so it also
describes the arenas in the middle of an edit, whose counts are off until the edit sets them;
`Tree.Wf` is the condition that they are right.

`Tree.parse` reads an arena back, right to left, with a stack of finished subtrees: a record takes
its children off the top of the stack and pushes its own subtree. Read from the right, depth-first
order is postfix order, so the reading needs no look-ahead.

Main statements: `scan_layout`, a well-formed forest is read back whatever lies on the stack below
it, and `parse_eq_some_iff`, an arena parses exactly when it is the layout of a well-formed forest,
which is then the parse.
-/

namespace TreeArena

/-- A node record with the subtrees of its children, in order. -/
inductive Tree where
  | node (head : Node) (kids : List Tree)
deriving Inhabited

namespace Tree

/-- The root record. -/
def head : Tree → Node
  | node h _ => h

/-- The children's subtrees. -/
def kids : Tree → List Tree
  | node _ ks => ks

mutual

/-- The records of a subtree in depth-first order. -/
def records : Tree → List Node
  | node h ks => h :: layout ks

/-- The records of consecutive subtrees, one subtree after the other. -/
def layout : List Tree → List Node
  | [] => []
  | t :: ts => records t ++ layout ts

end

/-- Number of records of a subtree. -/
def size (t : Tree) : Nat := t.records.length

@[simp] theorem head_node (h : Node) (ks : List Tree) : (node h ks).head = h := rfl

@[simp] theorem kids_node (h : Node) (ks : List Tree) : (node h ks).kids = ks := rfl

@[simp] theorem records_node (h : Node) (ks : List Tree) :
    (node h ks).records = h :: layout ks := by
  rw [records]

@[simp] theorem layout_nil : layout [] = [] := by
  rw [layout]

@[simp] theorem layout_cons (t : Tree) (ts : List Tree) :
    layout (t :: ts) = t.records ++ layout ts := by
  rw [layout]

@[simp] theorem layout_append (ts us : List Tree) : layout (ts ++ us) = layout ts ++ layout us := by
  induction ts with
  | nil => simp
  | cons t ts ih => simp [ih]

theorem layout_singleton (t : Tree) : layout [t] = t.records := by simp

theorem eta (t : Tree) : node t.head t.kids = t := by
  cases t; rfl

theorem records_eq (t : Tree) : t.records = t.head :: layout t.kids := by
  cases t; simp

theorem size_eq (t : Tree) : t.size = (layout t.kids).length + 1 := by
  rw [size, records_eq, List.length_cons]

theorem size_pos (t : Tree) : 0 < t.size := by
  rw [size_eq]; omega

theorem length_le_layout (ts : List Tree) : ts.length ≤ (layout ts).length := by
  induction ts with
  | nil => simp
  | cons t ts ih => have := t.size_pos; simp [size] at this ⊢; omega

theorem size_le_layout {t : Tree} {ts : List Tree} (ht : t ∈ ts) : t.size ≤ (layout ts).length := by
  induction ts with
  | nil => cases ht
  | cons u us ih =>
    rw [layout_cons, List.length_append]
    rcases List.mem_cons.mp ht with rfl | ht
    · simp [size]
    · have := ih ht
      omega

theorem size_lt_of_mem {h : Node} {ks : List Tree} {k : Tree} (hk : k ∈ ks) :
    k.size < (node h ks).size := by
  have := size_le_layout hk
  rw [size_eq (node h ks), kids_node]
  omega

/-- Every record of the subtree counts exactly the children that follow it. -/
inductive Wf : Tree → Prop
  | node {h : Node} {ks : List Tree} : h.children = ks.length → (∀ t ∈ ks, Wf t) → Wf (node h ks)

theorem wf_node_iff {h : Node} {ks : List Tree} :
    Wf (node h ks) ↔ h.children = ks.length ∧ ∀ t ∈ ks, Wf t := by
  constructor
  · rintro ⟨hc, hks⟩
    exact ⟨hc, hks⟩
  · rintro ⟨hc, hks⟩
    exact .node hc hks

theorem Wf.children_eq {t : Tree} (h : Wf t) : t.head.children = t.kids.length := by
  cases h with
  | node hc _ => exact hc

theorem Wf.kids {t : Tree} (h : Wf t) : ∀ u ∈ t.kids, Wf u := by
  cases h with
  | node _ hks => exact hks

/-! ### Rewriting every record -/

mutual

/-- The subtree with every record rewritten by `φ`. -/
def map (φ : Node → Node) : Tree → Tree
  | node h ks => node (φ h) (mapAll φ ks)

/-- Consecutive subtrees with every record rewritten by `φ`. -/
def mapAll (φ : Node → Node) : List Tree → List Tree
  | [] => []
  | t :: ts => map φ t :: mapAll φ ts

end

variable {φ : Node → Node}

@[simp] theorem map_node (h : Node) (ks : List Tree) : map φ (node h ks) = node (φ h) (mapAll φ ks) := by
  rw [map]

@[simp] theorem mapAll_nil : mapAll φ [] = [] := by
  rw [mapAll]

@[simp] theorem mapAll_cons (t : Tree) (ts : List Tree) :
    mapAll φ (t :: ts) = map φ t :: mapAll φ ts := by
  rw [mapAll]

@[simp] theorem mapAll_append (ts us : List Tree) : mapAll φ (ts ++ us) = mapAll φ ts ++ mapAll φ us := by
  induction ts with
  | nil => simp
  | cons t ts ih => simp [ih]

@[simp] theorem head_map (t : Tree) : (map φ t).head = φ t.head := by
  cases t; simp

@[simp] theorem length_mapAll (ts : List Tree) : (mapAll φ ts).length = ts.length := by
  induction ts with
  | nil => simp
  | cons t ts ih => simp [ih]

theorem mapAll_take (ts : List Tree) (i : Nat) : mapAll φ (ts.take i) = (mapAll φ ts).take i := by
  induction ts generalizing i with
  | nil => simp
  | cons t ts ih => cases i <;> simp [ih]

theorem mapAll_drop (ts : List Tree) (i : Nat) : mapAll φ (ts.drop i) = (mapAll φ ts).drop i := by
  induction ts generalizing i with
  | nil => simp
  | cons t ts ih => cases i <;> simp [ih]

mutual

theorem records_map : ∀ t : Tree, (map φ t).records = t.records.map φ
  | node h ks => by rw [map_node, records_node, records_node, layout_mapAll ks, List.map_cons]

theorem layout_mapAll : ∀ ts : List Tree, layout (mapAll φ ts) = (layout ts).map φ
  | [] => by simp
  | t :: ts => by rw [mapAll_cons, layout_cons, layout_cons, records_map t, layout_mapAll ts,
      List.map_append]

end

@[simp] theorem size_map (t : Tree) : (map φ t).size = t.size := by
  simp [size, records_map]

mutual

theorem map_eq_self : ∀ t : Tree, (∀ nd ∈ t.records, φ nd = nd) → map φ t = t
  | node h ks, hφ => by
    rw [map_node, hφ h (by simp), mapAll_eq_self ks fun nd hnd => hφ nd (by simp [hnd])]

theorem mapAll_eq_self : ∀ ts : List Tree, (∀ nd ∈ layout ts, φ nd = nd) → mapAll φ ts = ts
  | [], _ => by simp
  | t :: ts, hφ => by
    rw [mapAll_cons, map_eq_self t fun nd hnd => hφ nd (by simp [hnd]),
      mapAll_eq_self ts fun nd hnd => hφ nd (by simp [hnd])]

end

/-! ### Reading an arena back -/

/-- One record read right to left: it takes its children's subtrees off the top of the stack. -/
def build (nd : Node) (st : List Tree) : Option (List Tree) :=
  if nd.children ≤ st.length then some (node nd (st.take nd.children) :: st.drop nd.children)
  else none

/-- Reads records right to left onto a stack of finished subtrees. -/
def scan : List Node → List Tree → Option (List Tree)
  | [], st => some st
  | nd :: rest, st => (scan rest st).bind (build nd)

/-- The forest an arena lays out, if it is one. -/
def parse (l : List Node) : Option (List Tree) := scan l []

/-- The scan of a concatenation reads the later part first. -/
theorem scan_append (l₁ l₂ : List Node) (st : List Tree) :
    scan (l₁ ++ l₂) st = (scan l₂ st).bind (scan l₁) := by
  induction l₁ with
  | nil => cases h : scan l₂ st <;> simp [h, scan]
  | cons nd rest ih =>
    rw [List.cons_append, scan, ih]
    cases scan l₂ st <;> simp [scan]

theorem build_of_wf {h : Node} {ks : List Tree} (hc : h.children = ks.length) (st : List Tree) :
    build h (ks ++ st) = some (node h ks :: st) := by
  simp [build, hc]

/-- A well-formed subtree is read back onto any stack. -/
theorem scan_records {t : Tree} (ht : Wf t) (st : List Tree) : scan t.records st = some (t :: st) := by
  induction ht generalizing st with
  | @node h ks hc _ ih =>
    -- the children are read first, each onto the stack the later ones left
    have hks : ∀ us, (∀ u ∈ us, u ∈ ks) → ∀ st, scan (layout us) st = some (us ++ st) := by
      intro us
      induction us with
      | nil => intro _ st; rfl
      | cons u us ihu =>
        intro hsub st
        rw [layout_cons, scan_append, ihu (fun v hv => hsub v (.tail _ hv)), Option.bind_some,
          ih u (hsub u (.head _))]
        rfl
    rw [records_node, scan, hks ks (fun _ h => h), Option.bind_some, build_of_wf hc]

/-- A well-formed forest is read back onto any stack. -/
theorem scan_layout {ts : List Tree} (hts : ∀ t ∈ ts, Wf t) (st : List Tree) :
    scan (layout ts) st = some (ts ++ st) := by
  induction ts generalizing st with
  | nil => rfl
  | cons t ts ih =>
    rw [layout_cons, scan_append, ih (fun u hu => hts u (.tail _ hu)), Option.bind_some,
      scan_records (hts t (.head _))]
    rfl

/-- Whatever the scan leaves on a stack of well-formed subtrees is well formed, and lays out the
records read in front of the stack's own. -/
theorem scan_sound {l : List Node} {st st' : List Tree} (h : scan l st = some st')
    (hst : ∀ t ∈ st, Wf t) : (∀ t ∈ st', Wf t) ∧ layout st' = l ++ layout st := by
  induction l generalizing st' with
  | nil =>
    cases h
    exact ⟨hst, rfl⟩
  | cons nd rest ih =>
    rw [scan] at h
    obtain ⟨st₁, h₁, h₂⟩ := Option.bind_eq_some_iff.mp h
    obtain ⟨hw₁, hl₁⟩ := ih h₁
    unfold build at h₂
    split at h₂
    · rename_i hle
      cases h₂
      refine ⟨fun t ht => ?_, ?_⟩
      · rcases List.mem_cons.mp ht with rfl | ht
        · exact .node (by simp; omega) (fun u hu => hw₁ u (List.mem_of_mem_take hu))
        · exact hw₁ t (List.mem_of_mem_drop ht)
      · simp only [layout_cons, records_node, List.cons_append, ← layout_append,
          List.take_append_drop, hl₁]
    · cases h₂

theorem parse_layout {ts : List Tree} (hts : ∀ t ∈ ts, Wf t) : parse (layout ts) = some ts := by
  rw [parse, scan_layout hts, List.append_nil]

/-- An arena parses exactly when it lays out a well-formed forest, and then into that forest. -/
theorem parse_eq_some_iff {l : List Node} {ts : List Tree} :
    parse l = some ts ↔ (∀ t ∈ ts, Wf t) ∧ layout ts = l := by
  constructor
  · intro h
    obtain ⟨hw, hl⟩ := scan_sound h (fun _ h => nomatch h)
    exact ⟨hw, by simpa using hl⟩
  · rintro ⟨hw, rfl⟩
    exact parse_layout hw

end Tree

end TreeArena

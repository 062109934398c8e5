import TreeArena.Proofs.Heap

/-!
# Runs that fault without a trace

A handle operation runs in `HeapM`, which keeps the changes made before a fault. Most operations
check everything they can fault on before they change anything. `Heap.Guarded m h Q` says so of
one run: run from `h`, `m` faults only with `h` as it was, and returns only with `Q` of its result
and of the heap it leaves. `Heap.Reads m h P` is a run that changes nothing, with `P` of the value
it returns.

Runs are taken apart along their binds: a read followed by a guarded run is guarded
(`Reads.bind`), and so is a guarded run followed by one that cannot fault (`Guarded.bind_ok`).
The primitive reads of the handle layer each get their spec: the pool a handle belongs to, the
position of the record it names (`Heap.Finds`), a read of a pool.
-/

namespace TreeArena

namespace Heap

variable {α β : Type} {h : Heap}

/-- Run from `h`, `m` faults only with `h` unchanged, and returns only with `Q` of its result and
of the heap it leaves. -/
def Guarded (m : HeapM α) (h : Heap) (Q : α → Heap → Prop) : Prop :=
  match m.run h with
  | .ok a h' => Q a h'
  | .error _ h' => h' = h

/-- Run from `h`, `m` changes nothing, and a value it returns satisfies `P`. -/
def Reads (m : HeapM α) (h : Heap) (P : α → Prop) : Prop :=
  Guarded m h fun a h' => h' = h ∧ P a

/-- Run from `h`, `m` returns, with `Q` of its result and of the heap it leaves. -/
def Returns (m : HeapM α) (h : Heap) (Q : α → Heap → Prop) : Prop :=
  ∃ a h', m.run h = .ok a h' ∧ Q a h'

section Combinators

variable {m x : HeapM α} {f : α → HeapM β} {Q Q' : α → Heap → Prop} {P P' : α → Prop}

theorem Guarded.ok (hg : Guarded m h Q) {a : α} {h' : Heap} (hm : m.run h = .ok a h') : Q a h' := by
  unfold Guarded at hg
  rwa [hm] at hg

theorem Guarded.error (hg : Guarded m h Q) {e : Fault} {h' : Heap} (hm : m.run h = .error e h') :
    h' = h := by
  unfold Guarded at hg
  rwa [hm] at hg

theorem Guarded.of_ok {a : α} {h' : Heap} (hm : m.run h = .ok a h') (hQ : Q a h') :
    Guarded m h Q := by
  unfold Guarded
  rwa [hm]

theorem Guarded.mono (hg : Guarded m h Q) (hQ : ∀ a h', Q a h' → Q' a h') : Guarded m h Q' := by
  unfold Guarded at hg ⊢
  cases hm : m.run h with
  | ok a h' =>
    rw [hm] at hg
    exact hQ _ _ hg
  | error e h' =>
    rw [hm] at hg
    exact hg

theorem guarded_pure {a : α} (hQ : Q a h) : Guarded (pure a) h Q := hQ

theorem guarded_throw (e : Fault) : Guarded (throw e : HeapM α) h Q := rfl

/-- A guarded run followed by one that returns whatever the first left is guarded. -/
theorem Guarded.bind_ok {R : β → Heap → Prop} (hx : Guarded x h Q)
    (hf : ∀ a h', Q a h' → Returns (f a) h' R) :
    Guarded (x >>= f) h R := by
  unfold Guarded at hx ⊢
  split at hx <;> rename_i hm
  · obtain ⟨b, h'', hrun, hR⟩ := hf _ _ hx
    rw [run_bind_ok hm, hrun]
    exact hR
  · rw [run_bind_error hm]
    exact hx

theorem Reads.bind {R : β → Heap → Prop} (hx : Reads x h P) (hf : ∀ a, P a → Guarded (f a) h R) :
    Guarded (x >>= f) h R := by
  unfold Reads Guarded at hx
  unfold Guarded
  split at hx <;> rename_i hm
  · obtain ⟨rfl, hP⟩ := hx
    rw [run_bind_ok hm]
    exact hf _ hP
  · rw [run_bind_error hm]
    exact hx

theorem Reads.mono (hr : Reads m h P) (hP : ∀ a, P a → P' a) : Reads m h P' :=
  Guarded.mono hr fun _ _ ⟨hh, ha⟩ => ⟨hh, hP _ ha⟩

theorem Reads.ok (hr : Reads m h P) {a : α} {h' : Heap} (hm : m.run h = .ok a h') : h' = h ∧ P a :=
  Guarded.ok hr hm

theorem reads_pure {a : α} (hP : P a) : Reads (pure a) h P := ⟨rfl, hP⟩

theorem reads_throw (e : Fault) : Reads (throw e : HeapM α) h P := rfl

theorem reads_get : Reads (get : HeapM Heap) h (· = h) := ⟨rfl, rfl⟩

theorem Returns.guarded (hr : Returns m h Q) : Guarded m h Q := by
  obtain ⟨a, h', hm, hQ⟩ := hr
  exact Guarded.of_ok hm hQ

theorem Returns.mono (hr : Returns m h Q) (hQ : ∀ a h', Q a h' → Q' a h') : Returns m h Q' := by
  obtain ⟨a, h', hm, hq⟩ := hr
  exact ⟨a, h', hm, hQ a h' hq⟩

theorem Returns.bind {R : β → Heap → Prop} (hx : Returns x h Q)
    (hf : ∀ a h', Q a h' → Returns (f a) h' R) : Returns (x >>= f) h R := by
  obtain ⟨a, h', hm, hq⟩ := hx
  obtain ⟨b, h'', hm', hr⟩ := hf a h' hq
  exact ⟨b, h'', by rw [run_bind_ok hm, hm'], hr⟩

theorem returns_pure {a : α} (hQ : Q a h) : Returns (pure a) h Q := ⟨a, h, rfl, hQ⟩

theorem guarded_get_bind {f : Heap → HeapM β} {R : β → Heap → Prop} (hf : Guarded (f h) h R) :
    Guarded (get >>= f) h R := hf

theorem returns_get_bind {f : Heap → HeapM β} {R : β → Heap → Prop} (hf : Returns (f h) h R) :
    Returns (get >>= f) h R := hf

theorem run_tryCatch_ok {x : HeapM α} {hdl : Fault → HeapM α} {a : α} {h' : Heap}
    (hx : x.run h = .ok a h') : (tryCatch x hdl).run h = .ok a h' := by
  show (EStateM.tryCatch x hdl) h = _
  unfold EStateM.tryCatch
  simp only
  rw [show x h = .ok a h' from hx]

theorem run_tryCatch_error {x : HeapM α} {hdl : Fault → HeapM α} {e : Fault} {h' : Heap}
    (hx : x.run h = .error e h') : (tryCatch x hdl).run h = (hdl e).run h' := by
  show (EStateM.tryCatch x hdl) h = _
  unfold EStateM.tryCatch
  simp only
  rw [show x h = .error e h' from hx]
  rfl

/-- A handler that undoes what came before a fault and raises it again ends at the heap the undo
leaves. -/
theorem run_tryCatch_undo {β : Type} {x : HeapM α} {u : HeapM β} {e : Fault} {h₀ : Heap} {b : β}
    (hx : x.run h = .error e h) (hu : u.run h = .ok b h₀) :
    (tryCatch x fun e => u >>= fun _ => throw e).run h = .error e h₀ := by
  rw [run_tryCatch_error hx, run_bind_ok hu]
  rfl

end Combinators

/-! ### Runs that may fault with a trace -/

/-- Run from `h`, `m` returns only with `Q` of its result and of the heap it leaves, and faults
only leaving a heap that `F` holds of. -/
def Ends (m : HeapM α) (h : Heap) (Q : α → Heap → Prop) (F : Heap → Prop) : Prop :=
  match m.run h with
  | .ok a h' => Q a h'
  | .error _ h' => F h'

section Ends

variable {m x : HeapM α} {f : α → HeapM β} {Q Q' : α → Heap → Prop} {F F' : Heap → Prop}

theorem Ends.ok (he : Ends m h Q F) {a : α} {h' : Heap} (hm : m.run h = .ok a h') : Q a h' := by
  unfold Ends at he
  rwa [hm] at he

theorem Ends.error (he : Ends m h Q F) {e : Fault} {h' : Heap} (hm : m.run h = .error e h') :
    F h' := by
  unfold Ends at he
  rwa [hm] at he

theorem Ends.mono (he : Ends m h Q F) (hQ : ∀ a h', Q a h' → Q' a h') (hF : ∀ h', F h' → F' h') :
    Ends m h Q' F' := by
  unfold Ends at he ⊢
  cases hm : m.run h with
  | ok a h' =>
    rw [hm] at he
    exact hQ _ _ he
  | error e h' =>
    rw [hm] at he
    exact hF _ he

theorem Ends.bind {R : β → Heap → Prop} (hx : Ends x h Q F) (hf : ∀ a h', Q a h' → Ends (f a) h' R F) :
    Ends (x >>= f) h R F := by
  unfold Ends at hx ⊢
  split at hx <;> rename_i hm
  · rw [run_bind_ok hm]
    exact hf _ _ hx
  · rw [run_bind_error hm]
    exact hx

theorem Guarded.ends (hg : Guarded m h Q) (hF : F h) : Ends m h Q F := by
  unfold Guarded at hg
  unfold Ends
  cases hm : m.run h with
  | ok a h' =>
    rw [hm] at hg
    exact hg
  | error e h' =>
    rw [hm] at hg
    rw [hg]
    exact hF

theorem Returns.ends (hr : Returns m h Q) : Ends m h Q F := by
  obtain ⟨a, h', hm, hq⟩ := hr
  unfold Ends
  rw [hm]
  exact hq

theorem ends_pure {a : α} (hQ : Q a h) : Ends (pure a) h Q F := hQ

theorem ends_get_bind {f : Heap → HeapM β} {R : β → Heap → Prop} (hf : Ends (f h) h R F) :
    Ends (get >>= f) h R F := hf

end Ends

/-! ### Where a handle points -/

/-- The handle belongs to pool `k`, which is `p`, and names its live record at position `i`. -/
structure Finds (h : Heap) (r : Handle) (k : Nat) (p : Pool) (i : Nat) : Prop where
  home : r.home = some k
  pool : h.pools[k]? = some p
  resolve : p.slots.resolve r.id = some i

theorem Finds.unique {r : Handle} {k k' : Nat} {p p' : Pool} {i i' : Nat} (hf : h.Finds r k p i)
    (hf' : h.Finds r k' p' i') : k' = k ∧ p' = p ∧ i' = i := by
  obtain rfl : k' = k := Option.some.inj (hf'.home.symm.trans hf.home)
  obtain rfl : p' = p := Option.some.inj (hf'.pool.symm.trans hf.pool)
  exact ⟨rfl, rfl, Option.some.inj (hf'.resolve.symm.trans hf.resolve)⟩

theorem resolve_of_finds {r : Handle} {k : Nat} {p : Pool} {i : Nat} (hf : h.Finds r k p i) :
    h.resolve r = some (k, i) := by
  simp [Heap.resolve, hf.home, hf.pool, hf.resolve]

theorem finds_of_resolve {r : Handle} {k i : Nat} (hr : h.resolve r = some (k, i)) :
    ∃ p, h.Finds r k p i := by
  unfold Heap.resolve at hr
  split at hr
  · cases hr
  · rename_i k' hk
    simp only [Option.bind_eq_some_iff, Option.map_eq_some_iff, Prod.mk.injEq] at hr
    obtain ⟨p, hp, i', hi, rfl, rfl⟩ := hr
    exact ⟨p, hk, hp, hi⟩

theorem isDefined_iff_finds {r : Handle} : h.isDefined r = true ↔ ∃ k p i, h.Finds r k p i := by
  unfold isDefined
  constructor
  · intro hd
    obtain ⟨⟨k, i⟩, hr⟩ := Option.isSome_iff_exists.mp hd
    obtain ⟨p, hf⟩ := finds_of_resolve hr
    exact ⟨k, p, i, hf⟩
  · rintro ⟨k, p, i, hf⟩
    simp [resolve_of_finds hf]

theorem reads_homeOf (r : Handle) : Reads (homeOf r) h fun k => r.home = some k := by
  unfold homeOf
  split
  · exact reads_throw _
  · rename_i k hk
    exact reads_pure hk

theorem reads_readPool (k : Nat) (f : Pool → α) :
    Reads (readPool k f) h fun a => ∃ p, h.pools[k]? = some p ∧ a = f p := by
  unfold Reads Guarded
  cases hk : h.pools[k]? with
  | none =>
    have hrun : (readPool k f).run h = .error .undefinedHandle h := by
      simp only [readPool, EStateM.run, onPool, hk]
    rw [hrun]
  | some p =>
    have hrun : (readPool k f).run h = .ok (f p) ⟨h.pools.setIfInBounds k p⟩ :=
      run_onPool_ok hk rfl
    rw [hrun, setIfInBounds_self hk]
    exact ⟨rfl, p, rfl, rfl⟩

theorem returns_homeOf {r : Handle} {k : Nat} (hk : r.home = some k) :
    Returns (homeOf r) h fun a h' => a = k ∧ h' = h :=
  ⟨k, h, by simp [homeOf, hk], rfl, rfl⟩

theorem returns_onPool {m : PoolM α} {k : Nat} {p p' : Pool} {a : α} (hp : h.pools[k]? = some p)
    (hm : m.run p = .ok a p') :
    Returns (onPool k m) h fun b h' => b = a ∧ h' = ⟨h.pools.setIfInBounds k p'⟩ :=
  ⟨a, _, run_onPool_ok hp hm, rfl, rfl⟩

theorem returns_readPool {k : Nat} {p : Pool} (hp : h.pools[k]? = some p) (f : Pool → α) :
    Returns (readPool k f) h fun a h' => a = f p ∧ h' = h := by
  refine ⟨f p, h, ?_, rfl, rfl⟩
  have hrun : (readPool k f).run h = .ok (f p) ⟨h.pools.setIfInBounds k p⟩ := run_onPool_ok hp rfl
  rw [hrun, setIfInBounds_self hp]

theorem reads_locate (r : Handle) : Reads (locate r) h fun i => ∃ k p, h.Finds r k p i := by
  unfold locate
  refine (reads_homeOf r).bind fun _ _ => ?_
  split
  · exact reads_throw _
  · refine reads_get.bind fun h' hh => ?_
    subst hh
    split
    · rename_i k i hr
      obtain ⟨p, hf⟩ := finds_of_resolve hr
      exact reads_pure ⟨k, p, hf⟩
    · exact reads_throw _

/-- A sibling is located in the pool of the handle it goes with. -/
theorem reads_sibling (r o : Handle) :
    Reads (sibling r o) h fun i => ∃ k p, r.home = some k ∧ h.Finds o k p i := by
  unfold sibling
  split
  · exact reads_throw _
  · rename_i hne
    show Reads (locate o) h _
    refine (reads_locate o).mono fun i ⟨k, p, hf⟩ => ⟨k, p, ?_, hf⟩
    rw [← hf.home]
    by_contra hne'
    exact hne ⟨by simp [hf.home], fun h => hne' h.symm⟩

/-- Locating a handle and then reading its pool number, as the edits begin: both read the same
handle, so what follows runs at its record. -/
theorem guarded_locate_homeOf {f : Nat → Nat → HeapM β} {R : β → Heap → Prop} (r : Handle)
    (hf : ∀ k p off, h.Finds r k p off → Guarded (f off k) h R) :
    Guarded (locate r >>= fun off => homeOf r >>= fun k => f off k) h R := by
  refine (reads_locate r).bind fun off hoff => ?_
  obtain ⟨k, p, hfd⟩ := hoff
  refine (reads_homeOf r).bind fun k' hk' => ?_
  obtain rfl : k = k' := Option.some.inj (hfd.home.symm.trans hk')
  exact hf k p off hfd

theorem Finds.reads_homeOf {r : Handle} {k off : Nat} {p : Pool} (hf : h.Finds r k p off) :
    Reads (homeOf r) h fun k' => k = k' :=
  (Heap.reads_homeOf r).mono fun _ hk => Option.some.inj (hf.home.symm.trans hk)

theorem Finds.reads_pool {r : Handle} {k off : Nat} {p : Pool} (hf : h.Finds r k p off) :
    Reads (readPool k id) h fun q => p = q := by
  refine (reads_readPool k id).mono fun q hq => ?_
  obtain ⟨p₂, hp₂, hq₂⟩ := hq
  exact (hq₂.trans (Option.some.inj (hp₂.symm.trans hf.pool))).symm

theorem Finds.reads_sibling {r : Handle} {k off : Nat} {p : Pool} (hf : h.Finds r k p off)
    (t : Handle) : Reads (sibling r t) h fun toff => h.Finds t k p toff := by
  refine (Heap.reads_sibling r t).mono fun toff htoff => ?_
  obtain ⟨k₂, p₂, hk₂, ht⟩ := htoff
  obtain rfl : k = k₂ := Option.some.inj (hf.home.symm.trans hk₂)
  obtain rfl : p = p₂ := Option.some.inj (hf.pool.symm.trans ht.pool)
  exact ht

theorem returns_locate {r : Handle} {k : Nat} {p : Pool} {i : Nat} (hf : h.Finds r k p i) :
    Returns (locate r) h fun a h' => a = i ∧ h' = h := by
  unfold locate
  refine (returns_homeOf hf.home).bind fun _ h₁ hh => ?_
  obtain ⟨-, rfl⟩ := hh
  have hnone : r.id ≠ NodeId.none := fun heq => by
    have := hf.resolve
    simp [heq, SlotTable.resolve] at this
  rw [if_neg hnone]
  refine returns_get_bind ?_
  rw [resolve_of_finds hf]
  exact returns_pure ⟨rfl, rfl⟩

theorem returns_sibling {r o : Handle} {k : Nat} {p : Pool} {i : Nat} (hr : r.home = some k)
    (hf : h.Finds o k p i) : Returns (sibling r o) h fun a h' => a = i ∧ h' = h := by
  unfold sibling
  rw [if_neg (by simp [hf.home, hr])]
  exact returns_locate hf

theorem reads_inspect (r : Handle) (f : Pool → Nat → α) :
    Reads (inspect r f) h fun a => ∃ k p i, h.Finds r k p i ∧ a = f p i := by
  unfold inspect
  refine (reads_locate r).bind fun i hi => ?_
  obtain ⟨k, p, hf⟩ := hi
  refine hf.reads_homeOf.bind fun k' hk' => ?_
  subst hk'
  refine (reads_readPool k _).mono fun a ⟨p', hp', ha⟩ => ?_
  obtain rfl : p = p' := Option.some.inj (hf.pool.symm.trans hp')
  exact ⟨k, p, i, hf, ha⟩

end Heap

end TreeArena

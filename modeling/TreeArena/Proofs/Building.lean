import TreeArena.Proofs.Refusal

/-!
# Building a pool

`Pool.new` checks the capacity, then builds the identifier table from the size it is given (or
one slot per header that fits in the arena, at most `maxSlots`), then checks that size, and last
places the pinned failure node. The table is built before its size is checked, so a size no table
can take, a negative one or one past `2 ^ 46` entries, stops the build with the runtime's error
(`SetupError.tableLength`) and never reaches the check; every other size outside `[1, maxSlots]`
is refused as a capacity error. A build that passes both checks always has room for the failure
node: the pool it gives holds that node alone at the first position, uses one header of its
arena, and keeps the pool invariant (`Pool.Built`).

Main statement: `new_builds_or_refuses`.
-/

namespace TreeArena

namespace Pool

open TreeArena.Tree SlotTable

/-- The table size a pool is built with: the one the options give, or one slot per header that
fits in the arena, at most `maxSlots`. -/
def tableSizeFor (opts : PoolOptions) (capacity : Int) : Int :=
  opts.maxNodes.getD (min (capacity.toNat / headerSize) maxSlots : Nat)

/-- In an arena with room for a header and a table with a slot, the failure node is placed, and
nothing but the arena, the table and the journal changes. -/
theorem placeFailure_blank (tag cap n : Nat) (opts : PoolOptions) (hcap : headerSize ≤ cap)
    (hn : 0 < n) :
    ∃ id p', placeFailure.run (blank tag cap n opts) = .ok (some id) p' ∧ p'.capacity = cap ∧
      p'.limit = cap ∧ p'.failures = 0 ∧ p'.slots.size = n := by
  have hloc : (blank tag cap n opts).slots.Locates (blank tag cap n opts).nodes.toList :=
    Locates.empty n
  obtain ⟨s, hs, -, -⟩ :=
    firstFree_eq_some hloc (by simp [blank, SlotTable.size, SlotTable.empty, hn])
  have hroom : (blank tag cap n opts).used + (headerSize + ([] : List UInt8).length) ≤
      (blank tag cap n opts).limit := by
    simp [blank, used, Arena.used, hcap]
  obtain ⟨p₁, h₁⟩ := allocate_fits failureKind [] (by simp) hroom hs
  rcases allocate_spec failureKind [] hloc with ⟨q, hq, -⟩ | ⟨s', j, -, -, -, hq⟩
  · rw [hq] at h₁
    cases h₁
  unfold placeFailure
  rw [run_bind_ok hq, run_get_bind]
  dsimp only
  rw [run_bind_ok (run_modifyAt _ _ _), run_get_bind]
  refine ⟨_, _, rfl, rfl, rfl, rfl, ?_⟩
  show (((SlotTable.empty n).claim s').set s' 0).size = n
  rw [size_set, size_claim]
  simp [SlotTable.size, SlotTable.empty]

/-- A pool just built with a table of `n` slots in an arena of `cap` bytes: its failure node,
alone at the first position, uses one header, and the pool keeps its invariant. -/
structure Built (p : Pool) (cap n : Nat) : Prop where
  nodes_eq : p.nodes.toList = [failureRecord p.failure.slot]
  failure_first : p.slots.resolve p.failure = some 0
  stats_eq : p.stats = ⟨cap, cap, headerSize, 1, n, 0⟩
  kept : p.Kept (fun s => if s = p.failure.slot then 1 else 0) [node (failureRecord p.failure.slot) []]

/-- A build that passes both checks places the failure node, in a pool of the capacity asked for,
with the table size asked for and no refusal counted. -/
theorem new_ok (tag : Nat) {capacity : Int} {opts : PoolOptions} (hlo : minCapacity ≤ capacity)
    (hhi : capacity ≤ maxCapacity) (hn₀ : 1 ≤ tableSizeFor opts capacity)
    (hn₁ : tableSizeFor opts capacity ≤ maxSlots) :
    ∃ p, new tag capacity opts = .ok p ∧ p.capacity = capacity.toNat ∧
      p.limit = capacity.toNat ∧ p.failures = 0 ∧
      p.slots.size = (tableSizeFor opts capacity).toNat := by
  obtain ⟨id, p', hrun, hcap, hlim, hfail, hsize⟩ :=
    placeFailure_blank tag capacity.toNat (tableSizeFor opts capacity).toNat opts
      (by unfold minCapacity at hlo; omega) (by omega)
  unfold new
  simp only [bind, Except.bind, pure, Except.pure]
  have hpow : ((Nat.pow 2 46 : Nat) : Int) = 2 ^ 46 := by norm_num
  have hmax : (maxSlots : Int) = 65535 := rfl
  unfold tableSizeFor at hn₀ hn₁ hrun hsize ⊢
  rw [if_neg (by omega), if_neg (by rw [hpow]; omega), if_neg (by omega), hrun]
  exact ⟨_, rfl, hcap, hlim, hfail, hsize⟩

theorem Built.of_new {tag : Nat} {capacity : Int} {opts : PoolOptions} {p : Pool} {cap n : Nat}
    (h : new tag capacity opts = .ok p) (hcap : p.capacity = cap) (hlim : p.limit = cap)
    (hfail : p.failures = 0) (hsize : p.slots.size = n) : p.Built cap n := by
  obtain ⟨hS, hres⟩ := new_spec (w := fun _ => 0) h
  have hnodes : p.nodes.toList = [failureRecord p.failure.slot] := by
    rw [← hS.laid.layout_eq]
    simp
  refine ⟨hnodes, hres, ?_, Kept.new h⟩
  have hlive : p.slots.live = 1 := by
    rw [hS.laid.locates.live_eq, hnodes]
    rfl
  have hused : p.used = headerSize := by
    rw [used, Arena.used_eq_total, hnodes]
    simp [total, failureRecord, Node.size]
  simp only [stats, hcap, hlim, hused, hlive, hsize, hfail]

/-- Building a pool checks the capacity, then builds the identifier table from the size asked
for, then checks that size, then places the failure node. A size no table can take stops the
build before its check; any other size outside `[1, maxSlots]` is refused as a capacity error;
a build that passes both checks gives a pool holding its failure node alone. -/
theorem new_builds_or_refuses (tag : Nat) (capacity : Int) (opts : PoolOptions) :
    ((capacity < minCapacity ∨ maxCapacity < capacity) →
      new tag capacity opts = .error (.capacity capacity)) ∧
    (minCapacity ≤ capacity → capacity ≤ maxCapacity →
      (tableSizeFor opts capacity < 0 ∨ 2 ^ 46 < tableSizeFor opts capacity →
        new tag capacity opts = .error (.tableLength (tableSizeFor opts capacity))) ∧
      (0 ≤ tableSizeFor opts capacity → tableSizeFor opts capacity ≤ 2 ^ 46 →
        (tableSizeFor opts capacity < 1 ∨ maxSlots < tableSizeFor opts capacity) →
        new tag capacity opts = .error (.tableSize (tableSizeFor opts capacity))) ∧
      (1 ≤ tableSizeFor opts capacity → tableSizeFor opts capacity ≤ maxSlots →
        ∃ p, new tag capacity opts = .ok p ∧
          p.Built capacity.toNat (tableSizeFor opts capacity).toNat)) := by
  -- the bound past which no table can be allocated, as `new` spells it
  have hpow : ((Nat.pow 2 46 : Nat) : Int) = 2 ^ 46 := by norm_num
  refine ⟨fun hc => ?_, fun hlo hhi => ⟨fun hn => ?_, fun hn₀ hn₁ hn => ?_, fun hn₀ hn₁ => ?_⟩⟩
  rotate_left 3
  · obtain ⟨p, h, hcap, hlim, hfail, hsize⟩ := new_ok tag hlo hhi hn₀ hn₁
    exact ⟨p, h, Built.of_new h hcap hlim hfail hsize⟩
  -- the three refusals are read off the checks in the order `new` makes them
  all_goals
    unfold new
    simp only [bind, Except.bind, pure, Except.pure]
  all_goals
    unfold tableSizeFor at *
    generalize opts.maxNodes.getD ↑(min (capacity.toNat / headerSize) maxSlots) = n at *
  · rw [if_pos (by omega)]
    rfl
  · rw [if_neg (by omega), if_pos (by rw [hpow]; omega)]
    rfl
  · rw [if_neg (by omega), if_neg (by rw [hpow]; omega), if_pos hn]
    rfl

/-- Without a table size the default one always passes its check, so only the capacity can be
refused. -/
theorem tableSizeFor_default {capacity : Int} (hlo : minCapacity ≤ capacity) :
    1 ≤ tableSizeFor {} capacity ∧ tableSizeFor {} capacity ≤ maxSlots := by
  have hh : headerSize ≤ capacity.toNat := by unfold minCapacity at hlo; omega
  have hd : 1 ≤ capacity.toNat / headerSize := (Nat.one_le_div_iff (by decide)).mpr hh
  have hm : (maxSlots : Int) = 65535 := rfl
  simp only [tableSizeFor, Option.getD_none]
  omega

/-- An arena of a hundred bytes asked for a table of `-1` slots: the table cannot be built, and
the build stops with the runtime's error instead of refusing the size. -/
theorem new_crashes_on_negative_table :
    Pool.new 0 100 { maxNodes := some (-1) } = .error (.tableLength (-1)) :=
  ((new_builds_or_refuses 0 100 { maxNodes := some (-1) }).2 (by decide) (by decide)).1
    (.inl (by decide))

end Pool

end TreeArena

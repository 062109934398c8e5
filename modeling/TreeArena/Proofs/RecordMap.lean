import TreeArena.Records.Store
import Mathlib.Logic.Function.Basic

/-!
# The record store as a map of records

An open in-memory backend whose keys ascend (`Backend.Memory`) holds, for each valid record, at
most one value: the one under the record's key. Read so, the store is a finite map of records
(`AnswersAs`): a value is found exactly when the map has one, a missing record is reported as
missing, a name that is not valid is refused before the backend is touched, and the listing of an
extension holds every record of the map with that extension once.

The listing comes out in the backend's order, ascending by key (`name.ext`), not by name: a name
that another name extends by a character below the separator sorts after it
(`listing_not_by_name`).

Main statement: `answers_as_record_map`, after any sequence of writes from an empty backend the
store answers as the map those writes build (`StoreWrite.recordMap`): each value is the last one
put under its record unless it was destroyed since.
-/

namespace TreeArena

namespace Record

theorem toList_key (r : Record) : r.key.toList = r.name.toList ++ separator :: r.ext.toList := by
  simp [key, separator, String.toList_append]

theorem isValid_iff {r : Record} : r.isValid = true ↔
    r.name ≠ "" ∧ r.ext ≠ "" ∧ separator ∉ r.name.toList ∧ separator ∉ r.ext.toList := by
  simp [isValid, and_assoc]

theorem ofKey_key {r : Record} (hr : r.isValid = true) : ofKey r.key = some r := by
  obtain ⟨-, -, hn, -⟩ := isValid_iff.mp hr
  have hne : ∀ c ∈ r.name.toList, (c != separator) = true := fun c hc => by
    simp only [bne_iff_ne, ne_eq]
    rintro rfl
    exact hn hc
  unfold ofKey
  rw [if_pos (by simp [toList_key]), toList_key, List.takeWhile_append_of_pos hne,
    List.dropWhile_append_of_pos hne]
  simp [separator, hr]

theorem split_at_first {c : Char} : ∀ {cs : List Char}, c ∈ cs →
    cs = cs.takeWhile (· != c) ++ c :: (cs.dropWhile (· != c)).drop 1
  | d :: cs, h => by
    by_cases hd : d = c
    · subst hd
      simp
    · have hc : c ∈ cs := (List.mem_cons.mp h).resolve_left fun h => hd h.symm
      simp only [List.takeWhile_cons, List.dropWhile_cons, bne_iff_ne, ne_eq, hd,
        not_false_eq_true, if_true, List.cons_append]
      exact congrArg (d :: ·) (split_at_first hc)

/-- A key read as a record is that record's key, and the record is valid. -/
theorem key_of_ofKey {k : String} {r : Record} (h : ofKey k = some r) :
    r.key = k ∧ r.isValid = true := by
  unfold ofKey at h
  dsimp only at h
  split at h
  · rename_i hsep
    split at h
    · cases h
      refine ⟨String.ext ?_, by assumption⟩
      rw [toList_key]
      simp only [String.toList_ofList]
      exact (split_at_first (List.contains_iff_mem.mp hsep)).symm
    · cases h
  · cases h

theorem eq_of_key_eq {r s : Record} (hr : r.isValid = true) (hs : s.isValid = true)
    (h : r.key = s.key) : r = s := by
  have := ofKey_key hr
  rw [h, ofKey_key hs] at this
  exact (Option.some.inj this).symm

end Record

namespace Backend

/-- Entries whose keys strictly ascend. -/
def Sorted (es : List (String × List UInt8)) : Prop := es.Pairwise fun a b => a.1 < b.1

theorem lookup_cons_eq (k : String) (v : List UInt8) (es : List (String × List UInt8))
    (k' : String) : ((k, v) :: es).lookup k' = if k' = k then some v else es.lookup k' := by
  rw [List.lookup_cons]
  by_cases h : k' = k
  · simp [h]
  · simp [h, beq_eq_false_iff_ne.mpr h]

theorem lookup_insertSorted (k : String) (v : List UInt8) (k' : String) :
    ∀ es : List (String × List UInt8),
      (insertSorted k v es).lookup k' = if k' = k then some v else es.lookup k'
  | [] => lookup_cons_eq k v [] k'
  | (k₀, v₀) :: rest => by
    unfold insertSorted
    split
    · rename_i h
      subst h
      rw [lookup_cons_eq, lookup_cons_eq]
      split <;> rfl
    · split
      · rw [lookup_cons_eq]
      · rw [lookup_cons_eq, lookup_insertSorted k v k' rest, lookup_cons_eq]
        by_cases h₁ : k' = k₀ <;> by_cases h₂ : k' = k <;> simp_all

theorem mem_keys_insertSorted (k : String) (v : List UInt8) (k' : String) :
    ∀ es : List (String × List UInt8),
      k' ∈ (insertSorted k v es).map Prod.fst ↔ k' = k ∨ k' ∈ es.map Prod.fst
  | [] => by simp [insertSorted]
  | (k₀, v₀) :: rest => by
    unfold insertSorted
    split
    · rename_i h
      subst h
      simp
    · split
      · simp
      · have := mem_keys_insertSorted k v k' rest
        simp only [List.map_cons, List.mem_cons] at this ⊢
        rw [this, or_left_comm]

theorem sorted_insertSorted (k : String) (v : List UInt8) :
    ∀ {es : List (String × List UInt8)}, Sorted es → Sorted (insertSorted k v es)
  | [], _ => List.pairwise_singleton _ _
  | (k₀, v₀) :: rest, hs => by
    obtain ⟨hhead, hrest⟩ := List.pairwise_cons.mp hs
    unfold insertSorted
    split
    · rename_i h
      subst h
      exact List.pairwise_cons.mpr ⟨hhead, hrest⟩
    · split
      · rename_i _ hlt
        refine List.pairwise_cons.mpr ⟨fun e he => ?_, hs⟩
        rcases List.mem_cons.mp he with rfl | he
        · exact hlt
        · exact String.lt_trans hlt (hhead e he)
      · rename_i hne hnlt
        have hgt : k₀ < k := (Std.lt_trichotomy k k₀).resolve_left hnlt |>.resolve_left hne
        refine List.pairwise_cons.mpr ⟨fun e he => ?_, sorted_insertSorted k v hrest⟩
        have hmem : e.1 ∈ (insertSorted k v rest).map Prod.fst := List.mem_map_of_mem he
        rcases (mem_keys_insertSorted k v e.1 rest).mp hmem with h | h
        · rw [h]
          exact hgt
        · obtain ⟨e', he', heq⟩ := List.mem_map.mp h
          rw [← heq]
          exact hhead e' he'

theorem lookup_filter_ne (k k' : String) (es : List (String × List UInt8)) :
    (es.filter fun e => e.1 != k).lookup k' = if k' = k then none else es.lookup k' := by
  induction es with
  | nil => split <;> rfl
  | cons e es ih =>
    obtain ⟨k₀, v₀⟩ := e
    by_cases h : k₀ = k
    · subst h
      rw [List.filter_cons_of_neg (by simp), ih, lookup_cons_eq]
      by_cases h' : k' = k₀ <;> simp [h']
    · rw [List.filter_cons_of_pos (by simpa using h), lookup_cons_eq, ih, lookup_cons_eq]
      by_cases h' : k' = k₀ <;> by_cases h'' : k' = k <;> simp_all

theorem lookup_isSome_iff (k : String) (es : List (String × List UInt8)) :
    (es.lookup k).isSome ↔ k ∈ es.map Prod.fst := by
  induction es with
  | nil => simp
  | cons e es ih =>
    obtain ⟨k₀, v₀⟩ := e
    rw [lookup_cons_eq]
    by_cases h : k = k₀ <;> simp [h, ih]

/-- An open in-memory backend whose keys ascend. -/
structure Memory (b : Backend) : Prop where
  engine_eq : b.engine = .memory
  closed_eq : b.closed = false
  sorted : Sorted b.entries

theorem memory_empty : (empty .memory).Memory := ⟨rfl, rfl, List.Pairwise.nil⟩

section Run

variable {b : Backend} (hb : b.Memory)
include hb

theorem run_checkOpen : checkOpen.run b = .ok () b := by
  simp [checkOpen, hb.closed_eq, EStateM.run_bind, EStateM.run_get]

theorem run_checkKey (k : String) : (checkKey k).run b = .ok () b := by
  simp [checkKey, hb.engine_eq, Engine.isDatabase, EStateM.run_bind, EStateM.run_get]

theorem run_put (k : String) (v : List UInt8) :
    (put k v).run b = .ok () { b with entries := insertSorted k v b.entries } := by
  have hdb : b.engine.isDatabase = false := by simp [hb.engine_eq, Engine.isDatabase]
  simp only [put, EStateM.run_bind, run_checkOpen hb, run_checkKey hb, EStateM.run_get, hdb,
    Bool.false_eq_true, ↓reduceIte]
  rfl

theorem run_get? (k : String) :
    (get? k).run b = match b.entries.lookup k with
      | some v => .ok v b
      | none => .error .notFound b := by
  simp only [get?, EStateM.run_bind, run_checkOpen hb, run_checkKey hb, EStateM.run_get]
  cases b.entries.lookup k <;> rfl

theorem run_erase (k : String) :
    (erase k).run b = if (b.entries.lookup k).isNone then .error .notFound b
      else .ok () { b with entries := b.entries.filter fun e => e.1 != k } := by
  simp only [erase, EStateM.run_bind, run_checkOpen hb, run_checkKey hb, EStateM.run_get]
  split <;> rfl

theorem run_keys_all : (keys "").run b = .ok (b.entries.map Prod.fst) b := by
  simp only [keys, EStateM.run_bind, run_checkOpen hb, EStateM.run_get]
  simp [String.isPrefixOf, String.startsWith_string_empty]

end Run

theorem Memory.insertSorted {b : Backend} (hb : b.Memory) (k : String) (v : List UInt8) :
    Memory { b with entries := insertSorted k v b.entries } :=
  ⟨hb.engine_eq, hb.closed_eq, sorted_insertSorted k v hb.sorted⟩

theorem Memory.filter {b : Backend} (hb : b.Memory) (k : String) :
    Memory { b with entries := b.entries.filter fun e => e.1 != k } :=
  ⟨hb.engine_eq, hb.closed_eq, hb.sorted.filter _⟩

end Backend

namespace Store

open Backend

variable {α : Type} {b b' : Backend}

theorem run_within_ok (c : String) {m : StoreM α} {a : α} (h : m.run b = .ok a b') :
    (within c m).run b = .ok a b' := by
  show EStateM.tryCatch m _ b = _
  unfold EStateM.tryCatch
  rw [show m b = .ok a b' from h]

theorem run_within_error (c : String) {m : StoreM α} {e : StoreError} (h : m.run b = .error e b') :
    (within c m).run b = .error (.within c e) b' := by
  show EStateM.tryCatch m _ b = _
  unfold EStateM.tryCatch
  rw [show m b = .error e b' from h]
  rfl

theorem run_validate_ok {r : Record} (hr : r.isValid = true) : (validate r).run b = .ok () b := by
  simp [validate, hr]

theorem run_validate_error {r : Record} (hr : r.isValid = false) :
    (validate r).run b = .error (.invalidName r.name r.ext) b := by
  simp [validate, hr]

/-- A name that is not valid is refused before the backend is touched. -/
theorem run_of_invalid {r : Record} (hr : r.isValid = false) (v : List UInt8) :
    (put r v).run b = .error (.invalidName r.name r.ext) b ∧
      (value r).run b = .error (.invalidName r.name r.ext) b ∧
      (destroy r).run b = .error (.invalidName r.name r.ext) b := by
  refine ⟨?_, ?_, ?_⟩ <;> simp only [put, value, destroy, EStateM.run_bind, run_validate_error hr]

/-- The records with an extension, read off the keys in their order. -/
def listed (b : Backend) (ext : String) : List Record :=
  (b.entries.map Prod.fst).filterMap fun k => (Record.ofKey k).filter fun r => r.ext == ext

/-- The listing holds each valid record of the extension with a value, and nothing else. -/
theorem mem_listed {ext : String} {r : Record} :
    r ∈ listed b ext ↔ r.isValid = true ∧ r.ext = ext ∧ (b.entries.lookup r.key).isSome := by
  rw [lookup_isSome_iff]
  simp only [listed, List.mem_filterMap, Option.filter_eq_some_iff, beq_iff_eq]
  constructor
  · rintro ⟨k, hk, hof, hext⟩
    obtain ⟨hkey, hv⟩ := Record.key_of_ofKey hof
    exact ⟨hv, hext, hkey ▸ hk⟩
  · rintro ⟨hv, hext, hk⟩
    exact ⟨r.key, hk, Record.ofKey_key hv, hext⟩

section Memory

variable (hb : b.Memory)
include hb

theorem run_put {r : Record} (hr : r.isValid = true) (v : List UInt8) :
    (put r v).run b = .ok () { b with entries := insertSorted r.key v b.entries } := by
  simp only [put, EStateM.run_bind, run_validate_ok hr]
  exact run_within_ok _ (Backend.run_put hb _ _)

theorem run_value {r : Record} (hr : r.isValid = true) :
    (value r).run b = match b.entries.lookup r.key with
      | some v => .ok v b
      | none => .error (.within ("get " ++ r.text) .notFound) b := by
  simp only [value, EStateM.run_bind, run_validate_ok hr]
  have := Backend.run_get? hb r.key
  split
  · rename_i v hv
    rw [hv] at this
    exact run_within_ok _ this
  · rename_i hv
    rw [hv] at this
    exact run_within_error _ this

theorem run_destroy {r : Record} (hr : r.isValid = true) :
    (destroy r).run b = if (b.entries.lookup r.key).isNone then
        .error (.within ("destroy " ++ r.text) .notFound) b
      else .ok () { b with entries := b.entries.filter fun e => e.1 != r.key } := by
  simp only [destroy, EStateM.run_bind, run_validate_ok hr]
  have := Backend.run_erase hb r.key
  split
  · rename_i h
    rw [if_pos h] at this
    exact run_within_error _ this
  · rename_i h
    rw [if_neg h] at this
    exact run_within_ok _ this

theorem run_withExtension (ext : String) :
    (withExtension ext).run b = .ok (listed b ext) b := by
  simp only [withExtension, EStateM.run_bind, run_within_ok _ (Backend.run_keys_all hb)]
  rfl

theorem listed_sorted (ext : String) : (listed b ext).Pairwise fun r s => r.key < s.key := by
  refine List.Pairwise.filterMap _ ?_ (List.pairwise_map.mpr hb.sorted)
  intro k k' hlt r hr r' hr'
  rw [(Record.key_of_ofKey (Option.filter_eq_some_iff.mp hr).1).1,
    (Record.key_of_ofKey (Option.filter_eq_some_iff.mp hr').1).1]
  exact hlt

theorem run_countWithExtension (ext : String) :
    (countWithExtension ext).run b = .ok (listed b ext).length b := by
  simp only [countWithExtension, EStateM.run_bind, run_withExtension hb]
  rfl

theorem run_atIndex (ext : String) (i : Int) :
    (atIndex ext i).run b =
      .ok (if i < 0 then Record.null else ((listed b ext)[i.toNat]?).getD Record.null) b := by
  simp only [atIndex, EStateM.run_bind, run_withExtension hb]
  split <;> rfl

end Memory

theorem destroyAll_cons (r : Record) (rs : List Record) :
    destroyAll (r :: rs) = (do destroy r; destroyAll rs) := rfl

/-- Destroying distinct valid records that all have values succeeds and removes exactly their
keys. -/
theorem run_destroyAll : ∀ (rs : List Record) {b : Backend}, b.Memory →
    (∀ r ∈ rs, r.isValid = true ∧ (b.entries.lookup r.key).isSome) → rs.Nodup →
    ∃ b', (destroyAll rs).run b = .ok () b' ∧ b'.Memory ∧
      ∀ k, b'.entries.lookup k = if k ∈ rs.map Record.key then none else b.entries.lookup k
  | [], b, hb, _, _ => ⟨b, rfl, hb, fun k => by simp⟩
  | r :: rs, b, hb, hall, hnd => by
    obtain ⟨hv, hsome⟩ := hall r List.mem_cons_self
    obtain ⟨hr, hnd'⟩ := List.nodup_cons.mp hnd
    have h₁ := run_destroy hb hv
    rw [if_neg (by simpa using hsome)] at h₁
    -- the records left have keys other than the one just removed, so they still have values
    have hrest : ∀ s ∈ rs, s.isValid = true ∧
        ((b.entries.filter fun e => e.1 != r.key).lookup s.key).isSome := by
      intro s hs
      obtain ⟨hsv, hss⟩ := hall s (List.mem_cons_of_mem _ hs)
      have hne : s.key ≠ r.key := fun h => hr (Record.eq_of_key_eq hsv hv h ▸ hs)
      rw [lookup_filter_ne, if_neg hne]
      exact ⟨hsv, hss⟩
    obtain ⟨b', hrun, hb', hlook⟩ := run_destroyAll rs (hb.filter r.key) hrest hnd'
    refine ⟨b', ?_, hb', fun k => ?_⟩
    · rw [destroyAll_cons, EStateM.run_bind, h₁]
      exact hrun
    · rw [hlook, lookup_filter_ne]
      by_cases hk : k = r.key <;> simp [hk]

section Memory

variable (hb : b.Memory)
include hb

/-- Destroying an extension removes the values of its records and keeps every other. -/
theorem run_destroyWithExtension (ext : String) :
    ∃ b', (destroyWithExtension ext).run b = .ok () b' ∧ b'.Memory ∧
      ∀ r : Record, r.isValid = true →
        b'.entries.lookup r.key = if r.ext = ext then none else b.entries.lookup r.key := by
  have hall : ∀ r ∈ listed b ext, r.isValid = true ∧ (b.entries.lookup r.key).isSome :=
    fun r hr => ⟨(mem_listed.mp hr).1, (mem_listed.mp hr).2.2⟩
  have hne : ∀ {r s : Record}, r.key < s.key → r ≠ s := fun hlt heq => by
    subst heq
    exact String.lt_irrefl _ hlt
  have hnd : (listed b ext).Nodup := (listed_sorted hb ext).imp hne
  obtain ⟨b', hrun, hb', hlook⟩ := run_destroyAll (listed b ext) hb hall hnd
  refine ⟨b', ?_, hb', fun r hr => ?_⟩
  · simp only [destroyWithExtension, EStateM.run_bind, run_withExtension hb]
    exact hrun
  · rw [hlook]
    -- a valid record's key is listed exactly when the record is
    have hkey : r.key ∈ (listed b ext).map Record.key ↔ r ∈ listed b ext := by
      constructor
      · intro h
        obtain ⟨s, hs, hks⟩ := List.mem_map.mp h
        rwa [← Record.eq_of_key_eq (mem_listed.mp hs).1 hr hks]
      · exact fun h => List.mem_map_of_mem h
    by_cases hext : r.ext = ext
    · rw [if_pos hext]
      split
      · rfl
      · -- a record of the extension that is not listed has no value
        rename_i hnot
        exact Option.not_isSome_iff_eq_none.mp fun hsome =>
          hnot (hkey.mpr (mem_listed.mpr ⟨hr, hext, hsome⟩))
    · rw [if_neg hext, if_neg fun h => hext (mem_listed.mp (hkey.mp h)).2.1]

end Memory

end Store

/-- A map from records to the values stored under them. -/
abbrev RecordMap := Record → Option (List UInt8)

/-- The records of a backend read as a map: each record has the value under its key. -/
def Backend.view (b : Backend) : RecordMap := fun r => b.entries.lookup r.key

/-- The store `b` answers as the map of records `m`, read on valid records: a value is found
exactly when the map has one, writes to valid records succeed, a record without a value is
reported missing, an invalid name is refused before the backend is touched, and an extension
lists every record of the map with that extension once, ascending by key. -/
structure AnswersAs (b : Backend) (m : RecordMap) : Prop where
  put : ∀ (r : Record) (v : List UInt8), r.isValid = true → ∃ b', (Store.put r v).run b = .ok () b'
  value : ∀ r : Record, r.isValid = true → (Store.value r).run b = match m r with
    | some v => .ok v b
    | none => .error (.within ("get " ++ r.text) .notFound) b
  destroy_some : ∀ (r : Record) (v : List UInt8), r.isValid = true → m r = some v →
    ∃ b', (Store.destroy r).run b = .ok () b'
  destroy_none : ∀ r : Record, r.isValid = true → m r = none →
    (Store.destroy r).run b = .error (.within ("destroy " ++ r.text) .notFound) b
  invalid : ∀ (r : Record) (v : List UInt8), r.isValid = false →
    (Store.put r v).run b = .error (.invalidName r.name r.ext) b ∧
      (Store.value r).run b = .error (.invalidName r.name r.ext) b ∧
      (Store.destroy r).run b = .error (.invalidName r.name r.ext) b
  listing : ∀ ext, ∃ rs : List Record, (Store.withExtension ext).run b = .ok rs b ∧
    rs.Pairwise (fun r s => r.key < s.key) ∧
    (∀ r : Record, r ∈ rs ↔ r.isValid = true ∧ r.ext = ext ∧ m r ≠ none) ∧
    (Store.countWithExtension ext).run b = .ok rs.length b ∧
    (∀ (i : Nat) (h : i < rs.length), (Store.atIndex ext i).run b = .ok rs[i] b) ∧
    (∀ i : Int, i < 0 ∨ rs.length ≤ i → (Store.atIndex ext i).run b = .ok Record.null b)
  destroyWithExtension : ∀ ext, ∃ b', (Store.destroyWithExtension ext).run b = .ok () b'

namespace AnswersAs

theorem congr {b : Backend} {m m' : RecordMap} (h : AnswersAs b m)
    (hm : ∀ r, r.isValid = true → m r = m' r) : AnswersAs b m' := by
  refine ⟨h.put, fun r hr => hm r hr ▸ h.value r hr, fun r v hr hv => h.destroy_some r v hr
    (hm r hr ▸ hv), fun r hr hv => h.destroy_none r hr (hm r hr ▸ hv), h.invalid, fun ext => ?_,
    h.destroyWithExtension⟩
  obtain ⟨rs, hrun, hsort, hmem, hcount, hat, hout⟩ := h.listing ext
  refine ⟨rs, hrun, hsort, fun r => ?_, hcount, hat, hout⟩
  rw [hmem r]
  constructor
  · rintro ⟨hr, hext, hv⟩
    exact ⟨hr, hext, hm r hr ▸ hv⟩
  · rintro ⟨hr, hext, hv⟩
    exact ⟨hr, hext, (hm r hr).symm ▸ hv⟩

end AnswersAs

namespace Backend

open Store

/-- An open in-memory backend answers as the map of its records. -/
theorem Memory.answersAs {b : Backend} (hb : b.Memory) : AnswersAs b b.view := by
  refine ⟨fun r v hr => ⟨_, Store.run_put hb hr v⟩, fun r hr => run_value hb hr,
    fun r v hr hv => ?_, fun r hr hv => ?_, fun r v hr => run_of_invalid hr v, fun ext => ?_,
    fun ext => (run_destroyWithExtension hb ext).imp fun _ h => h.1⟩
  · have hl : b.entries.lookup r.key = some v := hv
    rw [run_destroy hb hr, if_neg (by simp [hl])]
    exact ⟨_, rfl⟩
  · have hl : b.entries.lookup r.key = none := hv
    rw [run_destroy hb hr, if_pos (by simp [hl])]
  · refine ⟨listed b ext, run_withExtension hb ext, listed_sorted hb ext, fun r => ?_,
      run_countWithExtension hb ext, fun i hi => ?_, fun i hi => ?_⟩
    · rw [mem_listed, Option.isSome_iff_ne_none]
      rfl
    · rw [run_atIndex hb, if_neg (by omega)]
      simp [hi]
    · rw [run_atIndex hb]
      rcases hi with hi | hi
      · rw [if_pos hi]
      · rw [if_neg (by omega), List.getElem?_eq_none (by omega)]
        rfl

end Backend

/-- A write a client makes through the record store. -/
inductive StoreWrite where
  | put (r : Record) (v : List UInt8)
  | destroy (r : Record)
  | destroyWithExtension (ext : String)

namespace StoreWrite

/-- The store operation of a write. -/
def run : StoreWrite → StoreM Unit
  | put r v => Store.put r v
  | destroy r => Store.destroy r
  | destroyWithExtension ext => Store.destroyWithExtension ext

/-- The write on a map of records; one that names an invalid record is refused. -/
def apply : StoreWrite → RecordMap → RecordMap
  | put r v, m => if r.isValid then Function.update m r (some v) else m
  | destroy r, m => if r.isValid then Function.update m r none else m
  | destroyWithExtension ext, m => fun r => if r.ext = ext then none else m r

/-- The map a sequence of writes builds from the empty one: each record has the last value put
under it, unless it was destroyed since. -/
def recordMap (ws : List StoreWrite) : RecordMap := ws.foldl (fun m w => w.apply m) fun _ => none

theorem apply_congr (w : StoreWrite) {m m' : RecordMap} (hm : ∀ r, r.isValid = true → m r = m' r)
    (r : Record) (hr : r.isValid = true) : w.apply m r = w.apply m' r := by
  cases w with
  | put s v =>
    simp only [apply]
    split
    · by_cases h : r = s
      · subst h
        simp
      · simp [h, hm r hr]
    · exact hm r hr
  | destroy s =>
    simp only [apply]
    split
    · by_cases h : r = s
      · subst h
        simp
      · simp [h, hm r hr]
    · exact hm r hr
  | destroyWithExtension ext =>
    simp only [apply]
    split
    · rfl
    · exact hm r hr

end StoreWrite

namespace Backend

open Store

/-- The backend a store operation leaves, whether it returned or stopped at an error. -/
def after {α : Type} (m : StoreM α) (b : Backend) : Backend :=
  match m.run b with
  | .ok _ b' => b'
  | .error _ b' => b'

/-- The backend a sequence of writes leaves, each run where the last one left it. -/
def afterWrites (b : Backend) (ws : List StoreWrite) : Backend :=
  ws.foldl (fun b w => after w.run b) b

/-- One write keeps the backend an open in-memory one and writes its records' map as the
write does. -/
theorem Memory.after_run {b : Backend} (hb : b.Memory) (w : StoreWrite) :
    (after w.run b).Memory ∧ ∀ r, r.isValid = true → (after w.run b).view r = w.apply b.view r := by
  cases w with
  | put s v =>
    cases hs : s.isValid
    · simp only [StoreWrite.run, after, (run_of_invalid hs v).1, StoreWrite.apply, hs]
      exact ⟨hb, fun _ _ => rfl⟩
    · simp only [StoreWrite.run, after, Store.run_put hb hs, StoreWrite.apply, hs, if_true]
      refine ⟨hb.insertSorted _ _, fun r hr => ?_⟩
      simp only [view, lookup_insertSorted]
      by_cases h : r = s
      · subst h
        simp
      · rw [if_neg fun hk => h (Record.eq_of_key_eq hr hs hk), Function.update_of_ne h]
        rfl
  | destroy s =>
    cases hs : s.isValid
    · simp only [StoreWrite.run, after, (run_of_invalid hs []).2.2, StoreWrite.apply, hs]
      exact ⟨hb, fun _ _ => rfl⟩
    · have hrun := run_destroy hb hs
      simp only [StoreWrite.apply, hs, if_true]
      by_cases hn : (b.entries.lookup s.key).isNone
      · -- destroying a record without a value is refused and changes nothing
        rw [if_pos hn] at hrun
        simp only [StoreWrite.run, after, hrun]
        refine ⟨hb, fun r hr => ?_⟩
        by_cases h : r = s
        · subst h
          simpa [view] using hn
        · rw [Function.update_of_ne h]
      · rw [if_neg hn] at hrun
        simp only [StoreWrite.run, after, hrun]
        refine ⟨hb.filter _, fun r hr => ?_⟩
        simp only [view, lookup_filter_ne]
        by_cases h : r = s
        · subst h
          simp
        · rw [if_neg fun hk => h (Record.eq_of_key_eq hr hs hk), Function.update_of_ne h]
          rfl
  | destroyWithExtension ext =>
    obtain ⟨b', hrun, hb', hlook⟩ := run_destroyWithExtension hb ext
    simp only [StoreWrite.run, after, hrun, StoreWrite.apply]
    exact ⟨hb', fun r hr => hlook r hr⟩

/-- A sequence of writes keeps the backend an open in-memory one and writes its records' map
as the writes do. -/
theorem Memory.afterWrites : ∀ (ws : List StoreWrite) {b : Backend}, b.Memory →
    ∀ {m : RecordMap}, (∀ r, r.isValid = true → b.view r = m r) →
      (b.afterWrites ws).Memory ∧
        ∀ r, r.isValid = true → (b.afterWrites ws).view r = ws.foldl (fun m w => w.apply m) m r
  | [], _, hb, _, hm => ⟨hb, hm⟩
  | w :: ws, b, hb, m, hm => by
    obtain ⟨hb₁, hv₁⟩ := hb.after_run w
    exact Memory.afterWrites ws hb₁ fun r hr =>
      (hv₁ r hr).trans (w.apply_congr hm r hr)

end Backend

/-- After any sequence of writes from an empty in-memory backend, the record store answers as the
map of records those writes build. -/
theorem answers_as_record_map (ws : List StoreWrite) :
    AnswersAs ((Backend.empty .memory).afterWrites ws) (StoreWrite.recordMap ws) := by
  obtain ⟨hb, hview⟩ := Backend.memory_empty.afterWrites ws (m := fun _ => none) fun r _ => rfl
  exact hb.answersAs.congr hview

/-- The listing is not by name: after `a.x` and `a-.x` are put, the extension `x` lists `a-`
first, since `-` sorts below the separator, although `a` comes before `a-`. -/
theorem listing_not_by_name :
    let b := (Backend.empty .memory).afterWrites
      [.put ⟨"a", "x"⟩ [1], .put ⟨"a-", "x"⟩ [2]]
    (Store.withExtension "x").run b = .ok [⟨"a-", "x"⟩, ⟨"a", "x"⟩] b ∧ "a" < "a-" := by
  intro b
  have hb : b = ⟨.memory, [("a-.x", [2]), ("a.x", [1])], false⟩ := by
    simp only [b, Backend.afterWrites, List.foldl, StoreWrite.run, Backend.after]
    rw [Store.run_put Backend.memory_empty (by decide)]
    dsimp only
    rw [Store.run_put (Backend.memory_empty.insertSorted _ _) (by decide)]
    congr 1
  have hm : b.Memory := hb ▸ ⟨rfl, rfl, by unfold Backend.Sorted; decide⟩
  refine ⟨?_, by decide⟩
  rw [Store.run_withExtension hm, hb]
  congr 1

end TreeArena

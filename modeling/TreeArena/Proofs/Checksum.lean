import TreeArena.Proofs.WorkRuns

/-!
# The checksum of a store's contents

The checksum hashes one byte string built from the contents: each entry in ascending key order,
framed as its key's length, its key's bytes, its value's length and its value, the lengths as
varints (`Store.framing`). The framing is injective on lists of entries (`Store.framing_inj`):
a varint's high bits say where it ends, so each length is read back, and the lengths say where
the key and the value end, however their bytes look.

A backend is readable when it is open, its keys ascend and its engine reads back each of them
(`Backend.Readable`). Every write, through the record store or on the backend itself, keeps a
backend readable wherever it stops (`KeepsReadable`), and the checksum of a readable backend is
the hash of the framing of its contents in key order. Since an ascending listing of a content is
unique, the checksum depends on the contents alone, not on the history that wrote them nor on
the engine that holds them.

Main statement: `checksum_frames_contents`.
-/

namespace TreeArena

namespace Varint

theorem uvarint_of_lt {n : Nat} (h : n < 128) : uvarint n = [n.toUInt8] := by
  rw [uvarint, dif_pos h]

theorem uvarint_of_ge {n : Nat} (h : 128 ≤ n) :
    uvarint n = (n % 128 + 128).toUInt8 :: uvarint (n / 128) := by
  rw [uvarint, dif_neg (by omega)]

/-- A number's first byte holds its low group, with the high bit set exactly when more bytes
follow. -/
theorem uvarint_append_eq_cons (n : Nat) (x : List UInt8) :
    ∃ r, uvarint n ++ x = (if n < 128 then n else n % 128 + 128).toUInt8 :: r ∧
      (n < 128 → r = x) ∧ (128 ≤ n → r = uvarint (n / 128) ++ x) := by
  by_cases h : n < 128
  · rw [uvarint_of_lt h, if_pos h]
    exact ⟨x, rfl, fun _ => rfl, fun h' => absurd h' (by omega)⟩
  · rw [uvarint_of_ge (by omega), if_neg h]
    exact ⟨_, rfl, fun h' => absurd h' h, fun _ => rfl⟩

/-- No number's bytes begin another's, so a number is read back from the front of any bytes. -/
theorem uvarint_append_inj {a b : Nat} {x y : List UInt8}
    (h : uvarint a ++ x = uvarint b ++ y) : a = b ∧ x = y := by
  induction a using Nat.strong_induction_on generalizing b with
  | _ a ih =>
    obtain ⟨r, hr, hr₁, hr₂⟩ := uvarint_append_eq_cons a x
    obtain ⟨s, hs, hs₁, hs₂⟩ := uvarint_append_eq_cons b y
    rw [hr, hs, List.cons.injEq] at h
    obtain ⟨hhead, hrs⟩ := h
    have hbyte := congrArg UInt8.toNat hhead
    simp only [UInt8.toNat_ofNat', Nat.reducePow] at hbyte
    -- the high bit of the first bytes agrees, so both numbers end here or both go on
    by_cases ha : a < 128 <;> by_cases hb : b < 128
    · rw [if_pos ha, if_pos hb] at hbyte
      exact ⟨by omega, (hr₁ ha).symm.trans (hrs.trans (hs₁ hb))⟩
    · rw [if_pos ha, if_neg hb] at hbyte
      omega
    · rw [if_neg ha, if_pos hb] at hbyte
      omega
    · rw [if_neg ha, if_neg hb] at hbyte
      rw [hr₂ (by omega), hs₂ (by omega)] at hrs
      obtain ⟨hq, hxy⟩ := ih (a / 128) (by omega) hrs
      exact ⟨by omega, hxy⟩

end Varint

namespace Store

open Varint

theorem toList_loop_eq (bs : ByteArray) (i : Nat) (r : List UInt8) :
    ByteArray.toList.loop bs i r = r.reverse ++ bs.data.toList.drop i := by
  fun_induction ByteArray.toList.loop bs i r with
  | case1 i r hi ih =>
    have hlen : i < bs.data.toList.length := by
      rw [Array.length_toList]
      exact hi
    rw [ih, List.reverse_cons, List.append_assoc, List.singleton_append,
      List.drop_eq_getElem_cons hlen]
    simp [ByteArray.get!, hi]
  | case2 i r hi =>
    rw [List.drop_eq_nil_of_le (by simpa using hi), List.append_nil]

theorem toList_eq_data (bs : ByteArray) : bs.toList = bs.data.toList := by
  simp [ByteArray.toList, toList_loop_eq]

theorem key_bytes_inj {k k' : String} (h : k.toUTF8.toList = k'.toUTF8.toList) : k = k' := by
  rw [toList_eq_data, toList_eq_data, Array.toList_inj] at h
  exact String.toByteArray_inj.mp (ByteArray.ext h)

/-! ### Key order is byte order -/

theorem toUTF8_toList (k : String) : k.toUTF8.toList = k.toList.flatMap String.utf8EncodeChar := by
  rw [toList_eq_data, String.toUTF8, ← String.utf8Encode_toList, List.utf8Encode,
    List.toList_data_toByteArray]

/-- A smaller character's encoding is smaller at its first byte that differs from the other's,
so whatever follows either one does not change their order. -/
theorem utf8EncodeChar_append_lt {c d : Char} (h : c < d) (a b : List UInt8) :
    String.utf8EncodeChar c ++ a < String.utf8EncodeChar d ++ b := by
  have hv : c.val.toNat < d.val.toNat := h
  have hd : d.val.toNat < 0x110000 := by
    have := d.valid
    unfold UInt32.isValidChar Nat.isValidChar at this
    omega
  -- the top group of a four-byte encoding has three bits
  have htop : c.val.toNat / 262144 % 8 = c.val.toNat / 262144 ∧
      d.val.toNat / 262144 % 8 = d.val.toNat / 262144 := by
    omega
  unfold String.utf8EncodeChar
  dsimp only
  split_ifs <;> simp (disch := simp only [UInt8.size]; omega) only [List.cons_append,
    List.nil_append, List.cons_lt_cons_iff, UInt8.lt_iff_toNat_lt, ← UInt8.toNat_inj,
    UInt8.toNat_ofNat_of_lt'] <;> omega

theorem flatMap_utf8EncodeChar_lt {cs ds : List Char} (h : cs < ds) :
    cs.flatMap String.utf8EncodeChar < ds.flatMap String.utf8EncodeChar := by
  induction h with
  | nil =>
    rename_i d ds
    obtain ⟨x, r, hx⟩ := List.exists_cons_of_ne_nil (String.utf8EncodeChar_ne_nil (c := d))
    rw [List.flatMap_nil, List.flatMap_cons, hx, List.cons_append]
    exact List.nil_lt_cons _ _
  | rel hlt =>
    rw [List.flatMap_cons, List.flatMap_cons]
    exact utf8EncodeChar_append_lt hlt _ _
  | cons _ ih =>
    rw [List.flatMap_cons, List.flatMap_cons]
    exact List.append_left_lt ih

theorem lt_iff_bytes_lt {k k' : String} : k < k' ↔ k.toUTF8.toList < k'.toUTF8.toList := by
  have hlt : ∀ {k k' : String}, k < k' → k.toUTF8.toList < k'.toUTF8.toList := fun h => by
    rw [toUTF8_toList, toUTF8_toList]
    exact flatMap_utf8EncodeChar_lt (String.lt_iff.mp h)
  refine ⟨hlt, fun h => ?_⟩
  -- otherwise `k' ≤ k`, and then the bytes of `k'` come first or are those of `k`
  by_contra hn
  by_cases h' : k' < k
  · exact List.lt_asymm h (hlt h')
  · rw [String.le_antisymm (String.not_lt.mp h') (String.not_lt.mp hn)] at h
    exact List.lt_irrefl _ h

/-- An entry's bytes, and what follows them, are read back from the front: the key's length
says where the key ends and the value's length where the value ends. -/
theorem entryBytes_append_inj {k k' : String} {v v' x y : List UInt8}
    (h : entryBytes k v ++ x = entryBytes k' v' ++ y) : k = k' ∧ v = v' ∧ x = y := by
  simp only [entryBytes, List.append_assoc] at h
  obtain ⟨hklen, h₁⟩ := uvarint_append_inj h
  obtain ⟨hkb, h₂⟩ := List.append_inj h₁ hklen
  obtain ⟨hvlen, h₃⟩ := uvarint_append_inj h₂
  obtain ⟨hv, hxy⟩ := List.append_inj h₃ hvlen
  exact ⟨key_bytes_inj hkb, hv, hxy⟩

theorem entryBytes_ne_nil (k : String) (v : List UInt8) : entryBytes k v ≠ [] := by
  simp [entryBytes, uvarint_ne_nil]

/-- The bytes the checksum covers: each entry framed in turn. -/
def framing (es : List (String × List UInt8)) : List UInt8 :=
  es.flatMap fun e => entryBytes e.1 e.2

@[simp] theorem framing_nil : framing [] = [] := rfl

@[simp] theorem framing_cons (e : String × List UInt8) (es : List (String × List UInt8)) :
    framing (e :: es) = entryBytes e.1 e.2 ++ framing es := rfl

theorem framing_inj : ∀ {es es' : List (String × List UInt8)}, framing es = framing es' → es = es'
  | [], [], _ => rfl
  | [], e :: _, h => absurd (List.append_eq_nil_iff.mp (framing_cons e _ ▸ h).symm).1
      (entryBytes_ne_nil _ _)
  | e :: _, [], h => absurd (List.append_eq_nil_iff.mp (framing_cons e _ ▸ h)).1
      (entryBytes_ne_nil _ _)
  | (k, v) :: es, (k', v') :: es', h => by
    obtain ⟨rfl, rfl, hrest⟩ := entryBytes_append_inj h
    rw [framing_inj hrest]

end Store

namespace Backend

/-- Entries whose keys ascend are listed in one way only: the lookups they answer fix them. -/
theorem eq_of_lookup_eq {es es' : List (String × List UInt8)} (hs : Sorted es) (hs' : Sorted es')
    (h : ∀ k, es.lookup k = es'.lookup k) : es = es' := by
  have hmem : ∀ {l : List (String × List UInt8)}, Sorted l → ∀ e, e ∈ l ↔ l.lookup e.1 = some e.2 := by
    intro l hl e
    refine ⟨lookup_of_mem hl, fun he => ?_⟩
    obtain ⟨l₁, l₂, hl₁, -⟩ := List.lookup_eq_some_iff.mp he
    rw [hl₁]
    simp
  have hnd : ∀ {l : List (String × List UInt8)}, Sorted l → l.Nodup := by
    intro l hl
    unfold Sorted at hl
    refine hl.imp fun {a b} hlt => ?_
    rintro rfl
    exact String.lt_irrefl _ hlt
  refine List.Perm.eq_of_pairwise (fun a b _ _ hab hba => absurd (String.lt_trans hab hba)
    (String.lt_irrefl _)) hs hs' ((List.perm_ext_iff_of_nodup (hnd hs) (hnd hs')).mpr fun e => ?_)
  rw [hmem hs, hmem hs', h]

/-- Entries whose keys ascend in the order of their bytes. -/
def BytesAscend (es : List (String × List UInt8)) : Prop :=
  es.Pairwise fun a b => a.1.toUTF8.toList < b.1.toUTF8.toList

theorem sorted_iff_bytesAscend {es : List (String × List UInt8)} : Sorted es ↔ BytesAscend es := by
  unfold Sorted BytesAscend
  simp only [Store.lt_iff_bytes_lt]

/-- An open backend whose keys ascend, none of them one its engine refuses to read. -/
structure Readable (b : Backend) : Prop where
  closed_eq : b.closed = false
  sorted : Sorted b.entries
  key_ne : b.engine.isDatabase = true → ∀ e ∈ b.entries, e.1 ≠ ""

theorem readable_empty (e : Engine) : (empty e).Readable :=
  ⟨rfl, List.Pairwise.nil, fun _ _ h => absurd h List.not_mem_nil⟩

/-! ### What one write can do -/

theorem run_put_cases (k : String) (v : List UInt8) (b : Backend) :
    (∃ e, (put k v).run b = .error e b) ∨
      (b.closed = false ∧ (b.engine.isDatabase = true → k ≠ "") ∧
        (put k v).run b = .ok () { b with entries := insertSorted k v b.entries }) := by
  unfold put checkOpen checkKey
  by_cases hc : b.closed = true
  · left
    simp [hc]
  by_cases hdb : b.engine.isDatabase = true
  swap
  · right
    simp [hc, hdb]
  by_cases hk : k = ""
  · left
    simp [hc, hk, hdb]
  -- the database's own checks, each refusing before anything is written
  by_cases hp : reservedPrefix.isPrefixOf k = true
  · left
    simp [hc, hk, hdb, hp]
  by_cases hs : maxKeySize < k.toByteArray.toList.length
  · left
    simp [hc, hk, hdb, hp, hs]
  by_cases hv : b.engine = .database true ∧ maxMemoryValue < v.length
  · left
    simp [hc, hk, hp, hs, hv, Engine.isDatabase]
  · right
    simp [hc, hk, hp, hs, hv, Engine.isDatabase]

theorem run_erase_cases (k : String) (b : Backend) :
    (∃ e, (erase k).run b = .error e b) ∨
      (erase k).run b = .ok () { b with entries := b.entries.filter fun e => e.1 != k } := by
  unfold erase checkOpen checkKey
  by_cases hc : b.closed = true
  · left
    simp [hc]
  by_cases hk : b.engine.isDatabase = true ∧ k = ""
  · left
    simp [hc, hk]
  by_cases hn : (b.entries.lookup k).isNone
  · left
    simp [hc, hk, hn]
  · right
    simp [hc, hk, hn]

theorem Readable.insertSorted {b : Backend} (hb : b.Readable) {k : String} (v : List UInt8)
    (hk : b.engine.isDatabase = true → k ≠ "") :
    Readable { b with entries := insertSorted k v b.entries } := by
  refine ⟨hb.closed_eq, sorted_insertSorted k v hb.sorted, fun hdb e he => ?_⟩
  rcases (mem_keys_insertSorted k v e.1 b.entries).mp (List.mem_map_of_mem he) with h | h
  · rw [h]
    exact hk hdb
  · obtain ⟨e', he', heq⟩ := List.mem_map.mp h
    rw [← heq]
    exact hb.key_ne hdb e' he'

theorem Readable.filter {b : Backend} (hb : b.Readable) (k : String) :
    Readable { b with entries := b.entries.filter fun e => e.1 != k } :=
  ⟨hb.closed_eq, hb.sorted.filter _, fun hdb e he => hb.key_ne hdb e (List.mem_filter.mp he).1⟩

theorem after_of_ok {α : Type} {m : StoreM α} {b b' : Backend} {a : α} (h : m.run b = .ok a b') :
    after m b = b' := by
  simp only [after, h]

theorem after_of_error {α : Type} {m : StoreM α} {b b' : Backend} {e : StoreError}
    (h : m.run b = .error e b') : after m b = b' := by
  simp only [after, h]

/-- A store operation that leaves every readable backend readable, wherever it stops. -/
def KeepsReadable {α : Type} (m : StoreM α) : Prop :=
  ∀ b : Backend, b.Readable → (after m b).Readable

theorem keepsReadable_put (k : String) (v : List UInt8) : KeepsReadable (put k v) := by
  intro b hb
  rcases run_put_cases k v b with ⟨e, h⟩ | ⟨-, hk, h⟩
  · rw [after_of_error h]
    exact hb
  · rw [after_of_ok h]
    exact hb.insertSorted v hk

theorem keepsReadable_erase (k : String) : KeepsReadable (erase k) := by
  intro b hb
  rcases run_erase_cases k b with ⟨e, h⟩ | h
  · rw [after_of_error h]
    exact hb
  · rw [after_of_ok h]
    exact hb.filter k

theorem keepsReadable_of_after_eq {α : Type} {m : StoreM α} (h : ∀ b, after m b = b) :
    KeepsReadable m := fun b hb => (h b).symm ▸ hb

theorem KeepsReadable.bind {α β : Type} {x : StoreM α} {f : α → StoreM β}
    (hx : KeepsReadable x) (hf : ∀ a, KeepsReadable (f a)) : KeepsReadable (x >>= f) := by
  intro b hb
  have h₁ := hx b hb
  cases h : x.run b with
  | ok a b' =>
    rw [after_of_ok h] at h₁
    have h₂ := hf a b' h₁
    unfold after at h₂ ⊢
    rw [run_bind_of_ok h]
    exact h₂
  | error e b' =>
    rw [after_of_error h] at h₁
    rw [after_of_error (run_bind_of_error h)]
    exact h₁

theorem KeepsReadable.within {α : Type} (c : String) {m : StoreM α} (hm : KeepsReadable m) :
    KeepsReadable (Store.within c m) := by
  intro b hb
  have h := hm b hb
  cases hrun : m.run b with
  | ok a b' =>
    rw [after_of_ok hrun] at h
    rw [after_of_ok (Store.run_within_ok c hrun)]
    exact h
  | error e b' =>
    rw [after_of_error hrun] at h
    rw [after_of_error (Store.run_within_error c hrun)]
    exact h

end Backend

namespace Store

open Backend

variable {b : Backend}

theorem after_validate (r : Record) (b : Backend) : after (validate r) b = b := by
  cases hr : r.isValid
  · exact after_of_error (run_validate_error hr)
  · exact after_of_ok (run_validate_ok hr)

theorem after_keys (pre : String) (b : Backend) : after (Backend.keys pre) b = b := by
  unfold Backend.keys checkOpen
  by_cases hc : b.closed = true
  · simp [after, hc]
  · simp [after, hc, -bind_pure_comp]

theorem after_withExtension (ext : String) (b : Backend) : after (withExtension ext) b = b := by
  have hk := after_keys "" b
  unfold withExtension
  cases h : (Backend.keys "").run b with
  | ok ks b' =>
    rw [after_of_ok h] at hk
    subst hk
    exact after_of_ok (run_bind_of_ok (run_within_ok _ h))
  | error e b' =>
    rw [after_of_error h] at hk
    subst hk
    exact after_of_error (run_bind_of_error (run_within_error _ h))

theorem keepsReadable_put (r : Record) (v : List UInt8) : KeepsReadable (put r v) :=
  (keepsReadable_of_after_eq (after_validate r)).bind fun _ =>
    (Backend.keepsReadable_put r.key v).within _

theorem keepsReadable_destroy (r : Record) : KeepsReadable (destroy r) :=
  (keepsReadable_of_after_eq (after_validate r)).bind fun _ =>
    (Backend.keepsReadable_erase r.key).within _

theorem keepsReadable_destroyAll : ∀ rs : List Record, KeepsReadable (destroyAll rs)
  | [] => keepsReadable_of_after_eq fun _ => rfl
  | r :: rs => (keepsReadable_destroy r).bind fun _ => keepsReadable_destroyAll rs

theorem keepsReadable_destroyWithExtension (ext : String) :
    KeepsReadable (destroyWithExtension ext) :=
  (keepsReadable_of_after_eq (after_withExtension ext)).bind keepsReadable_destroyAll

/-! ### The checksum of a readable backend -/

section Readable

variable (hb : b.Readable)
include hb

theorem run_keys_all_of_readable : (Backend.keys "").run b = .ok (b.entries.map Prod.fst) b := by
  simp only [Backend.keys, checkOpen, EStateM.run_bind, EStateM.run_get, hb.closed_eq]
  simp [String.isPrefixOf, String.startsWith_string_empty]

theorem run_get?_of_readable {k : String} {v : List UInt8} (hkv : (k, v) ∈ b.entries) :
    (Backend.get? k).run b = .ok v b := by
  have hk : b.engine.isDatabase = true → k ≠ "" := fun hdb => hb.key_ne hdb _ hkv
  have hl := lookup_of_mem hb.sorted hkv
  simp only [Backend.get?, checkOpen, checkKey, EStateM.run_bind, EStateM.run_get, hb.closed_eq]
  by_cases hdb : b.engine.isDatabase = true
  · simp [hdb, hk hdb, hl]
  · simp [hdb, hl]

theorem run_gatherEntries_of_readable :
    ∀ {es : List (String × List UInt8)}, (∀ e ∈ es, e ∈ b.entries) →
      (gatherEntries (es.map Prod.fst)).run b = .ok (framing es) b
  | [], _ => rfl
  | (k, v) :: es, hl => by
    have hget := run_get?_of_readable hb (hl (k, v) List.mem_cons_self)
    have hrest := run_gatherEntries_of_readable fun e he => hl e (List.mem_cons_of_mem _ he)
    simp only [List.map_cons, gatherEntries]
    rw [run_bind_of_ok (run_within_ok _ hget), run_bind_of_ok hrest]
    rfl

/-- The checksum of a readable backend is the hash of its entries' framing, and changes
nothing. -/
theorem run_checksum_of_readable :
    checksum.run b = .ok (Xxh64.hash (framing b.entries)) b := by
  unfold checksum
  rw [run_bind_of_ok (run_within_ok _ (run_keys_all_of_readable hb)),
    run_bind_of_ok (run_gatherEntries_of_readable hb fun _ he => he)]
  rfl

end Readable

end Store

/-- A write to a backend's contents: through the record store, or on the backend itself. -/
inductive ContentWrite where
  | store (w : StoreWrite)
  | set (k : String) (v : List UInt8)
  | delete (k : String)

namespace ContentWrite

/-- The operation of a write. -/
def run : ContentWrite → StoreM Unit
  | store w => w.run
  | set k v => Backend.put k v
  | delete k => Backend.erase k

theorem keepsReadable_run : ∀ w : ContentWrite, Backend.KeepsReadable w.run
  | store (.put r v) => Store.keepsReadable_put r v
  | store (.destroy r) => Store.keepsReadable_destroy r
  | store (.destroyWithExtension ext) => Store.keepsReadable_destroyWithExtension ext
  | set k v => Backend.keepsReadable_put k v
  | delete k => Backend.keepsReadable_erase k

end ContentWrite

namespace Backend

/-- The backend a history of writes leaves, each run where the last one left it. -/
def history (b : Backend) (ws : List ContentWrite) : Backend :=
  ws.foldl (fun b w => after w.run b) b

/-- A history of writes keeps a backend readable, whichever of them stop at an error. -/
theorem Readable.history : ∀ (ws : List ContentWrite) {b : Backend}, b.Readable →
    (b.history ws).Readable
  | [], _, hb => hb
  | w :: ws, _, hb => Readable.history ws (w.keepsReadable_run _ hb)

end Backend

open Backend Store

/-- The checksum hashes the framing of the contents listed in the ascending order of their keys'
bytes, which the backend's own entries follow; the framing is injective, so two contents share
a checksum only where two different byte strings share a hash; and two histories of writes from
readable backends, on any engines, that reach the same contents give the same checksum. -/
theorem checksum_frames_contents :
    (∀ b : Backend, b.Readable → BytesAscend b.entries ∧
      ∀ es : List (String × List UInt8), BytesAscend es → (∀ k, es.lookup k = b.entries.lookup k) →
        checksum.run b = .ok (Xxh64.hash (framing es)) b) ∧
    (∀ es es' : List (String × List UInt8), framing es = framing es' → es = es') ∧
    (∀ b b' : Backend, b.Readable → b'.Readable →
      (∃ c, checksum.run b = .ok c b ∧ checksum.run b' = .ok c b') →
      (∀ k, b.entries.lookup k = b'.entries.lookup k) ∨
        framing b.entries ≠ framing b'.entries ∧
          Xxh64.hash (framing b.entries) = Xxh64.hash (framing b'.entries)) ∧
    (∀ (b₀ b₀' : Backend) (ws ws' : List ContentWrite), b₀.Readable → b₀'.Readable →
      (∀ k, (b₀.history ws).entries.lookup k = (b₀'.history ws').entries.lookup k) →
      ∃ c, checksum.run (b₀.history ws) = .ok c (b₀.history ws) ∧
        checksum.run (b₀'.history ws') = .ok c (b₀'.history ws')) := by
  refine ⟨fun b hb => ?_, fun es es' h => framing_inj h, fun b b' hb hb' hc => ?_,
    fun b₀ b₀' ws ws' hb₀ hb₀' hlook => ?_⟩
  · refine ⟨sorted_iff_bytesAscend.mp hb.sorted, fun es hs hes => ?_⟩
    rw [eq_of_lookup_eq (sorted_iff_bytesAscend.mpr hs) hb.sorted hes]
    exact run_checksum_of_readable hb
  · obtain ⟨c, h, h'⟩ := hc
    rw [run_checksum_of_readable hb] at h
    rw [run_checksum_of_readable hb'] at h'
    have hhash : Xxh64.hash (framing b.entries) = Xxh64.hash (framing b'.entries) := by
      simp only [EStateM.Result.ok.injEq] at h h'
      rw [h.1, h'.1]
    by_cases hf : framing b.entries = framing b'.entries
    · left
      intro k
      rw [framing_inj hf]
    · exact .inr ⟨hf, hhash⟩
  · have hb := hb₀.history ws
    have hb' := hb₀'.history ws'
    -- same contents, listed ascending both times, are the same list
    have heq := eq_of_lookup_eq hb.sorted hb'.sorted hlook
    refine ⟨_, run_checksum_of_readable hb, ?_⟩
    rw [heq]
    exact run_checksum_of_readable hb'

/-- A record put through the store on the in-memory engine, beside a key set and deleted again,
and the same key set directly on the database engine: the two backends agree, and so do their
checksums. -/
theorem checksum_forgets_history_and_engine :
    ∃ c, checksum.run ((empty .memory).history
        [.store (.put ⟨"a", "x"⟩ [1]), .set "b" [2], .delete "b"]) =
        .ok c ((empty .memory).history [.store (.put ⟨"a", "x"⟩ [1]), .set "b" [2], .delete "b"]) ∧
      checksum.run ((empty (.database false)).history [.set "a.x" [1]]) =
        .ok c ((empty (.database false)).history [.set "a.x" [1]]) := by
  have hmem : ((empty .memory).history
      [.store (.put ⟨"a", "x"⟩ [1]), .set "b" [2], .delete "b"]).entries = [("a.x", [1])] := by
    decide
  have hlen : "a.x".toByteArray.toList.length = 3 := by
    show "a.x".toUTF8.toList.length = 3
    rw [toUTF8_toList]
    decide
  have hdb : ((empty (.database false)).history [.set "a.x" [1]]).entries = [("a.x", [1])] := by
    have hpre : "!badger!".isPrefixOf "a.x" = false := by decide
    simp [history, ContentWrite.run, after, Backend.put, checkOpen, checkKey, empty,
      Engine.isDatabase, reservedPrefix, maxKeySize, hpre, hlen, insertSorted]
  exact (checksum_frames_contents).2.2.2 _ _ _ _ (readable_empty _) (readable_empty _)
    fun k => by rw [hmem, hdb]

end TreeArena

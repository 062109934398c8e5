import Mathlib.Tactic.Ring
import TreeArena.Proofs.Release
import TreeArena.Pool.Copy

/-!
# Reading back the portable encoding

A number below 2^64 written as a varint reads back with the bytes after it untouched
(`Varint.readUvarint_uvarint`), and so does an entry whose counts are in range
(`TreeCode.readEntry_encodeEntry`). Reading stops when no subtree is pending, so a list of entries
reads back exactly when its children counts close, at its last entry, every subtree they open
(`TreeCode.Closes`, `TreeCode.decode_encode`). The records of a well-formed subtree do
(`Tree.closes_records`): the encoding of a subtree of a sound pool decodes to the entries of its
records (`Pool.decode_exportAt`).
-/

namespace TreeArena

namespace Varint

private theorem pow_top : (128 : Nat) ^ 9 = 9223372036854775808 := rfl

private theorem two_pow_64 : (2 : Nat) ^ 64 = 18446744073709551616 := rfl

theorem toNat_toUInt8_of_lt {n : Nat} (h : n < 256) : n.toUInt8.toNat = n := by
  simp [Nat.mod_eq_of_lt h]

/-- Reading from byte `i` on takes back a number whose groups end by the tenth byte and below the
sixty-fourth bit, adding it at the weight of byte `i`. -/
theorem readFrom_uvarint (n : Nat) :
    ∀ {i : Nat} (acc : Nat) (rest : List UInt8), i < 10 → n * 128 ^ i < 2 ^ 64 →
      readFrom i acc (uvarint n ++ rest) = .ok (acc + n * 128 ^ i, rest) := by
  induction n using Nat.strongRecOn with
  | ind n ih =>
    intro i acc rest hi hn
    rw [uvarint]
    split
    · rename_i hsmall
      have byte := toNat_toUInt8_of_lt (by omega : n < 256)
      -- the tenth byte may only carry the sixty-fourth bit
      have htop : i = 9 → n ≤ 1 := by
        rintro rfl
        rw [pow_top, two_pow_64] at hn
        omega
      rw [List.singleton_append, readFrom, if_neg (by omega), byte, if_pos hsmall,
        if_neg (by omega)]
      rfl
    · rename_i hbig
      have byte := toNat_toUInt8_of_lt (by omega : n % 128 + 128 < 256)
      have hsplit : n * 128 ^ i = n % 128 * 128 ^ i + n / 128 * 128 ^ (i + 1) := by
        rw [pow_succ]
        nth_rewrite 1 [← Nat.mod_add_div n 128]
        ring
      -- a number that goes on past this byte ends at a later one, so this is not the tenth
      have hnext : i + 1 < 10 := by
        by_contra hlast
        obtain rfl : i = 9 := by omega
        rw [pow_top, two_pow_64] at hn
        omega
      rw [List.cons_append, readFrom, if_neg (by omega), byte, if_neg (by omega),
        ih (n / 128) (by omega) _ _ hnext (by omega), hsplit, Nat.add_sub_cancel, Nat.add_assoc]
      rfl

theorem readUvarint_uvarint {n : Nat} (h : n < 2 ^ 64) (rest : List UInt8) :
    readUvarint (uvarint n ++ rest) = .ok (n, rest) := by
  rw [readUvarint]
  simpa using @readFrom_uvarint n 0 0 rest (by decide) (by simpa using h)

theorem uvarint_length_pos (n : Nat) : 0 < (uvarint n).length :=
  List.length_pos_iff.mpr (uvarint_ne_nil n)

end Varint

namespace Entry

/-- The counts reading accepts: a type that fits its byte, a children count and a payload length
within their fields. -/
structure Bounded (e : Entry) : Prop where
  kind_lt : e.kind < 256
  children_le : e.children ≤ maxCount
  payload_le : e.payload.length ≤ maxPayload

end Entry

namespace TreeCode

open Varint

theorem readEntry_encodeEntry (k : Nat) {e : Entry} (he : e.Bounded) (rest : List UInt8) :
    readEntry k (encodeEntry e ++ rest) = .ok (e, rest) := by
  have hc : e.children < 2 ^ 64 := by
    have := he.children_le
    unfold maxCount at this
    omega
  have hn : e.payload.length < 2 ^ 64 := by
    have := he.payload_le
    unfold maxPayload headerSize at this
    omega
  have hpay : ¬ (e.payload.length > maxPayload ∨ (e.payload ++ rest).length < e.payload.length) := by
    have := he.payload_le
    simp only [List.length_append, not_or]
    omega
  simp only [encodeEntry, List.cons_append, List.append_assoc, readEntry, readUvarint_uvarint hc,
    readUvarint_uvarint hn, if_neg (Nat.not_lt.mpr he.children_le), if_neg hpay, List.take_left',
    List.drop_left', toNat_toUInt8_of_lt he.kind_lt]

/-- `Closes p es`: read with `p` subtrees pending, the entries close the last of them at their last
entry. Each entry closes one pending subtree and opens one per child. -/
def Closes : Nat → List Entry → Prop
  | 0, es => es = []
  | _ + 1, [] => False
  | p + 1, e :: es => Closes (p + e.children) es

theorem encode_cons (e : Entry) (es : List Entry) :
    encode (e :: es) = encodeEntry e ++ encode es := by
  simp [encode]

theorem length_le_encode (es : List Entry) : es.length ≤ (encode es).length := by
  induction es with
  | nil => simp
  | cons e es ih =>
    rw [encode_cons, List.length_append, List.length_cons, encodeEntry, List.length_cons]
    omega

/-- Entries in range that close the pending subtrees read back after the ones read before. -/
theorem readNodes_encode {es : List Entry} (hb : ∀ e ∈ es, e.Bounded) :
    ∀ {fuel p : Nat} (acc : List Entry), Closes p es → es.length ≤ fuel →
      readNodes fuel p acc (encode es) = .ok (acc.reverse ++ es) := by
  induction es with
  | nil =>
    intro fuel p acc hc _
    cases p with
    | zero => simp [readNodes, encode]
    | succ p => exact hc.elim
  | cons e es ih =>
    intro fuel p acc hc hfuel
    cases p with
    | zero => cases hc
    | succ p =>
      obtain ⟨fuel, rfl⟩ : ∃ f, fuel = f + 1 := ⟨fuel - 1, by simp at hfuel; omega⟩
      rw [encode_cons, readNodes, readEntry_encodeEntry _ (hb e (.head _))]
      simp only
      rw [ih (fun e' he' => hb e' (.tail _ he')) (e :: acc) hc (by simpa using hfuel)]
      simp

/-- Entries in range that close the one subtree reading starts with decode to themselves. -/
theorem decode_encode {es : List Entry} (hc : Closes 1 es) (hb : ∀ e ∈ es, e.Bounded) :
    decode (encode es) = .ok es := by
  rw [decode, readNodes_encode hb [] hc (by have := length_le_encode es; omega)]
  rfl

end TreeCode

/-- The entry a record is written as. -/
def Node.entry (nd : Node) : Entry := ⟨nd.kind, nd.children, nd.payload⟩

namespace Tree

open TreeCode

/-- The entries of a well-formed subtree close one pending subtree, whatever follows them. -/
theorem closes_records {t : Tree} (ht : Wf t) (p : Nat) (rest : List Entry) :
    Closes (p + 1) (t.records.map Node.entry ++ rest) = Closes p rest := by
  induction ht generalizing p rest with
  | @node h ks hc _ ih =>
    -- the children's subtrees close, one by one, the subtrees their parent opened
    have hks : ∀ us, (∀ u ∈ us, u ∈ ks) → ∀ p rest,
        Closes (p + us.length) ((layout us).map Node.entry ++ rest) = Closes p rest := by
      intro us
      induction us with
      | nil => intro _ p rest; rfl
      | cons u us ihu =>
        intro hsub p rest
        rw [layout_cons, List.map_append, List.append_assoc, List.length_cons, ← Nat.add_assoc,
          ih u (hsub u (.head _)), ihu (fun v hv => hsub v (.tail _ hv))]
    rw [records_node, List.map_cons, List.cons_append, Closes, Node.entry]
    dsimp only
    rw [hc, hks ks fun _ h => h]

/-- The encoding of a well-formed subtree whose records are in range decodes to their entries. -/
theorem decode_encode_records {t : Tree} (ht : Wf t) (hb : ∀ nd ∈ t.records, nd.entry.Bounded) :
    decode (encode (t.records.map Node.entry)) = .ok (t.records.map Node.entry) := by
  refine decode_encode ?_ ?_
  · have := closes_records ht 0 []
    rw [List.append_nil] at this
    rw [this]
    rfl
  · intro e he
    obtain ⟨nd, hnd, rfl⟩ := List.mem_map.mp he
    exact hb nd hnd

end Tree

namespace Pool

open TreeArena.Tree

variable {p : Pool} {w : Nat → Nat}

theorem extract_fill {c : Ctx} {t : Tree} (hS : p.Sound w (c.fill [t])) :
    (p.nodes.extract c.pos (p.nodes.subtreeEnd c.pos)).toList = t.records := by
  have hl : p.nodes.toList = c.before ++ t.records ++ c.after := by
    rw [← hS.laid.layout_eq, Ctx.layout_fill, layout_singleton]
  rw [Ctx.pos, Arena.subtreeEnd_records hl hS.wf_fill, Array.toList_extract, hl,
    List.extract_eq_take_drop]
  simp [size]

theorem entriesAt_fill {c : Ctx} {t : Tree} (hS : p.Sound w (c.fill [t])) :
    p.entriesAt c.pos = t.records.map Node.entry := by
  rw [entriesAt, extract_fill hS]
  rfl

/-- A subtree of a sound pool whose records are in range exports to bytes that decode to its
records' entries. -/
theorem decode_exportAt {c : Ctx} {t : Tree} (hS : p.Sound w (c.fill [t]))
    (hb : ∀ nd ∈ t.records, nd.entry.Bounded) :
    TreeCode.decode (p.exportAt c.pos) = .ok (t.records.map Node.entry) := by
  rw [exportAt, entriesAt_fill hS]
  exact decode_encode_records hS.wf_fill hb

end Pool

end TreeArena

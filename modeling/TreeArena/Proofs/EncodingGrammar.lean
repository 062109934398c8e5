import TreeArena.Proofs.Transfer

/-!
# The grammar of the portable encoding

An encoded tree is a run of node records, each its type byte, its children count and its payload
length as unsigned varints, and its payload. Reading takes a varint in any spelling of at most ten
bytes whose high bits say where it ends (`Varint.Spelled`), redundant zero groups included, so
the records a reader accepts (`TreeCode.Record`) are not only those the writer produces.

Reading accepts exactly the records back to back (`TreeCode.Written`) whose children counts close
the one subtree it starts with at the last record (`TreeCode.decode_eq_ok_iff`). Every other input
is rejected with the first fault (`TreeCode.Rejected`, `TreeCode.decode_eq_error_iff`): a record
that cannot be read, named by the number of records before it, or bytes after the complete tree.
The reading loop ends within as many rounds as there are bytes (`TreeCode.readNodes_fuel`), so the
bound on its rounds never decides the answer.

Main statement: `Heap.encoded_trees_read_exactly`, which adds that a rejected input leaves the
heap as it was, and that an accepted input spelled minimally (`Varint.Minimal`) and holding no
failure record comes back byte for byte as the export of the tree it is read into.
-/

namespace TreeArena

namespace Varint

/-- The number little-endian base-128 groups stand for: the low seven bits of each byte, the
lowest group first. -/
def groupValue : List UInt8 → Nat
  | [] => 0
  | b :: bs => b.toNat % 128 + 128 * groupValue bs

/-- `Spelled bs`: `bs` is one unsigned varint as reading takes it: the high bit set on every byte
but the last, at most ten bytes, and a tenth byte carrying at most the sixty-fourth bit. -/
def Spelled (bs : List UInt8) : Prop :=
  ∃ init last, bs = init ++ [last] ∧ (∀ b ∈ init, 128 ≤ b.toNat) ∧ last.toNat < 128 ∧
    init.length < 10 ∧ (init.length = 9 → last.toNat ≤ 1)

/-- A spelling is minimal when its last group is zero only if it is its only group. -/
def Minimal (bs : List UInt8) : Prop := ∀ init, bs = init ++ [0] → init = []

theorem groupValue_single {b : UInt8} (hb : b.toNat < 128) : groupValue [b] = b.toNat := by
  simp [groupValue, Nat.mod_eq_of_lt hb]

/-- Reading from byte `i` on takes back the groups up to the first byte below 128, added at the
weight of byte `i`, as long as they end by the tenth byte and below the sixty-fourth bit. -/
theorem readFrom_groups {last : UInt8} (hlast : last.toNat < 128) (rest : List UInt8) :
    ∀ (init : List UInt8) {i : Nat} (acc : Nat), (∀ b ∈ init, 128 ≤ b.toNat) →
      i + init.length < 10 → (i + init.length = 9 → last.toNat ≤ 1) →
      readFrom i acc (init ++ last :: rest) = .ok (acc + 128 ^ i * groupValue (init ++ [last]), rest)
  | [], i, acc, _, hi, htop => by
    rw [List.nil_append, readFrom, if_neg (by omega), if_pos hlast, if_neg (by simp at htop; omega),
      List.nil_append, groupValue_single hlast, Nat.pow_eq, Nat.mul_comm]
  | b :: init, i, acc, hb, hi, htop => by
    have hb128 := hb b List.mem_cons_self
    have hlt := UInt8.toNat_lt b
    simp only [List.length_cons] at hi htop
    rw [List.cons_append, readFrom, if_neg (by omega), if_neg (by omega),
      readFrom_groups hlast rest init _ (fun b' h' => hb b' (List.mem_cons_of_mem _ h')) (by omega)
        (by omega), List.cons_append, groupValue, Nat.pow_eq, Nat.pow_succ]
    -- the byte's low seven bits are its value less the high bit
    have hlow : b.toNat % 128 = b.toNat - 128 := by omega
    rw [hlow, Nat.mul_add, Nat.add_assoc, Nat.mul_comm (b.toNat - 128), Nat.mul_assoc]

/-- What reading from byte `i` on takes is a run of bytes with the high bit set, ending in one
without, by the tenth byte and below the sixty-fourth bit. -/
theorem readFrom_eq_ok : ∀ (data : List UInt8) {i acc n : Nat} {rest : List UInt8}, i ≤ 10 →
    readFrom i acc data = .ok (n, rest) →
      ∃ init last, (∀ b ∈ init, 128 ≤ b.toNat) ∧ last.toNat < 128 ∧ i + init.length < 10 ∧
        (i + init.length = 9 → last.toNat ≤ 1) ∧ data = init ++ last :: rest ∧
        n = acc + 128 ^ i * groupValue (init ++ [last])
  | [], _, _, _, _, _, h => by cases h
  | b :: data, i, acc, n, rest, hi10, h => by
    have hlt := UInt8.toNat_lt b
    rw [readFrom] at h
    split at h
    · cases h
    · rename_i hi
      split at h
      · rename_i hb
        split at h
        · cases h
        · rename_i htop
          cases h
          refine ⟨[], b, by simp, hb, by simp; omega, by simp at htop ⊢; omega, rfl, ?_⟩
          rw [List.nil_append, groupValue_single hb, Nat.pow_eq, Nat.mul_comm]
      · rename_i hb
        obtain ⟨init, last, hinit, hlast, hlen, htop, rfl, rfl⟩ := readFrom_eq_ok data (by omega) h
        refine ⟨b :: init, last, ?_, hlast, by simp; omega, by simp; omega, rfl, ?_⟩
        · intro b' hb'
          rcases List.mem_cons.mp hb' with rfl | hb'
          · omega
          · exact hinit b' hb'
        · rw [List.cons_append, groupValue, Nat.pow_succ]
          have hlow : b.toNat % 128 = b.toNat - 128 := by omega
          rw [hlow, Nat.mul_add, Nat.add_assoc, Nat.mul_comm (b.toNat - 128), Nat.mul_assoc, Nat.pow_eq]

/-- A spelled varint reads back as the number its groups stand for, with the bytes after it
untouched. -/
theorem readUvarint_spelled {bs : List UInt8} (h : Spelled bs) (rest : List UInt8) :
    readUvarint (bs ++ rest) = .ok (groupValue bs, rest) := by
  obtain ⟨init, last, rfl, hinit, hlast, hlen, htop⟩ := h
  rw [readUvarint, List.append_assoc, List.singleton_append,
    readFrom_groups hlast rest init 0 hinit (by omega) (by omega)]
  simp

/-- What reading a varint takes is a spelling of the number it returns. -/
theorem readUvarint_eq_ok {data rest : List UInt8} {n : Nat}
    (h : readUvarint data = .ok (n, rest)) :
    ∃ bs, Spelled bs ∧ data = bs ++ rest ∧ n = groupValue bs := by
  obtain ⟨init, last, hinit, hlast, hlen, htop, rfl, rfl⟩ := readFrom_eq_ok data (by omega) h
  exact ⟨init ++ [last], ⟨init, last, rfl, hinit, hlast, by omega, by omega⟩, by simp, by simp⟩

/-- Reading a varint fails exactly when the bytes start with no spelling of one. -/
theorem readUvarint_eq_error {data : List UInt8} {e : ReadError} (h : readUvarint data = .error e)
    {bs rest : List UInt8} (hs : Spelled bs) : data ≠ bs ++ rest := by
  rintro rfl
  rw [readUvarint_spelled hs] at h
  cases h

/-- Groups ending in a nonzero group stand for a nonzero number. -/
theorem groupValue_pos {last : UInt8} (hlast : last.toNat < 128) (hne : last ≠ 0) :
    ∀ init : List UInt8, 0 < groupValue (init ++ [last])
  | [] => by
    rw [List.nil_append, groupValue_single hlast]
    exact Nat.pos_of_ne_zero fun h => hne (UInt8.toNat_inj.mp (by simpa using h))
  | b :: init => by
    have := groupValue_pos hlast hne init
    rw [List.cons_append, groupValue]
    omega

/-- A minimal spelling is the one the writer produces. -/
theorem uvarint_groups {last : UInt8} (hlast : last.toNat < 128) :
    ∀ init : List UInt8, (∀ b ∈ init, 128 ≤ b.toNat) → (init ≠ [] → last ≠ 0) →
      uvarint (groupValue (init ++ [last])) = init ++ [last]
  | [], _, _ => by
    rw [List.nil_append, groupValue_single hlast, uvarint, dif_pos hlast]
    simp
  | b :: init, hb, hne => by
    have hb128 := hb b List.mem_cons_self
    have hlt := UInt8.toNat_lt b
    have hpos := groupValue_pos hlast (hne (List.cons_ne_nil _ _)) init
    have hrest := uvarint_groups hlast init (fun b' h' => hb b' (List.mem_cons_of_mem _ h'))
      fun _ => hne (List.cons_ne_nil _ _)
    rw [List.cons_append, groupValue, uvarint, dif_neg (by omega)]
    -- the low group is the byte's, and the rest is written from the higher groups
    have hmod : (b.toNat % 128 + 128 * groupValue (init ++ [last])) % 128 + 128 = b.toNat := by omega
    have hdiv : (b.toNat % 128 + 128 * groupValue (init ++ [last])) / 128 =
        groupValue (init ++ [last]) := by omega
    rw [hmod, hdiv, hrest]
    simp

theorem uvarint_of_minimal {bs : List UInt8} (hs : Spelled bs) (hm : Minimal bs) :
    uvarint (groupValue bs) = bs := by
  obtain ⟨init, last, rfl, hinit, hlast, -, -⟩ := hs
  refine uvarint_groups hlast init hinit fun hne hz => hne (hm init ?_)
  rw [hz]

end Varint

namespace TreeCode

open Varint

/-- `Record e sp b`: the bytes `b` are the record of entry `e` in range, with `sp` the spellings
of its children count and of its payload length: its type byte, the two counts as varints
reading takes, and its payload. -/
structure Record (e : Entry) (sp : List UInt8 × List UInt8) (b : List UInt8) : Prop where
  bytes_eq : b = e.kind.toUInt8 :: (sp.1 ++ sp.2 ++ e.payload)
  bounded : e.Bounded
  children_spelled : Spelled sp.1
  children_eq : groupValue sp.1 = e.children
  length_spelled : Spelled sp.2
  length_eq : groupValue sp.2 = e.payload.length

/-- `Written es sps data`: `data` is the records of `es` back to back, spelled by `sps`. -/
inductive Written : List Entry → List (List UInt8 × List UInt8) → List UInt8 → Prop where
  | nil : Written [] [] []
  | cons {e : Entry} {es : List Entry} {sp : List UInt8 × List UInt8}
      {sps : List (List UInt8 × List UInt8)} {b rest : List UInt8} :
      Record e sp b → Written es sps rest → Written (e :: es) (sp :: sps) (b ++ rest)

/-- `Pending p es`: read with `p` subtrees pending, the entries leave some pending after each. -/
def Pending : Nat → List Entry → Prop
  | 0, _ => False
  | _ + 1, [] => True
  | p + 1, e :: es => Pending (p + e.children) es

/-- `Faulty k rest err`: no record can be read at the start of `rest`, where record `k` is due,
and `err` says why: no byte is left; no varint in range follows the type byte as children count;
or none follows the children count as payload length that is in range and fits in the bytes
left. -/
inductive Faulty (k : Nat) : List UInt8 → DecodeError → Prop where
  | truncated : Faulty k [] (.truncated k)
  | badChildren {t : UInt8} {rest : List UInt8}
      (h : ∀ cs r, Spelled cs → rest = cs ++ r → maxCount < groupValue cs) :
      Faulty k (t :: rest) (.badChildren k)
  | badPayload {t : UInt8} {cs rest : List UInt8} (hc : Spelled cs)
      (hle : groupValue cs ≤ maxCount)
      (h : ∀ ns r, Spelled ns → rest = ns ++ r →
        maxPayload < groupValue ns ∨ r.length < groupValue ns) :
      Faulty k (t :: (cs ++ rest)) (.badPayload k)

/-- `Rejected data err`: `data` is no encoded tree, and `err` names the first fault: the records
of `es` read, with subtrees still pending, and then no record can be read; or the records of a
complete tree are followed by more bytes. -/
inductive Rejected : List UInt8 → DecodeError → Prop where
  | record {es : List Entry} {sps : List (List UInt8 × List UInt8)} {pre rest : List UInt8}
      {err : DecodeError} :
      Written es sps pre → Pending 1 es → Faulty es.length rest err → Rejected (pre ++ rest) err
  | trailing {es : List Entry} {sps : List (List UInt8 × List UInt8)} {pre rest : List UInt8} :
      Written es sps pre → Closes 1 es → rest ≠ [] → Rejected (pre ++ rest) (.trailing rest.length)

/-! ### One record -/

theorem Record.length_pos {e : Entry} {sp : List UInt8 × List UInt8} {b : List UInt8}
    (h : Record e sp b) : 0 < b.length := by
  rw [h.bytes_eq]
  simp

theorem readEntry_record {e : Entry} {sp : List UInt8 × List UInt8} {b : List UInt8}
    (h : Record e sp b) (k : Nat) (rest : List UInt8) : readEntry k (b ++ rest) = .ok (e, rest) := by
  have hpay : ¬ (e.payload.length > maxPayload ∨ (e.payload ++ rest).length < e.payload.length) := by
    have := h.bounded.payload_le
    simp only [List.length_append, not_or]
    omega
  rw [h.bytes_eq, List.cons_append, readEntry, List.append_assoc, List.append_assoc,
    readUvarint_spelled h.children_spelled]
  simp only
  rw [h.children_eq, if_neg (Nat.not_lt.mpr h.bounded.children_le),
    readUvarint_spelled h.length_spelled]
  simp only
  rw [h.length_eq, if_neg hpay, List.take_left' rfl, List.drop_left' rfl,
    toNat_toUInt8_of_lt h.bounded.kind_lt]

/-- What reading one node takes is a record. -/
theorem record_of_readEntry {k : Nat} {data rest : List UInt8} {e : Entry}
    (h : readEntry k data = .ok (e, rest)) : ∃ sp b, Record e sp b ∧ data = b ++ rest := by
  unfold readEntry at h
  split at h
  · cases h
  · rename_i t data
    split at h
    · cases h
    · rename_i c r hc
      split at h
      · cases h
      · rename_i hcmax
        split at h
        · cases h
        · rename_i n r' hn
          split at h
          · cases h
          · rename_i hfit
            cases h
            obtain ⟨cs, hcs, rfl, rfl⟩ := readUvarint_eq_ok hc
            obtain ⟨ns, hns, rfl, rfl⟩ := readUvarint_eq_ok hn
            simp only [not_or, not_lt] at hfit
            refine ⟨(cs, ns), t :: (cs ++ ns ++ r'.take (groupValue ns)), ⟨?_, ⟨UInt8.toNat_lt t,
              show groupValue cs ≤ maxCount by omega, by simp; omega⟩, hcs, rfl, hns, by simp; omega⟩, ?_⟩
            · simp
            · simp

theorem readEntry_faulty {k : Nat} {data : List UInt8} {err : DecodeError} (h : Faulty k data err) :
    readEntry k data = .error err := by
  cases h with
  | truncated => rfl
  | @badChildren t rest hbad =>
    rw [readEntry]
    cases hc : readUvarint rest with
    | error e => rfl
    | ok res =>
      obtain ⟨c, r⟩ := res
      obtain ⟨cs, hcs, rfl, rfl⟩ := readUvarint_eq_ok hc
      simp only
      rw [if_pos (hbad cs r hcs rfl)]
  | @badPayload t cs rest hcs hle hbad =>
    rw [readEntry, readUvarint_spelled hcs]
    simp only
    rw [if_neg (Nat.not_lt.mpr hle)]
    cases hn : readUvarint rest with
    | error e => rfl
    | ok res =>
      obtain ⟨n, r⟩ := res
      obtain ⟨ns, hns, rfl, rfl⟩ := readUvarint_eq_ok hn
      simp only
      rw [if_pos (hbad ns r hns rfl)]

/-- A node that cannot be read is a faulty record, with the fault reading reports. -/
theorem faulty_of_readEntry {k : Nat} {data : List UInt8} {err : DecodeError}
    (h : readEntry k data = .error err) : Faulty k data err := by
  unfold readEntry at h
  split at h
  · cases h
    exact .truncated
  · rename_i t rest
    split at h
    · rename_i hc
      cases h
      exact .badChildren fun cs r hcs hr => absurd hr (readUvarint_eq_error hc hcs)
    · rename_i c r hc
      obtain ⟨cs, hcs, rfl, rfl⟩ := readUvarint_eq_ok hc
      have hone : ∀ cs' r', Spelled cs' → cs ++ r = cs' ++ r' → groupValue cs' = groupValue cs ∧ r' = r := by
        intro cs' r' hcs' heq
        have := readUvarint_spelled hcs' r'
        rw [← heq, readUvarint_spelled hcs] at this
        obtain ⟨h₁, h₂⟩ := Prod.mk.inj (Except.ok.inj this)
        exact ⟨h₁.symm, h₂.symm⟩
      split at h
      · rename_i hbig
        cases h
        exact .badChildren fun cs' r' hcs' heq => by rw [(hone cs' r' hcs' heq).1]; exact hbig
      · rename_i hle
        split at h
        · rename_i hn
          cases h
          exact .badPayload hcs (by omega) fun ns r' hns hr => absurd hr (readUvarint_eq_error hn hns)
        · rename_i n r' hn
          split at h
          · rename_i hbad
            cases h
            obtain ⟨ns, hns, rfl, rfl⟩ := readUvarint_eq_ok hn
            refine .badPayload hcs (by omega) fun ns' r'' hns' heq => ?_
            have := readUvarint_spelled hns' r''
            rw [← heq, readUvarint_spelled hns] at this
            obtain ⟨h₁, h₂⟩ := Prod.mk.inj (Except.ok.inj this)
            rw [← h₁, ← h₂]
            omega
          · cases h

/-! ### The reading loop -/

theorem readEntry_shorter {k : Nat} {data rest : List UInt8} {e : Entry}
    (h : readEntry k data = .ok (e, rest)) : rest.length < data.length := by
  obtain ⟨sp, b, hr, rfl⟩ := record_of_readEntry h
  have := hr.length_pos
  simp
  omega

/-- The loop ends within as many rounds as there are bytes: any larger bound gives the same
answer. -/
theorem readNodes_fuel : ∀ {fuel fuel' p : Nat} {acc : List Entry} {data : List UInt8},
    data.length < fuel → data.length < fuel' → readNodes fuel p acc data = readNodes fuel' p acc data
  | _, _, 0, _, _, _, _ => by simp only [readNodes]
  | 0, _, _ + 1, _, _, h, _ => absurd h (Nat.not_lt_zero _)
  | _ + 1, 0, _ + 1, _, _, _, h' => absurd h' (Nat.not_lt_zero _)
  | fuel + 1, fuel' + 1, p + 1, acc, data, h, h' => by
    rw [readNodes, readNodes]
    cases hr : readEntry acc.length data with
    | error e => rfl
    | ok res =>
      obtain ⟨e, rest⟩ := res
      have := readEntry_shorter hr
      exact readNodes_fuel (by omega) (by omega)

/-- Records that close the pending subtrees read back after the entries read before, and bytes
after them are reported as trailing. -/
theorem readNodes_written {es : List Entry} {sps : List (List UInt8 × List UInt8)} {pre : List UInt8}
    (hw : Written es sps pre) (rest : List UInt8) :
    ∀ {fuel p : Nat} (acc : List Entry), Closes p es → es.length ≤ fuel →
      readNodes fuel p acc (pre ++ rest) =
        if rest = [] then .ok (acc.reverse ++ es) else .error (.trailing rest.length) := by
  induction hw with
  | nil =>
    intro fuel p acc hc _
    cases p with
    | zero => simp [readNodes]
    | succ p => exact hc.elim
  | @cons e es sp sps b pre' hr _ ih =>
    intro fuel p acc hc hfuel
    cases p with
    | zero => cases hc
    | succ p =>
      obtain ⟨fuel, rfl⟩ : ∃ f, fuel = f + 1 := ⟨fuel - 1, by simp at hfuel; omega⟩
      rw [List.append_assoc, readNodes, readEntry_record hr]
      simp only
      rw [ih (e :: acc) hc (by simpa using hfuel)]
      simp

/-- Records that leave subtrees pending, followed by a faulty one, are rejected with its fault. -/
theorem readNodes_faulty {es : List Entry} {sps : List (List UInt8 × List UInt8)} {pre : List UInt8}
    (hw : Written es sps pre) {rest : List UInt8} {err : DecodeError} :
    ∀ {fuel p : Nat} (acc : List Entry), Pending p es → Faulty (acc.length + es.length) rest err →
      es.length < fuel → readNodes fuel p acc (pre ++ rest) = .error err := by
  induction hw with
  | nil =>
    intro fuel p acc hp hf hfuel
    obtain ⟨fuel, rfl⟩ : ∃ f, fuel = f + 1 := ⟨fuel - 1, by simp at hfuel; omega⟩
    cases p with
    | zero => exact hp.elim
    | succ p =>
      rw [List.nil_append, readNodes, readEntry_faulty (by simpa using hf)]
  | @cons e es sp sps b pre' hr _ ih =>
    intro fuel p acc hp hf hfuel
    obtain ⟨fuel, rfl⟩ : ∃ f, fuel = f + 1 := ⟨fuel - 1, by simp at hfuel; omega⟩
    cases p with
    | zero => exact hp.elim
    | succ p =>
      rw [List.append_assoc, readNodes, readEntry_record hr]
      simp only
      exact ih (e :: acc) hp (by simpa [Nat.add_assoc, Nat.add_comm 1] using hf)
        (by simpa using hfuel)

/-- What the loop accepts is records that close the pending subtrees, after the entries read
before. -/
theorem written_of_readNodes : ∀ {fuel p : Nat} {acc es' : List Entry} {data : List UInt8},
    readNodes fuel p acc data = .ok es' →
      ∃ es sps, Written es sps data ∧ Closes p es ∧ es' = acc.reverse ++ es
  | _, 0, acc, es', data, h => by
    rw [readNodes] at h
    split at h
    · rename_i hd
      cases h
      exact ⟨[], [], hd ▸ .nil, rfl, by simp⟩
    · cases h
  | 0, _ + 1, _, _, _, h => by cases h
  | fuel + 1, p + 1, acc, es', data, h => by
    rw [readNodes] at h
    split at h
    · cases h
    · rename_i e rest hr
      obtain ⟨sp, b, hrec, rfl⟩ := record_of_readEntry hr
      obtain ⟨es, sps, hw, hc, rfl⟩ := written_of_readNodes h
      exact ⟨e :: es, sp :: sps, .cons hrec hw, hc, by simp⟩

/-- What the loop rejects, with more rounds than bytes, is records that leave subtrees pending
followed by a faulty one, or records that close them followed by more bytes. -/
theorem rejected_of_readNodes : ∀ {fuel p : Nat} {acc : List Entry} {data : List UInt8}
    {err : DecodeError}, readNodes fuel p acc data = .error err → data.length < fuel →
      (∃ es sps pre rest, Written es sps pre ∧ Pending p es ∧
        Faulty (acc.length + es.length) rest err ∧ data = pre ++ rest) ∨
      (∃ es sps pre rest, Written es sps pre ∧ Closes p es ∧ rest ≠ [] ∧ data = pre ++ rest ∧
        err = .trailing rest.length)
  | _, 0, acc, data, err, h, _ => by
    rw [readNodes] at h
    split at h
    · cases h
    · rename_i hd
      cases h
      exact .inr ⟨[], [], [], data, .nil, rfl, hd, rfl, rfl⟩
  | 0, _ + 1, _, _, _, _, hfuel => absurd hfuel (Nat.not_lt_zero _)
  | fuel + 1, p + 1, acc, data, err, h, hfuel => by
    rw [readNodes] at h
    split at h
    · rename_i e hr
      cases h
      exact .inl ⟨[], [], [], data, .nil, trivial, faulty_of_readEntry hr, rfl⟩
    · rename_i e rest hr
      have hshort := readEntry_shorter hr
      obtain ⟨sp, b, hrec, rfl⟩ := record_of_readEntry hr
      rcases rejected_of_readNodes h (by omega) with
        ⟨es, sps, pre, rest', hw, hp, hf, rfl⟩ | ⟨es, sps, pre, rest', hw, hc, hne, rfl, rfl⟩
      · refine .inl ⟨e :: es, sp :: sps, b ++ pre, rest', .cons hrec hw, hp, ?_, by simp⟩
        simpa [Nat.add_assoc, Nat.add_comm 1] using hf
      · exact .inr ⟨e :: es, sp :: sps, b ++ pre, rest', .cons hrec hw, hc, hne, by simp, rfl⟩

/-! ### Reading one tree -/

theorem Written.length_le {es : List Entry} {sps : List (List UInt8 × List UInt8)} {data : List UInt8}
    (hw : Written es sps data) : es.length ≤ data.length := by
  induction hw with
  | nil => simp
  | cons hr _ ih =>
    have := hr.length_pos
    simp
    omega

/-- Reading accepts exactly the records back to back that close the one subtree it starts with. -/
theorem decode_eq_ok_iff {data : List UInt8} {es : List Entry} :
    decode data = .ok es ↔ ∃ sps, Written es sps data ∧ Closes 1 es := by
  constructor
  · intro h
    obtain ⟨es', sps, hw, hc, rfl⟩ := written_of_readNodes h
    exact ⟨sps, by simpa using hw, hc⟩
  · rintro ⟨sps, hw, hc⟩
    have hlen : es.length ≤ data.length + 1 := by
      have := hw.length_le
      omega
    have := readNodes_written hw [] [] hc hlen
    simpa [decode] using this

/-- Reading rejects exactly the inputs that are no encoded tree, with the first fault. -/
theorem decode_eq_error_iff {data : List UInt8} {err : DecodeError} :
    decode data = .error err ↔ Rejected data err := by
  constructor
  · intro h
    rcases rejected_of_readNodes h (Nat.lt_succ_self _) with
      ⟨es, sps, pre, rest, hw, hp, hf, rfl⟩ | ⟨es, sps, pre, rest, hw, hc, hne, rfl, rfl⟩
    · exact .record hw hp (by simpa using hf)
    · exact .trailing hw hc hne
  · intro h
    cases h with
    | record hw hp hf =>
      have := hw.length_le
      exact readNodes_faulty hw [] hp (by simpa using hf) (by simp; omega)
    | trailing hw hc hne =>
      have := hw.length_le
      rw [decode, readNodes_written hw _ [] hc (by simp; omega), if_neg hne]

/-- Records spelled minimally are the encoding of their entries. -/
theorem encode_of_minimal {es : List Entry} {sps : List (List UInt8 × List UInt8)} {data : List UInt8}
    (hw : Written es sps data) (hm : ∀ sp ∈ sps, Minimal sp.1 ∧ Minimal sp.2) :
    encode es = data := by
  induction hw with
  | nil => rfl
  | @cons e es sp sps b rest hr _ ih =>
    obtain ⟨hm₁, hm₂⟩ := hm sp List.mem_cons_self
    rw [encode_cons, ih fun sp' h' => hm sp' (List.mem_cons_of_mem _ h'), hr.bytes_eq, encodeEntry,
      ← hr.children_eq, ← hr.length_eq, uvarint_of_minimal hr.children_spelled hm₁,
      uvarint_of_minimal hr.length_spelled hm₂]

end TreeCode

/-- Every decoding error says the encoding is malformed, and then which fault. -/
theorem DecodeError.message_malformed (err : DecodeError) :
    ∃ detail, err.message = "malformed tree encoding: " ++ detail := by
  -- each message is one literal followed by the fault's numbers: split the prefix off it
  cases err with
  | truncated k =>
    have hmsg : (truncated k).message =
        "malformed tree encoding: truncated after " ++ toString k ++ " nodes" := rfl
    have hsplit : "malformed tree encoding: truncated after " =
        "malformed tree encoding: " ++ "truncated after " := by decide
    refine ⟨"truncated after " ++ toString k ++ " nodes", ?_⟩
    rw [hmsg, hsplit, String.append_assoc, String.append_assoc, String.append_assoc]
  | badChildren k =>
    have hmsg : (badChildren k).message =
        "malformed tree encoding: bad children count at node " ++ toString k := rfl
    have hsplit : "malformed tree encoding: bad children count at node " =
        "malformed tree encoding: " ++ "bad children count at node " := by decide
    refine ⟨"bad children count at node " ++ toString k, ?_⟩
    rw [hmsg, hsplit, String.append_assoc]
  | badPayload k =>
    have hmsg : (badPayload k).message =
        "malformed tree encoding: bad payload at node " ++ toString k := rfl
    have hsplit : "malformed tree encoding: bad payload at node " =
        "malformed tree encoding: " ++ "bad payload at node " := by decide
    refine ⟨"bad payload at node " ++ toString k, ?_⟩
    rw [hmsg, hsplit, String.append_assoc]
  | trailing n =>
    have hmsg : (trailing n).message =
        "malformed tree encoding: " ++ toString n ++ " trailing bytes" := rfl
    exact ⟨toString n ++ " trailing bytes", by rw [hmsg, String.append_assoc]⟩

namespace Heap

open Pool TreeArena.Tree

variable {h h' : Heap} {own : List Handle} {b : Bool}

/-- Reading malformed bytes into a pool is an error, and leaves the heap as it was. -/
theorem run_decodeInto_error {k : Nat} {q : Pool} (hq : h.pools[k]? = some q) {data : List UInt8}
    {err : DecodeError} (hdec : TreeCode.decode data = .error err) :
    (decodeInto k data).run h = .ok (.error err) h := by
  have hrun : (importTree data).run q = .ok (.error err) q := by
    unfold importTree
    rw [hdec]
    rfl
  unfold decodeInto
  rw [run_bind_ok (run_onPool_ok hq hrun), setIfInBounds_self hq]
  rfl

/-- In every heap reached from pools just built, reading bytes into a pool accepts exactly the
records back to back that close one tree, and rejects every other input with the first fault,
within as many rounds as there are bytes; a rejection leaves the heap as it was and says the
encoding is malformed; and an accepted input spelled minimally, holding no failure record, read
into a pool with room for its bytes and records, is given back byte for byte by the export of
the tree it becomes. -/
theorem encoded_trees_read_exactly (hf : h.Fresh) (hrun : Ops b [] h own h') {k : Nat} {q : Pool}
    (hq : h'.pools[k]? = some q) (data : List UInt8) :
    (∀ es, TreeCode.decode data = .ok es ↔
      ∃ sps, TreeCode.Written es sps data ∧ TreeCode.Closes 1 es) ∧
    (∀ err, TreeCode.decode data = .error err ↔ TreeCode.Rejected data err) ∧
    (∀ fuel, data.length < fuel → TreeCode.readNodes fuel 1 [] data = TreeCode.decode data) ∧
    (∀ err, TreeCode.decode data = .error err →
      (decodeInto k data).run h' = .ok (.error err) h' ∧
        ∃ detail, err.message = "malformed tree encoding: " ++ detail) ∧
    (∀ es sps, TreeCode.Written es sps data → TreeCode.Closes 1 es →
      (∀ sp ∈ sps, Varint.Minimal sp.1 ∧ Varint.Minimal sp.2) →
      (∀ e ∈ es, e.kind ≠ failureKind) → q.used + TreeCode.arenaSize es ≤ q.limit →
      es.length ≤ q.slots.free →
      ∃ ref h'', (decodeInto k data).run h' = .ok (.ok ref) h'' ∧
        (encodeTree ref).run h'' = .ok data h'') := by
  refine ⟨fun es => TreeCode.decode_eq_ok_iff, fun err => TreeCode.decode_eq_error_iff,
    fun fuel hfuel => TreeCode.readNodes_fuel hfuel (Nat.lt_succ_self _),
    fun err hdec => ⟨run_decodeInto_error hq hdec, err.message_malformed⟩, ?_⟩
  intro es sps hw hc hm hk hroom hfree
  obtain ⟨L, hE, -⟩ := fresh_runs_exact hf hrun
  obtain ⟨ts, hK⟩ := hE.kept hq
  have hdec : TreeCode.decode data = .ok es := TreeCode.decode_eq_ok_iff.mpr ⟨sps, hw, hc⟩
  obtain ⟨T, q', himp, -, -, hres, -, hent⟩ :=
    hK.import_root (hE.free_owes hq hK) hdec hk hroom hfree
  have hq' : (⟨h'.pools.setIfInBounds k q'⟩ : Heap).pools[k]? = some q' :=
    getElem?_setIfInBounds_pools_self hq _
  have hfind : Finds ⟨h'.pools.setIfInBounds k q'⟩ ⟨some k, q'.slots.idOf T.head.slot⟩ k q'
      q.nodes.size := ⟨rfl, hq', hres⟩
  obtain ⟨a, h₂, hexp, ha, rfl⟩ := returns_inspect hfind fun p i => p.exportAt i
  refine ⟨_, _, run_decodeInto_root hq himp, ?_⟩
  unfold Heap.encodeTree
  rw [hexp, ha, exportAt, hent, TreeCode.encode_of_minimal hw hm]

/-- The record of one childless node of type 1, read into a pool just built. -/
theorem tree_bytes_read_in_new_pool :
    ∃ p, Pool.new 0 64 {} = .ok p ∧
      let h : Heap := ⟨#[p]⟩
      let data : List UInt8 := [1, 0, 0]
      (∀ es, TreeCode.decode data = .ok es ↔
        ∃ sps, TreeCode.Written es sps data ∧ TreeCode.Closes 1 es) ∧
      (∀ err, TreeCode.decode data = .error err ↔ TreeCode.Rejected data err) ∧
      (∀ fuel, data.length < fuel → TreeCode.readNodes fuel 1 [] data = TreeCode.decode data) ∧
      (∀ err, TreeCode.decode data = .error err →
        (decodeInto 0 data).run h = .ok (.error err) h ∧
          ∃ detail, err.message = "malformed tree encoding: " ++ detail) ∧
      (∀ es sps, TreeCode.Written es sps data → TreeCode.Closes 1 es →
        (∀ sp ∈ sps, Varint.Minimal sp.1 ∧ Varint.Minimal sp.2) →
        (∀ e ∈ es, e.kind ≠ failureKind) → p.used + TreeCode.arenaSize es ≤ p.limit →
        es.length ≤ p.slots.free →
        ∃ ref h'', (decodeInto 0 data).run h = .ok (.ok ref) h'' ∧
          (encodeTree ref).run h'' = .ok data h'') := by
  have hp : Pool.new 0 64 {} = .ok _ := rfl
  exact ⟨_, hp, encoded_trees_read_exactly (k := 0) (fresh_of_new hp) .refl rfl [1, 0, 0]⟩

end Heap

end TreeArena

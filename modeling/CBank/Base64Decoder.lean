import CBank.Base64Encoder

/-!
# The Base64 Decoder

`base64decode` of `jwt/base64.c` with the block it allocates. The block is sized from the last two
characters of the text; every group of four characters decides anew, by its own third and fourth
character, how many bytes it writes. Every group writes at most three, and the last one as many as
the size counts, so the stores stay inside the block wherever `=` stands.

The decoder looks `=` up like any other character, and never at the bits it shifts out. A text
decodes and is encoded to itself again exactly when it is canonical.

## Main results

* `decodeRun_result`, `index_decodeRun`: what the loop returns, and where it stores.
* `base64DecodeBlock_bounds`: the decoder stays inside its block.
* `base64DecodeBlock_eq`: it leaves there what `base64Decode` decodes.
* `decodesCanonically_iff`: when a text is what its bytes are encoded to.
-/

namespace CBank

open CLib

/-! ### The decoder and its block -/

/-- `out_len`: three bytes for every four characters, less the padding among the last two. -/
def decodedLen (data : Bytes) : ℕ :=
  let outLen := data.length / 4 * 3
  let outLen := if data[data.length - 1]? = some (ch '=') then outLen - 1 else outLen
  if data[data.length - 2]? = some (ch '=') then outLen - 1 else outLen

/-- The loop of `base64decode`, from `output_idx` on: what it stores, and `output_idx` at its end;
`none` when a character is outside the table. -/
def decodeRun (outputIdx : ℕ) : Bytes → List Write × Option ℕ
  | c0 :: c1 :: c2 :: c3 :: rest =>
      match decodeQuad c0 c1 c2 c3 with
      | none => ([], none)
      | some bytes =>
          let more := decodeRun (outputIdx + bytes.length) rest
          (writesFrom outputIdx bytes ++ more.1, more.2)
  | _ => ([], some outputIdx)

/-- What `base64decode` stores in its block, and the block with the length it reports; `none` is
NULL. -/
def base64DecodeBlock (A : Allocator) (data : Bytes) : List Write × Option (Bytes × ℕ) :=
  if data.length % 4 ≠ 0 then ([], none)
  else match A.alloc (decodedLen data) with
    | none => ([], none)
    | some block =>
        let run := decodeRun 0 data
        (run.1, run.2.map fun outputIdx => (run.1.foldl Write.apply block, outputIdx))

/-! ### The table -/

/-- What holds of the first 256 numbers holds of every byte. -/
theorem forall_byte {P : UInt8 → Prop} (h : ∀ n < 256, P (UInt8.ofNat n)) (c : UInt8) : P c := by
  have hc := h c.toNat c.toNat_lt
  rwa [UInt8.ofNat_toNat] at hc

/-- A character of the table that is not `=` is that of its value. -/
theorem b64Table_b64DecTable {c : UInt8} (hc : b64DecTable c ≠ 0x80) (hpad : c ≠ ch '=') :
    b64DecTable c < 64 ∧ b64Table.getD (b64DecTable c) 0 = c :=
  forall_byte (P := fun c => b64DecTable c ≠ 0x80 → c ≠ ch '=' →
    b64DecTable c < 64 ∧ b64Table.getD (b64DecTable c) 0 = c) (by decide +kernel) c hc hpad

theorem b64DecTable_pad : b64DecTable (ch '=') = 0 := by decide

theorem decodeQuad_eq_none_iff {c0 c1 c2 c3 : UInt8} :
    decodeQuad c0 c1 c2 c3 = none ↔ ∃ c ∈ [c0, c1, c2, c3], b64DecTable c = 0x80 := by
  simp only [decodeQuad, ite_eq_left_iff, reduceCtorEq, imp_false, not_not, List.mem_cons,
    List.not_mem_nil, or_false, exists_eq_or_imp, exists_eq_left]

/-- How many bytes a group writes. -/
theorem length_of_decodeQuad {c0 c1 c2 c3 : UInt8} {bytes : Bytes}
    (h : decodeQuad c0 c1 c2 c3 = some bytes) :
    bytes.length = 1 + (if c2 = ch '=' then 0 else 1) + (if c3 = ch '=' then 0 else 1) := by
  simp only [decodeQuad, Option.ite_none_left_eq_some, Option.some.injEq] at h
  rw [← h.2]
  split <;> split <;> rfl

/-! ### The size of the block -/

/-- The size for a single group. -/
theorem decodedLen_quad (c0 c1 c2 c3 : UInt8) : decodedLen [c0, c1, c2, c3] =
    1 + (if c2 = ch '=' then 0 else 1) + (if c3 = ch '=' then 0 else 1) := by
  simp only [decodedLen, List.length_cons, List.length_nil]
  by_cases h2 : c2 = ch '='
  · by_cases h3 : c3 = ch '='
    · simp [h2, h3]
    · simp [h2, h3]
  · by_cases h3 : c3 = ch '='
    · simp [h2, h3]
    · simp [h2, h3]

/-- A group in front counts three bytes. -/
theorem decodedLen_cons (c0 c1 c2 c3 : UInt8) {rest : Bytes} (hrest : 4 ≤ rest.length) :
    decodedLen (c0 :: c1 :: c2 :: c3 :: rest) = 3 + decodedLen rest := by
  have hget : ∀ k, k ≤ 4 → (c0 :: c1 :: c2 :: c3 :: rest)[rest.length + 4 - k]? =
      rest[rest.length - k]? := by
    intro k hk
    rw [show rest.length + 4 - k = rest.length - k + 4 by omega]
    rfl
  have hcount : (rest.length + 4) / 4 * 3 = rest.length / 4 * 3 + 3 := by omega
  have hpos : 3 ≤ rest.length / 4 * 3 := by omega
  simp only [decodedLen, List.length_cons, hget 1 (by omega), hget 2 (by omega), hcount]
  split <;> split <;> omega

/-- Four characters are a group. -/
theorem exists_quad {l : Bytes} (h : 4 ≤ l.length) :
    ∃ c0 c1 c2 c3 rest, l = c0 :: c1 :: c2 :: c3 :: rest := by
  obtain ⟨c0, l, rfl⟩ := List.exists_cons_of_length_pos (by omega : 0 < l.length)
  rw [List.length_cons] at h
  obtain ⟨c1, l, rfl⟩ := List.exists_cons_of_length_pos (by omega : 0 < l.length)
  rw [List.length_cons] at h
  obtain ⟨c2, l, rfl⟩ := List.exists_cons_of_length_pos (by omega : 0 < l.length)
  rw [List.length_cons] at h
  obtain ⟨c3, l, rfl⟩ := List.exists_cons_of_length_pos (by omega : 0 < l.length)
  exact ⟨c0, c1, c2, c3, l, rfl⟩

/-! ### The loop -/

/-- Less than a group of four is nothing. -/
theorem eq_nil_of_short {data : Bytes} (hlen : data.length % 4 = 0)
    (hshort : ∀ c0 c1 c2 c3 rest, data = c0 :: c1 :: c2 :: c3 :: rest → False) : data = [] := by
  match data with
  | [] => rfl
  | [_] | [_, _] | [_, _, _] => simp at hlen
  | _ :: _ :: _ :: _ :: _ => exact absurd rfl (hshort _ _ _ _ _)

/-- **What the loop returns**, from the bytes that are decoded. Induction along the groups. -/
theorem decodeRun_eq {data d : Bytes} (h : decodeLoop data = some d) (outputIdx : ℕ) :
    decodeRun outputIdx data = (writesFrom outputIdx d, some (outputIdx + d.length)) := by
  induction data using decodeLoop.induct generalizing d outputIdx with
  | case1 c0 c1 c2 c3 rest ih =>
      obtain ⟨bytes, hquad, h⟩ := Option.bind_eq_some_iff.mp h
      obtain ⟨more, hmore, h⟩ := Option.bind_eq_some_iff.mp h
      obtain rfl := Option.some.inj h
      rw [decodeRun, hquad]
      simp only [ih hmore, writesFrom_append, List.length_append, Nat.add_assoc]
  | case2 data hshort =>
      rw [decodeLoop.eq_2 data hshort] at h
      obtain rfl := Option.some.inj h
      rw [decodeRun.eq_2 outputIdx data hshort]
      rfl

/-- The loop fails where decoding does. -/
theorem decodeRun_eq_none {data : Bytes} (h : decodeLoop data = none) (outputIdx : ℕ) :
    (decodeRun outputIdx data).2 = none := by
  induction data using decodeLoop.induct generalizing outputIdx with
  | case1 c0 c1 c2 c3 rest ih =>
      rw [decodeRun]
      cases hquad : decodeQuad c0 c1 c2 c3 with
      | none => rfl
      | some bytes =>
          cases hrest : decodeLoop rest with
          | none => exact ih hrest _
          | some more => simp [decodeLoop, hquad, hrest] at h
  | case2 data hshort =>
      rw [decodeLoop.eq_2 data hshort] at h
      simp at h

/-- **Where the loop fails**: at a character outside the table. -/
theorem decodeLoop_eq_none_iff {data : Bytes} (hlen : data.length % 4 = 0) :
    decodeLoop data = none ↔ ∃ c ∈ data, b64DecTable c = 0x80 := by
  induction data using decodeLoop.induct with
  | case1 c0 c1 c2 c3 rest ih =>
      have hrest : rest.length % 4 = 0 := by
        simp only [List.length_cons] at hlen
        omega
      have hsplit : (∃ c ∈ c0 :: c1 :: c2 :: c3 :: rest, b64DecTable c = 0x80) ↔
          (∃ c ∈ [c0, c1, c2, c3], b64DecTable c = 0x80) ∨ ∃ c ∈ rest, b64DecTable c = 0x80 := by
        simp only [List.mem_cons, exists_eq_or_imp, List.not_mem_nil, or_false, exists_eq_left,
          or_assoc]
      rw [hsplit, ← decodeQuad_eq_none_iff, ← ih hrest, decodeLoop]
      cases decodeQuad c0 c1 c2 c3 with
      | none => simp
      | some bytes =>
          cases decodeLoop rest with
          | none => simp
          | some more => simp
  | case2 data hshort =>
      obtain rfl := eq_nil_of_short hlen hshort
      simp [decodeLoop]

/-- **The loop stores inside the block**, whether it fails or not, and counts no more. Induction
along the groups: each but the last stores at most three bytes. -/
theorem index_decodeRun {data : Bytes} (hlen : data.length % 4 = 0) (outputIdx : ℕ) :
    (∀ w ∈ (decodeRun outputIdx data).1, w.index < outputIdx + decodedLen data) ∧
      ∀ n, (decodeRun outputIdx data).2 = some n → n ≤ outputIdx + decodedLen data := by
  induction data using decodeLoop.induct generalizing outputIdx with
  | case1 c0 c1 c2 c3 rest ih =>
      have hrest : rest.length % 4 = 0 := by
        simp only [List.length_cons] at hlen
        omega
      rw [decodeRun]
      cases hquad : decodeQuad c0 c1 c2 c3 with
      | none => simp
      | some bytes =>
          have hbytes := length_of_decodeQuad hquad
          obtain ⟨hstores, hcount⟩ := ih hrest (outputIdx + bytes.length)
          have hsize : bytes.length + decodedLen rest ≤
              decodedLen (c0 :: c1 :: c2 :: c3 :: rest) := by
            rcases Nat.eq_zero_or_pos rest.length with hnil | hpos
            · obtain rfl := List.length_eq_zero_iff.mp hnil
              rw [decodedLen_quad, ← hbytes]
              exact le_rfl
            · rw [decodedLen_cons c0 c1 c2 c3 (by omega)]
              split at hbytes <;> split at hbytes <;> omega
          refine ⟨fun w hw => ?_, fun n hn => ?_⟩
          · rcases List.mem_append.mp hw with hw | hw
            · have := index_writesFrom hw
              omega
            · have := hstores w hw
              omega
          · have := hcount n hn
            omega
  | case2 data hshort =>
      rw [decodeRun.eq_2 outputIdx data hshort]
      simp

/-- No `=` stands before the last two characters. -/
def PadAtEnd (data : Bytes) : Prop := ∀ i, i + 2 < data.length → data[i]? ≠ some (ch '=')

theorem PadAtEnd.of_cons {c0 c1 c2 c3 : UInt8} {rest : Bytes}
    (h : PadAtEnd (c0 :: c1 :: c2 :: c3 :: rest)) (hrest : 4 ≤ rest.length) :
    c2 ≠ ch '=' ∧ c3 ≠ ch '=' ∧ PadAtEnd rest := by
  refine ⟨?_, ?_, fun i hi => ?_⟩
  · have h2 := h 2 (by simp only [List.length_cons]; omega)
    simpa using h2
  · have h3 := h 3 (by simp only [List.length_cons]; omega)
    simpa using h3
  · have hi4 := h (i + 4) (by simp only [List.length_cons]; omega)
    simpa using hi4

/-- **Padding at the end only** fills the block. Induction along the groups. -/
theorem length_of_padAtEnd {data d : Bytes} (hlen : data.length % 4 = 0) (hpad : PadAtEnd data)
    (h : decodeLoop data = some d) : d.length = decodedLen data := by
  induction data using decodeLoop.induct generalizing d with
  | case1 c0 c1 c2 c3 rest ih =>
      have hrest : rest.length % 4 = 0 := by
        simp only [List.length_cons] at hlen
        omega
      obtain ⟨bytes, hquad, h⟩ := Option.bind_eq_some_iff.mp h
      obtain ⟨more, hmore, h⟩ := Option.bind_eq_some_iff.mp h
      obtain rfl := Option.some.inj h
      have hbytes := length_of_decodeQuad hquad
      rcases Nat.eq_zero_or_pos rest.length with hnil | hpos
      · obtain rfl := List.length_eq_zero_iff.mp hnil
        obtain rfl := Option.some.inj hmore
        rw [List.append_nil, decodedLen_quad, hbytes]
      · obtain ⟨h2, h3, hpad⟩ := hpad.of_cons (by omega)
        rw [if_neg h2, if_neg h3] at hbytes
        rw [List.length_append, hbytes, ih hrest hpad hmore, decodedLen_cons _ _ _ _ (by omega)]
  | case2 data hshort =>
      rw [decodeLoop.eq_2 data hshort] at h
      obtain rfl := Option.some.inj h
      obtain rfl := eq_nil_of_short hlen hshort
      rfl

/-! ### The decoder as a whole -/

variable {A : Allocator} {data block : Bytes}

theorem base64DecodeBlock_of_alloc (hlen : data.length % 4 = 0)
    (halloc : A.alloc (decodedLen data) = some block) :
    base64DecodeBlock A data = ((decodeRun 0 data).1, (decodeRun 0 data).2.map fun outputIdx =>
      ((decodeRun 0 data).1.foldl Write.apply block, outputIdx)) := by
  rw [base64DecodeBlock, if_neg (not_not.mpr hlen), halloc]

/-- **What the decoder leaves in its block**: the bytes that are decoded, and behind them what the
block held. -/
theorem base64DecodeBlock_eq (hlen : data.length % 4 = 0)
    (halloc : A.alloc (decodedLen data) = some block) :
    (base64DecodeBlock A data).2 = (base64Decode data).map fun d =>
      (d ++ block.drop d.length, d.length) := by
  rw [base64DecodeBlock_of_alloc hlen halloc, base64Decode, if_neg (not_not.mpr hlen)]
  cases h : decodeLoop data with
  | none => rw [decodeRun_eq_none h, Option.map_none, Option.map_none]
  | some d =>
      have hrun := decodeRun_eq h 0
      have hfits := (index_decodeRun hlen 0).2 _ (congrArg Prod.snd hrun)
      have hblock := A.length_alloc halloc
      have hstores := foldl_writesFrom [] d (block.take d.length)
        (List.length_take_of_le (by omega)) (block.drop d.length)
      rw [List.take_append_drop, List.nil_append, List.nil_append, List.length_nil] at hstores
      rw [hrun, Option.map_some, Option.map_some, hstores, Nat.zero_add]

/-- **The decoder stays inside its block**: every store, whether it fails or not, and the length it
reports. It fills the block when `=` stands at the end only, and returns NULL exactly for a
character outside the table. -/
theorem base64DecodeBlock_bounds (hlen : 0 < data.length ∧ data.length % 4 = 0)
    (halloc : A.alloc (decodedLen data) = some block) :
    (∀ w ∈ (base64DecodeBlock A data).1, w.index < decodedLen data) ∧
    (∀ d n, (base64DecodeBlock A data).2 = some (d, n) →
      n ≤ decodedLen data ∧ (PadAtEnd data → n = decodedLen data)) ∧
    ((base64DecodeBlock A data).2 = none ↔ ∃ c ∈ data, b64DecTable c = 0x80) := by
  obtain ⟨hstores, hcount⟩ := index_decodeRun hlen.2 0
  rw [Nat.zero_add] at hstores hcount
  refine ⟨?_, fun d n hresult => ?_, ?_⟩
  · rwa [base64DecodeBlock_of_alloc hlen.2 halloc]
  · rw [base64DecodeBlock_of_alloc hlen.2 halloc] at hresult
    obtain ⟨m, hm, hpair⟩ := Option.map_eq_some_iff.mp hresult
    obtain ⟨-, rfl⟩ := Prod.mk.inj hpair
    refine ⟨hcount m hm, fun hpad => ?_⟩
    cases hloop : decodeLoop data with
    | none => simp [decodeRun_eq_none hloop] at hm
    | some bytes =>
        rw [decodeRun_eq hloop, Option.some.injEq, Nat.zero_add] at hm
        rw [← hm, length_of_padAtEnd hlen.2 hpad hloop]
  · rw [base64DecodeBlock_eq hlen.2 halloc, Option.map_eq_none_iff, base64Decode,
      if_neg (not_not.mpr hlen.2), decodeLoop_eq_none_iff hlen.2]

/-- A text with `=` in an inner group. -/
theorem base64DecodeBlock_bounds_inner :
    (∀ w ∈ (base64DecodeBlock (.filled 1) (lit "AA==QUI=")).1,
      w.index < decodedLen (lit "AA==QUI=")) ∧
    (∀ d n, (base64DecodeBlock (.filled 1) (lit "AA==QUI=")).2 = some (d, n) →
      n ≤ decodedLen (lit "AA==QUI=") ∧
        (PadAtEnd (lit "AA==QUI=") → n = decodedLen (lit "AA==QUI="))) ∧
    ((base64DecodeBlock (.filled 1) (lit "AA==QUI=")).2 = none ↔
      ∃ c ∈ lit "AA==QUI=", b64DecTable c = 0x80) :=
  base64DecodeBlock_bounds (by decide) rfl

/-! ### Canonical text -/

/-- A last group as the encoder writes it: no `=`; or one, and the two bits that belong to no byte
are zero; or two, and four bits are. -/
def CanonicalQuad (c0 c1 c2 c3 : UInt8) : Prop :=
  (c0 ≠ ch '=' ∧ c1 ≠ ch '=') ∧
    ((c2 ≠ ch '=' ∧ c3 ≠ ch '=') ∨
      (c2 ≠ ch '=' ∧ c3 = ch '=' ∧ b64DecTable c2 % 4 = 0) ∨
      (c2 = ch '=' ∧ c3 = ch '=' ∧ b64DecTable c1 % 16 = 0))

/-- A text with `=` as its final padding only, and no bit of a character lost. -/
def CanonicalText (data : Bytes) : Prop :=
  ∃ quads c0 c1 c2 c3, data = quads ++ [c0, c1, c2, c3] ∧ ch '=' ∉ quads ∧
    CanonicalQuad c0 c1 c2 c3

/-- What a text decodes to is encoded to the text again. -/
def DecodesCanonically (data : Bytes) : Prop :=
  ∀ d, base64Decode data = some d → base64Encode d = data

theorem canonicalQuad_single (a : UInt8) : CanonicalQuad (b64Table.getD (a.toNat / 4) 0)
    (b64Table.getD (a.toNat % 4 * 16) 0) (ch '=') (ch '=') := by
  have ha := a.toNat_lt
  refine ⟨⟨b64Table_ne_pad _ (by omega), b64Table_ne_pad _ (by omega)⟩, Or.inr (Or.inr ?_)⟩
  rw [b64DecTable_b64Table _ (by omega)]
  exact ⟨rfl, rfl, by omega⟩

theorem canonicalQuad_pair (a b : UInt8) : CanonicalQuad (b64Table.getD (a.toNat / 4) 0)
    (b64Table.getD (a.toNat % 4 * 16 + b.toNat / 16) 0) (b64Table.getD (b.toNat % 16 * 4) 0)
    (ch '=') := by
  have ha := a.toNat_lt
  have hb := b.toNat_lt
  refine ⟨⟨b64Table_ne_pad _ (by omega), b64Table_ne_pad _ (by omega)⟩, Or.inr (Or.inl ?_)⟩
  rw [b64DecTable_b64Table _ (by omega)]
  exact ⟨b64Table_ne_pad _ (by omega), rfl, by omega⟩

/-- **Encoded text is canonical.** Induction along the groups of three bytes. -/
theorem canonicalText_base64Encode {d : Bytes} (hne : d ≠ []) : CanonicalText (base64Encode d) := by
  induction d using encodeLoop.induct with
  | case1 => exact absurd rfl hne
  | case2 a =>
      rw [base64Encode_single]
      exact ⟨[], _, _, _, _, rfl, List.not_mem_nil, canonicalQuad_single a⟩
  | case3 a b =>
      rw [base64Encode_pair]
      exact ⟨[], _, _, _, _, rfl, List.not_mem_nil, canonicalQuad_pair a b⟩
  | case4 a b c rest ih =>
      have hpad : ch '=' ∉ encodeTriple a b c := by
        have htable : ch '=' ∉ b64Table := by decide +kernel
        exact fun h => htable (mem_encodeTriple h)
      rw [base64Encode_cons]
      cases rest with
      | nil =>
          rw [encodeTriple_eq] at hpad ⊢
          simp only [List.mem_cons, List.not_mem_nil, or_false, not_or] at hpad
          obtain ⟨h0, h1, h2, h3⟩ := hpad
          exact ⟨[], _, _, _, _, rfl, List.not_mem_nil, ⟨Ne.symm h0, Ne.symm h1⟩,
            Or.inl ⟨Ne.symm h2, Ne.symm h3⟩⟩
      | cons x rest =>
          obtain ⟨quads, c0, c1, c2, c3, htext, hquads, hlast⟩ := ih (List.cons_ne_nil _ _)
          refine ⟨encodeTriple a b c ++ quads, c0, c1, c2, c3, ?_, ?_, hlast⟩
          · rw [htext, List.append_assoc]
          · rw [List.mem_append, not_or]
            exact ⟨hpad, hquads⟩

theorem toNat_toUInt8 (n : ℕ) : n.toUInt8.toNat = n % 256 := UInt8.toNat_ofNat'

/-- The characters of a group that decodes are in the table. -/
theorem ne_of_decodeQuad {c0 c1 c2 c3 : UInt8} {bytes : Bytes}
    (h : decodeQuad c0 c1 c2 c3 = some bytes) : b64DecTable c0 ≠ 0x80 ∧ b64DecTable c1 ≠ 0x80 ∧
      b64DecTable c2 ≠ 0x80 ∧ b64DecTable c3 ≠ 0x80 := by
  simp only [decodeQuad, Option.ite_none_left_eq_some, not_or] at h
  exact h.1

/-- **A group without `=`** is encoded to itself again. -/
theorem encode_of_decodeQuad {c0 c1 c2 c3 : UInt8} {bytes : Bytes}
    (hpad : (c0 ≠ ch '=' ∧ c1 ≠ ch '=') ∧ c2 ≠ ch '=' ∧ c3 ≠ ch '=')
    (h : decodeQuad c0 c1 c2 c3 = some bytes) :
    ∃ a b c, bytes = [a, b, c] ∧ encodeTriple a b c = [c0, c1, c2, c3] := by
  obtain ⟨h0, h1, h2, h3⟩ := ne_of_decodeQuad h
  obtain ⟨hi, hc0⟩ := b64Table_b64DecTable h0 hpad.1.1
  obtain ⟨hj, hc1⟩ := b64Table_b64DecTable h1 hpad.1.2
  obtain ⟨hk, hc2⟩ := b64Table_b64DecTable h2 hpad.2.1
  obtain ⟨hl, hc3⟩ := b64Table_b64DecTable h3 hpad.2.2
  have hquad := decodeQuad_of_table hi hj hk hl c2 c3 rfl rfl
  rw [hc0, hc1, h, if_neg hpad.2.1, if_neg hpad.2.2, Option.some.injEq] at hquad
  generalize b64DecTable c0 = i at *
  generalize b64DecTable c1 = j at *
  generalize b64DecTable c2 = k at *
  generalize b64DecTable c3 = l at *
  refine ⟨_, _, _, hquad, ?_⟩
  rw [encodeTriple_eq, toNat_toUInt8, toNat_toUInt8, toNat_toUInt8,
    show (i * 4 + j / 16) % 256 / 4 = i by omega,
    show (i * 4 + j / 16) % 256 % 4 * 16 + (j * 16 + k / 4) % 256 / 16 = j by omega,
    show (j * 16 + k / 4) % 256 % 16 * 4 + (k * 64 + l) % 256 / 64 = k by omega,
    show (k * 64 + l) % 256 % 64 = l by omega, hc0, hc1, hc2, hc3]

/-- **A canonical last group** is encoded to itself again. -/
theorem base64Encode_of_canonicalQuad {c0 c1 c2 c3 : UInt8} {bytes : Bytes}
    (hquad : CanonicalQuad c0 c1 c2 c3) (h : decodeQuad c0 c1 c2 c3 = some bytes) :
    base64Encode bytes = [c0, c1, c2, c3] := by
  obtain ⟨hfirst, hlast⟩ := hquad
  obtain ⟨h0, h1, h2, h3⟩ := ne_of_decodeQuad h
  obtain ⟨hi, hc0⟩ := b64Table_b64DecTable h0 hfirst.1
  obtain ⟨hj, hc1⟩ := b64Table_b64DecTable h1 hfirst.2
  rcases hlast with hplain | ⟨hc2pad, rfl, hbits⟩ | ⟨rfl, rfl, hbits⟩
  · obtain ⟨a, b, c, rfl, htriple⟩ := encode_of_decodeQuad ⟨hfirst, hplain⟩ h
    rw [base64Encode_cons, htriple]
    rfl
  · obtain ⟨hk, hc2⟩ := b64Table_b64DecTable h2 hc2pad
    have hquad := decodeQuad_of_table hi hj hk (by decide : 0 < 64) c2 (ch '=') rfl
      b64DecTable_pad
    rw [hc0, hc1, h, if_neg hc2pad, if_pos rfl, Option.some.injEq, List.append_nil] at hquad
    generalize b64DecTable c0 = i at *
    generalize b64DecTable c1 = j at *
    generalize b64DecTable c2 = k at *
    rw [hquad]
    change base64Encode [_, _] = _
    rw [base64Encode_pair, toNat_toUInt8, toNat_toUInt8,
      show (i * 4 + j / 16) % 256 / 4 = i by omega,
      show (i * 4 + j / 16) % 256 % 4 * 16 + (j * 16 + k / 4) % 256 / 16 = j by omega,
      show (j * 16 + k / 4) % 256 % 16 * 4 = k by omega, hc0, hc1, hc2]
  · have hquad := decodeQuad_of_table hi hj (by decide : 0 < 64) (by decide : 0 < 64) (ch '=')
      (ch '=') b64DecTable_pad b64DecTable_pad
    rw [hc0, hc1, h, if_pos rfl, Option.some.injEq, List.append_nil, if_pos rfl,
      List.append_nil] at hquad
    generalize b64DecTable c0 = i at *
    generalize b64DecTable c1 = j at *
    rw [hquad, base64Encode_single, toNat_toUInt8,
      show (i * 4 + j / 16) % 256 / 4 = i by omega,
      show (i * 4 + j / 16) % 256 % 4 * 16 = j by omega, hc0, hc1]

/-- **Canonical text is encoded to itself again.** Induction along the groups. -/
theorem base64Encode_of_canonicalText {data d : Bytes} (hlen : data.length % 4 = 0)
    (hcanon : CanonicalText data) (h : decodeLoop data = some d) : base64Encode d = data := by
  induction data using decodeLoop.induct generalizing d with
  | case1 c0 c1 c2 c3 rest ih =>
      have hrest : rest.length % 4 = 0 := by
        simp only [List.length_cons] at hlen
        omega
      obtain ⟨bytes, hquad, h⟩ := Option.bind_eq_some_iff.mp h
      obtain ⟨more, hmore, h⟩ := Option.bind_eq_some_iff.mp h
      obtain rfl := Option.some.inj h
      obtain ⟨quads, e0, e1, e2, e3, htext, hquads, hlast⟩ := hcanon
      rcases Nat.eq_zero_or_pos rest.length with hnil | hpos
      · obtain rfl := List.length_eq_zero_iff.mp hnil
        obtain rfl := Option.some.inj hmore
        obtain rfl : quads = [] := by
          have := congrArg List.length htext
          simp at this
          exact this
        obtain ⟨rfl, rfl, rfl, rfl⟩ : c0 = e0 ∧ c1 = e1 ∧ c2 = e2 ∧ c3 = e3 := by
          simpa using htext
        rw [List.append_nil]
        exact base64Encode_of_canonicalQuad hlast hquad
      · have hcount := congrArg List.length htext
        simp only [List.length_cons, List.length_append, List.length_nil] at hcount
        obtain ⟨q0, q1, q2, q3, more', rfl⟩ := exists_quad (l := quads) (by omega)
        simp only [List.cons_append, List.cons.injEq] at htext
        obtain ⟨rfl, rfl, rfl, rfl, hrest'⟩ := htext
        simp only [List.mem_cons, not_or] at hquads
        obtain ⟨h0, h1, h2, h3, hquads⟩ := hquads
        obtain ⟨a, b, c, rfl, htriple⟩ := encode_of_decodeQuad
          ⟨⟨Ne.symm h0, Ne.symm h1⟩, Ne.symm h2, Ne.symm h3⟩ hquad
        have hmore' := ih hrest ⟨more', e0, e1, e2, e3, hrest', hquads, hlast⟩ hmore
        change base64Encode (a :: b :: c :: more) = _
        rw [base64Encode_cons, htriple, hmore']
        rfl
  | case2 data hshort =>
      obtain rfl := eq_nil_of_short hlen hshort
      obtain ⟨quads, e0, e1, e2, e3, htext, -⟩ := hcanon
      simp at htext

/-- What is encoded to a text that is not empty is not empty. -/
theorem canonicalText_of_decodes {data d : Bytes} (hne : data ≠ []) (h : base64Encode d = data) :
    CanonicalText data := by
  have hd : d ≠ [] := by
    rintro rfl
    exact hne h.symm
  exact h ▸ canonicalText_base64Encode hd

/-- **When a text is what its bytes are encoded to**: when it does not decode, for a character
outside the table, or is canonical; and no two such texts decode to the same bytes. -/
theorem decodesCanonically_iff (data : Bytes) (hlen : 0 < data.length ∧ data.length % 4 = 0) :
    (DecodesCanonically data ↔ (∃ c ∈ data, b64DecTable c = 0x80) ∨ CanonicalText data) ∧
    (DecodesCanonically data → ∀ other d, DecodesCanonically other →
      base64Decode data = some d → base64Decode other = some d → other = data) := by
  refine ⟨⟨fun h => ?_, fun h d hd => ?_⟩, fun h other d hother hd hd' => ?_⟩
  · cases hloop : decodeLoop data with
    | none => exact Or.inl ((decodeLoop_eq_none_iff hlen.2).mp hloop)
    | some d =>
        have hdecode : base64Decode data = some d := by
          rw [base64Decode, if_neg (not_not.mpr hlen.2), hloop]
        exact Or.inr (canonicalText_of_decodes (List.length_pos_iff.mp hlen.1) (h d hdecode))
  · rw [base64Decode, if_neg (not_not.mpr hlen.2)] at hd
    rcases h with hinvalid | hcanon
    · rw [(decodeLoop_eq_none_iff hlen.2).mpr hinvalid] at hd
      simp at hd
    · exact base64Encode_of_canonicalText hlen.2 hcanon hd
  · rw [← hother d hd', h d hd]

/-- The text of two bytes. -/
theorem decodesCanonically_ab :
    (DecodesCanonically (lit "YWI=") ↔
      (∃ c ∈ lit "YWI=", b64DecTable c = 0x80) ∨ CanonicalText (lit "YWI=")) ∧
    (DecodesCanonically (lit "YWI=") → ∀ other d, DecodesCanonically other →
      base64Decode (lit "YWI=") = some d → base64Decode other = some d → other = lit "YWI=") :=
  decodesCanonically_iff (lit "YWI=") (by decide)

/-- **Four marks of padding** decode to a zero byte, as its own text does. -/
theorem not_decodesCanonically_pads :
    base64Decode (lit "====") = some [0] ∧ base64Decode (lit "AA==") = some [0] ∧
      base64Encode [0] = lit "AA==" ∧ ¬ DecodesCanonically (lit "====") := by
  refine ⟨by decide, by decide, by decide, fun h => ?_⟩
  exact absurd (h [0] (by decide)) (by decide)

end CBank

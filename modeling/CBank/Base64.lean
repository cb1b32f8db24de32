import CBank.CLib.Text

/-!
# Base64 and Base64url

The codec of `jwt/base64.c`. `base64Encode` fills the output four characters at a time,
with zero bytes where the input has run out, and then overwrites the last characters with
`=`; `base64Decode` looks every character up in a table that maps everything outside the
alphabet to `0x80` and maps `=` to `0`, and drops the second and third byte of a quad
whose third and fourth character is `=`.

Both conversions to and from the URL alphabet walk the string with the parameter itself,
so the length they compute afterwards is that of the empty string at its end: neither the
removal of padding nor the re-padding ever happens. The token format is therefore the URL
alphabet *with* padding, on both sides.

## Main results

* `base64Decode_base64Encode`: decoding inverts encoding.
* `base64urlDecode_base64urlEncode`: so does the URL variant, padding included.
* `not_mem_base64urlEncode`: encoded text has no character outside the alphabet, the
  padding character and the two URL replacements.
* `codecs_inverse`: both round trips, of texts that a C string can hold.
* `foldl_base64urlToB64Writes`: the writes of the re-padding, and what they leave.
-/

namespace CBank

open CLib

/-- `b64_table`. -/
def b64Table : Bytes :=
  lit "ABCDEFGHIJKLMNOPQRSTUVWXYZabcdefghijklmnopqrstuvwxyz0123456789+/"

/-- The four characters `base64_encode` writes for three bytes. -/
def encodeTriple (octetA octetB octetC : UInt8) : Bytes :=
  let triple := (octetA.toNat <<< 16) + (octetB.toNat <<< 8) + octetC.toNat
  [b64Table.getD ((triple >>> 18) &&& 0x3F) 0, b64Table.getD ((triple >>> 12) &&& 0x3F) 0,
    b64Table.getD ((triple >>> 6) &&& 0x3F) 0, b64Table.getD (triple &&& 0x3F) 0]

/-- The main loop of `base64_encode`: bytes past the end of the input count as `0`. -/
def encodeLoop : Bytes → Bytes
  | [] => []
  | [a] => encodeTriple a 0 0
  | [a, b] => encodeTriple a b 0
  | a :: b :: c :: rest => encodeTriple a b c ++ encodeLoop rest

/-- `base64_encode`: the loop, then `=` over the characters that encode no input. -/
def base64Encode (data : Bytes) : Bytes :=
  let encoded := encodeLoop data
  let padding := data.length % 3
  if padding = 0 then encoded
  else encoded.take (encoded.length - (3 - padding)) ++ List.replicate (3 - padding) (ch '=')

/-- The loop `while (len > 0 && b64[len - 1] == '=') { b64[len] = 0; len--; }`. -/
def dropPadding : ℕ → Bytes → Bytes
  | 0, b64 => b64
  | len + 1, b64 =>
      if b64[len]? = some (ch '=') then dropPadding len (b64.take (len + 1)) else b64

/-- `base64_to_base64url`: the padding loop runs on what `b64` points at after the
character loop, which is the end of the string. -/
def base64ToBase64url (b64 : Bytes) : Bytes :=
  let mapped := b64.map fun c =>
    if c = ch '+' then ch '-' else if c = ch '/' then ch '_' else c
  let atEnd := mapped.drop mapped.length
  mapped ++ dropPadding atEnd.length atEnd

/-- `base64url_encode`. -/
def base64urlEncode (data : Bytes) : Bytes :=
  base64ToBase64url (base64Encode data)

/-- `b64_dec_table`. -/
def b64DecTable (c : UInt8) : ℕ :=
  if ch 'A' ≤ c ∧ c ≤ ch 'Z' then c.toNat - 65
  else if ch 'a' ≤ c ∧ c ≤ ch 'z' then c.toNat - 97 + 26
  else if ch '0' ≤ c ∧ c ≤ ch '9' then c.toNat - 48 + 52
  else if c = ch '+' then 62
  else if c = ch '/' then 63
  else if c = ch '=' then 0
  else 0x80

/-- The bytes `base64decode` writes for a quad of characters; `none` when one of them is
outside the table. -/
def decodeQuad (c0 c1 c2 c3 : UInt8) : Option Bytes :=
  let q0 := b64DecTable c0
  let q1 := b64DecTable c1
  let q2 := b64DecTable c2
  let q3 := b64DecTable c3
  if q0 = 0x80 ∨ q1 = 0x80 ∨ q2 = 0x80 ∨ q3 = 0x80 then none
  else some (
    [((q0 <<< 2) ||| (q1 >>> 4)).toUInt8] ++
    (if c2 = ch '=' then [] else [((q1 <<< 4) ||| (q2 >>> 2)).toUInt8]) ++
    (if c3 = ch '=' then [] else [((q2 <<< 6) ||| q3).toUInt8]))

/-- The main loop of `base64decode`, on a length that is a multiple of four. -/
def decodeLoop : Bytes → Option Bytes
  | c0 :: c1 :: c2 :: c3 :: rest => do
      let bytes ← decodeQuad c0 c1 c2 c3
      let more ← decodeLoop rest
      pure (bytes ++ more)
  | _ => some []

/-- `base64decode`. -/
def base64Decode (data : Bytes) : Option Bytes :=
  if data.length % 4 ≠ 0 then none else decodeLoop data

/-- `base64url_to_b64`: the length that decides the padding is that of the string `str`
points at after the character loop, which is empty. -/
def base64urlToB64 (str : Bytes) : Bytes :=
  let mapped := str.map fun c =>
    if c = ch '-' then ch '+' else if c = ch '_' then ch '/' else c
  let len := (mapped.drop mapped.length).length
  let padLen := (4 - len % 4) % 4
  mapped ++ List.replicate padLen (ch '=')

/-- `base64url_decode`. -/
def base64urlDecode (input : Bytes) : Option Bytes :=
  base64Decode (base64urlToB64 input)

/-! ### Neither conversion touches the padding -/

theorem base64ToBase64url_eq_map (b64 : Bytes) :
    base64ToBase64url b64 = b64.map fun c =>
      if c = ch '+' then ch '-' else if c = ch '/' then ch '_' else c := by
  simp [base64ToBase64url, dropPadding]

theorem base64urlToB64_eq_map (str : Bytes) :
    base64urlToB64 str = str.map fun c =>
      if c = ch '-' then ch '+' else if c = ch '_' then ch '/' else c := by
  simp [base64urlToB64]

/-! ### One group -/

theorem length_encodeTriple (a b c : UInt8) : (encodeTriple a b c).length = 4 := rfl

theorem b64DecTable_b64Table : ∀ i < 64, b64DecTable (b64Table.getD i 0) = i := by
  decide +kernel

theorem b64Table_ne_pad : ∀ i < 64, b64Table.getD i 0 ≠ ch '=' := by
  decide +kernel

/-- The four six-bit groups of three bytes, as arithmetic. -/
theorem encodeTriple_eq (a b c : UInt8) :
    encodeTriple a b c =
      [b64Table.getD (a.toNat / 4) 0,
        b64Table.getD (a.toNat % 4 * 16 + b.toNat / 16) 0,
        b64Table.getD (b.toNat % 16 * 4 + c.toNat / 64) 0,
        b64Table.getD (c.toNat % 64) 0] := by
  have ha := a.toNat_lt
  have hb := b.toNat_lt
  have hc := c.toNat_lt
  have hmask : ∀ n : ℕ, n &&& 0x3F = n % 64 := fun n => Nat.and_two_pow_sub_one_eq_mod n 6
  simp only [encodeTriple, hmask, Nat.shiftRight_eq_div_pow, Nat.shiftLeft_eq]
  have h18 : (a.toNat * 2 ^ 16 + b.toNat * 2 ^ 8 + c.toNat) / 2 ^ 18 % 64 = a.toNat / 4 := by
    omega
  have h12 : (a.toNat * 2 ^ 16 + b.toNat * 2 ^ 8 + c.toNat) / 2 ^ 12 % 64 =
      a.toNat % 4 * 16 + b.toNat / 16 := by omega
  have h6 : (a.toNat * 2 ^ 16 + b.toNat * 2 ^ 8 + c.toNat) / 2 ^ 6 % 64 =
      b.toNat % 16 * 4 + c.toNat / 64 := by omega
  have h0 : (a.toNat * 2 ^ 16 + b.toNat * 2 ^ 8 + c.toNat) % 64 = c.toNat % 64 := by omega
  rw [h18, h12, h6, h0]

/-- The three bytes of a quad of valid characters, as arithmetic. -/
theorem decodeQuad_of_table {i j k l : ℕ} (hi : i < 64) (hj : j < 64) (hk : k < 64)
    (hl : l < 64) (c2 c3 : UInt8) (h2 : b64DecTable c2 = k) (h3 : b64DecTable c3 = l) :
    decodeQuad (b64Table.getD i 0) (b64Table.getD j 0) c2 c3 = some (
      [(i * 4 + j / 16).toUInt8] ++
      (if c2 = ch '=' then [] else [(j * 16 + k / 4).toUInt8]) ++
      (if c3 = ch '=' then [] else [(k * 64 + l).toUInt8])) := by
  have h0 := b64DecTable_b64Table i hi
  have h1 := b64DecTable_b64Table j hj
  have hor : ∀ x y n m : ℕ, m = 2 ^ n → y < m → (x <<< n) ||| y = x * m + y := by
    rintro x y n _ rfl hy
    rw [← Nat.shiftLeft_add_eq_or_of_lt hy, Nat.shiftLeft_eq]
  have hdiv : ∀ x : ℕ, x >>> 4 = x / 16 ∧ x >>> 2 = x / 4 := fun x =>
    ⟨Nat.shiftRight_eq_div_pow x 4, Nat.shiftRight_eq_div_pow x 2⟩
  have hne : ¬ (i = 0x80 ∨ j = 0x80 ∨ k = 0x80 ∨ l = 0x80) := by omega
  simp only [decodeQuad, h0, h1, h2, h3, if_neg hne, hdiv]
  rw [hor i (j / 16) 2 4 rfl (by omega), hor j (k / 4) 4 16 rfl (by omega),
    hor k l 6 64 rfl (by omega)]

theorem toUInt8_eq_of_mod {n : ℕ} {a : UInt8} (h : n % 256 = a.toNat) : n.toUInt8 = a := by
  rw [← UInt8.toNat_inj]
  simpa [Nat.toUInt8, UInt8.toNat_ofNat'] using h

theorem decodeQuad_encodeTriple (a b c : UInt8) :
    decodeQuad (b64Table.getD (a.toNat / 4) 0)
        (b64Table.getD (a.toNat % 4 * 16 + b.toNat / 16) 0)
        (b64Table.getD (b.toNat % 16 * 4 + c.toNat / 64) 0)
        (b64Table.getD (c.toNat % 64) 0) = some [a, b, c] := by
  have ha := a.toNat_lt
  have hb := b.toNat_lt
  have hc := c.toNat_lt
  rw [decodeQuad_of_table (by omega) (by omega) (by omega) (by omega) _ _
      (b64DecTable_b64Table _ (by omega)) (b64DecTable_b64Table _ (by omega)),
    if_neg (b64Table_ne_pad _ (by omega)), if_neg (b64Table_ne_pad _ (by omega)),
    toUInt8_eq_of_mod (a := a) (by omega), toUInt8_eq_of_mod (a := b) (by omega),
    toUInt8_eq_of_mod (a := c) (by omega)]
  rfl

/-- Two bytes and one padding character. -/
theorem decodeQuad_pair (a b : UInt8) :
    decodeQuad (b64Table.getD (a.toNat / 4) 0)
        (b64Table.getD (a.toNat % 4 * 16 + b.toNat / 16) 0)
        (b64Table.getD (b.toNat % 16 * 4) 0) (ch '=') = some [a, b] := by
  have ha := a.toNat_lt
  have hb := b.toNat_lt
  have hpad : b64DecTable (ch '=') = 0 := by decide
  rw [decodeQuad_of_table (by omega) (by omega) (by omega) (by omega) _ _
      (b64DecTable_b64Table _ (by omega)) hpad,
    if_neg (b64Table_ne_pad _ (by omega)), if_pos rfl,
    toUInt8_eq_of_mod (a := a) (by omega), toUInt8_eq_of_mod (a := b) (by omega)]
  rfl

/-- One byte and two padding characters. -/
theorem decodeQuad_single (a : UInt8) :
    decodeQuad (b64Table.getD (a.toNat / 4) 0) (b64Table.getD (a.toNat % 4 * 16) 0)
        (ch '=') (ch '=') = some [a] := by
  have ha := a.toNat_lt
  have hpad : b64DecTable (ch '=') = 0 := by decide
  rw [decodeQuad_of_table (by omega) (by omega) (by omega) (by omega) _ _ hpad hpad,
    if_pos rfl, toUInt8_eq_of_mod (a := a) (by omega)]
  rfl

/-! ### The round trip -/

/-- The groups of the output, read off the input three bytes at a time. -/
theorem base64Encode_cons (a b c : UInt8) (rest : Bytes) :
    base64Encode (a :: b :: c :: rest) = encodeTriple a b c ++ base64Encode rest := by
  have hmod : (a :: b :: c :: rest).length % 3 = rest.length % 3 := by
    simp only [List.length_cons]
    omega
  simp only [base64Encode, hmod, encodeLoop]
  split
  · rfl
  · rename_i hpad
    have hlen : 3 - rest.length % 3 ≤ (encodeLoop rest).length := by
      rcases rest with _ | ⟨x, _ | ⟨y, _ | ⟨z, rest⟩⟩⟩
      · simp at hpad
      · simp [encodeLoop, length_encodeTriple]
      · simp [encodeLoop, length_encodeTriple]
      · simp only [encodeLoop, List.length_append, length_encodeTriple]
        omega
    rw [List.length_append, Nat.add_sub_assoc hlen, List.take_length_add_append,
      List.append_assoc]

theorem base64Encode_single (a : UInt8) :
    base64Encode [a] = [b64Table.getD (a.toNat / 4) 0,
      b64Table.getD (a.toNat % 4 * 16) 0, ch '=', ch '='] := by
  simp [base64Encode, encodeLoop, encodeTriple_eq]

theorem base64Encode_pair (a b : UInt8) :
    base64Encode [a, b] = [b64Table.getD (a.toNat / 4) 0,
      b64Table.getD (a.toNat % 4 * 16 + b.toNat / 16) 0,
      b64Table.getD (b.toNat % 16 * 4) 0, ch '='] := by
  simp [base64Encode, encodeLoop, encodeTriple_eq]

/-- Every three bytes begun take four characters. -/
theorem length_base64Encode (data : Bytes) :
    (base64Encode data).length = 4 * ((data.length + 2) / 3) := by
  induction data using encodeLoop.induct with
  | case1 => rfl
  | case2 a => simp [base64Encode_single]
  | case3 a b => simp [base64Encode_pair]
  | case4 a b c rest ih =>
      rw [base64Encode_cons, List.length_append, length_encodeTriple, ih]
      simp only [List.length_cons]
      omega

/-- **Decoding inverts encoding.** Induction along the groups of three input bytes. -/
theorem base64Decode_base64Encode (data : Bytes) :
    base64Decode (base64Encode data) = some data := by
  rw [base64Decode, if_neg (by rw [length_base64Encode]; omega)]
  induction data using encodeLoop.induct with
  | case1 => rfl
  | case2 a => rw [base64Encode_single, decodeLoop, decodeQuad_single]; rfl
  | case3 a b => rw [base64Encode_pair, decodeLoop, decodeQuad_pair]; rfl
  | case4 a b c rest ih =>
      rw [base64Encode_cons, encodeTriple_eq, List.cons_append, List.cons_append,
        List.cons_append, List.cons_append, List.nil_append, decodeLoop,
        decodeQuad_encodeTriple, ih]
      rfl

/-- Four characters decode to at most three bytes. Induction along the groups. -/
theorem length_decodeLoop_le {data d : Bytes} (h : decodeLoop data = some d) :
    4 * d.length ≤ 3 * data.length := by
  induction data using decodeLoop.induct generalizing d with
  | case1 c0 c1 c2 c3 rest ih =>
      obtain ⟨bytes, hquad, h⟩ := Option.bind_eq_some_iff.mp h
      obtain ⟨more, hmore, h⟩ := Option.bind_eq_some_iff.mp h
      obtain rfl := Option.some.inj h
      have hbytes : bytes.length ≤ 3 := by
        simp only [decodeQuad, Option.ite_none_left_eq_some, Option.some.injEq] at hquad
        rw [← hquad.2]
        split <;> split <;> simp
      have := ih hmore
      simp only [List.length_append, List.length_cons]
      omega
  | case2 data hshort =>
      rw [decodeLoop.eq_2 data hshort] at h
      obtain rfl := Option.some.inj h
      simp

/-- Decoded data is shorter than its text. -/
theorem length_base64urlDecode_le {str d : Bytes} (h : base64urlDecode str = some d) :
    4 * d.length ≤ 3 * str.length := by
  rw [base64urlDecode, base64Decode, Option.ite_none_left_eq_some] at h
  have hlen := length_decodeLoop_le h.2
  rwa [base64urlToB64_eq_map, List.length_map] at hlen

theorem mem_encodeTriple {a b c x : UInt8} (hx : x ∈ encodeTriple a b c) : x ∈ b64Table := by
  have htable : ∀ i < 64, b64Table.getD i 0 ∈ b64Table := by decide +kernel
  have ha := a.toNat_lt
  have hb := b.toNat_lt
  have hc := c.toNat_lt
  simp only [encodeTriple_eq, List.mem_cons, List.not_mem_nil, or_false] at hx
  rcases hx with rfl | rfl | rfl | rfl <;> exact htable _ (by omega)

/-- The main loop writes characters of the alphabet only. -/
theorem mem_encodeLoop {data : Bytes} {x : UInt8} (hx : x ∈ encodeLoop data) : x ∈ b64Table := by
  induction data using encodeLoop.induct with
  | case1 => simp [encodeLoop] at hx
  | case2 a => exact mem_encodeTriple hx
  | case3 a b => exact mem_encodeTriple hx
  | case4 a b c rest ih =>
      rcases List.mem_append.mp hx with hx | hx
      · exact mem_encodeTriple hx
      · exact ih hx

/-- What an encoded text is made of. -/
theorem mem_base64Encode {data : Bytes} {c : UInt8} (hc : c ∈ base64Encode data) :
    c ∈ b64Table ∨ c = ch '=' := by
  simp only [base64Encode] at hc
  split at hc
  · exact Or.inl (mem_encodeLoop hc)
  · rcases List.mem_append.mp hc with hc | hc
    · exact Or.inl (mem_encodeLoop (List.mem_of_mem_take hc))
    · exact Or.inr (List.eq_of_mem_replicate hc)

theorem length_base64urlEncode (data : Bytes) :
    (base64urlEncode data).length = 4 * ((data.length + 2) / 3) := by
  rw [base64urlEncode, base64ToBase64url_eq_map, List.length_map, length_base64Encode]

/-- The characters of encoded URL text. -/
theorem mem_base64urlEncode {data : Bytes} {c : UInt8} (hc : c ∈ base64urlEncode data) :
    c ∈ b64Table ∨ c = ch '=' ∨ c = ch '-' ∨ c = ch '_' := by
  rw [base64urlEncode, base64ToBase64url_eq_map, List.mem_map] at hc
  obtain ⟨x, hx, rfl⟩ := hc
  split
  · simp
  · split
    · simp
    · rcases mem_base64Encode hx with h | h
      · exact Or.inl h
      · exact Or.inr (Or.inl h)

/-- No other character occurs in encoded URL text. -/
theorem not_mem_base64urlEncode {data : Bytes} {c : UInt8} (htable : c ∉ b64Table)
    (hpad : c ≠ ch '=') (hdash : c ≠ ch '-') (hline : c ≠ ch '_') :
    c ∉ base64urlEncode data := by
  intro hc
  rcases mem_base64urlEncode hc with h | h | h | h
  · exact htable h
  · exact hpad h
  · exact hdash h
  · exact hline h

theorem base64urlEncode_ne_nil {data : Bytes} (h : data ≠ []) : base64urlEncode data ≠ [] := by
  rw [base64urlEncode, base64ToBase64url_eq_map, ne_eq, List.map_eq_nil_iff]
  intro hnil
  have hdec := base64Decode_base64Encode data
  rw [hnil] at hdec
  exact h (Option.some.inj hdec).symm

/-- **The URL variant round-trips as well**: the replacements are undone, and the padding
was never removed. -/
theorem base64urlDecode_base64urlEncode (data : Bytes) :
    base64urlDecode (base64urlEncode data) = some data := by
  have hback : ∀ c ∈ base64Encode data,
      (if (if c = ch '+' then ch '-' else if c = ch '/' then ch '_' else c) = ch '-' then ch '+'
        else if (if c = ch '+' then ch '-' else if c = ch '/' then ch '_' else c) = ch '_'
        then ch '/' else if c = ch '+' then ch '-' else if c = ch '/' then ch '_' else c) = c := by
    intro c hc
    have hne : c ≠ ch '-' ∧ c ≠ ch '_' := by
      have htable : ch '-' ∉ b64Table ∧ ch '_' ∉ b64Table := by decide +kernel
      rcases mem_base64Encode hc with h | rfl
      · exact ⟨ne_of_mem_of_not_mem h htable.1, ne_of_mem_of_not_mem h htable.2⟩
      · decide
    by_cases hplus : c = ch '+'
    · subst hplus; rfl
    · by_cases hslash : c = ch '/'
      · subst hslash; rfl
      · simp [hplus, hslash, hne.1, hne.2]
  rw [base64urlDecode, base64urlToB64_eq_map, base64urlEncode, base64ToBase64url_eq_map,
    List.map_map]
  have hmap := List.map_congr_left hback
  rw [List.map_id'] at hmap
  exact (congrArg base64Decode hmap).trans (base64Decode_base64Encode data)

/-- Encoded text can be the value of a C string. -/
theorem nulFree_base64Encode (data : Bytes) : NulFree (base64Encode data) := by
  intro hnul
  have htable : (0 : UInt8) ∉ b64Table := by decide +kernel
  rcases mem_base64Encode hnul with h | h
  · exact htable h
  · exact absurd h (by decide)

theorem nulFree_base64urlEncode (data : Bytes) : NulFree (base64urlEncode data) :=
  not_mem_base64urlEncode (by decide +kernel) (by decide) (by decide) (by decide)

/-- **The codecs are inverse**: what is encoded is a C string, and decoding that string gives
back the data with its length. -/
theorem codecs_inverse (data : Bytes) :
    (NulFree (base64Encode data) ∧ base64Decode (base64Encode data) = some data) ∧
      NulFree (base64urlEncode data) ∧ base64urlDecode (base64urlEncode data) = some data :=
  ⟨⟨nulFree_base64Encode data, base64Decode_base64Encode data⟩,
    nulFree_base64urlEncode data, base64urlDecode_base64urlEncode data⟩

/-! ### The writes of the re-padding -/

/-- A byte stored at an index of a block. -/
structure Write where
  index : ℕ
  byte : UInt8
  deriving DecidableEq, Repr

/-- A store into a block. -/
def Write.apply (block : Bytes) (w : Write) : Bytes := block.set w.index w.byte

/-- What the character loop of `base64url_to_b64` stores, from index `i` on. -/
def convertWrites : ℕ → Bytes → List Write
  | _, [] => []
  | i, c :: str =>
      (if c = ch '-' then [⟨i, ch '+'⟩] else if c = ch '_' then [⟨i, ch '/'⟩] else []) ++
        convertWrites (i + 1) str

/-- What `base64url_to_b64` stores: the characters replaced, the padding, and the NUL. The
last two are at indices counted from where `str` points after the loop, the end of the
string. -/
def base64urlToB64Writes (str : Bytes) : List Write :=
  let atEnd := str.length
  let len := (str.drop atEnd).length
  let padLen := (4 - len % 4) % 4
  convertWrites 0 str ++ (List.range padLen).map (fun i => ⟨atEnd + (len + i), ch '='⟩) ++
    [⟨atEnd + (len + padLen), 0⟩]

theorem base64urlToB64Writes_eq (str : Bytes) :
    base64urlToB64Writes str = convertWrites 0 str ++ [⟨str.length, 0⟩] := by
  simp [base64urlToB64Writes]

/-- The character loop stores inside the string. Induction along it. -/
theorem index_convertWrites {i : ℕ} {str : Bytes} {w : Write} (h : w ∈ convertWrites i str) :
    w.index < i + str.length := by
  induction str generalizing i with
  | nil => simp [convertWrites] at h
  | cons c str ih =>
      rw [List.length_cons]
      rcases List.mem_append.mp h with h | h
      · have hw : w.index = i := by
          split at h
          · rw [List.mem_singleton.mp h]
          · split at h
            · rw [List.mem_singleton.mp h]
            · simp at h
        omega
      · have := ih h
        omega

/-- **The re-padding stays inside the string and its NUL.** -/
theorem index_base64urlToB64Writes {str : Bytes} {w : Write}
    (h : w ∈ base64urlToB64Writes str) : w.index < str.length + 1 := by
  rw [base64urlToB64Writes_eq] at h
  rcases List.mem_append.mp h with h | h
  · have := index_convertWrites h
    omega
  · rw [List.mem_singleton.mp h]
    exact Nat.lt_succ_self _

/-- The character loop converts the string in place. Induction along the string, from the part
the loop has passed. -/
theorem foldl_convertWrites (passed str : Bytes) :
    (convertWrites passed.length str).foldl Write.apply (passed ++ (str ++ [0])) =
      passed ++ (base64urlToB64 str ++ [0]) := by
  induction str generalizing passed with
  | nil => simp [convertWrites, base64urlToB64_eq_map]
  | cons c str ih =>
      have hrest := ih (passed ++
        [if c = ch '-' then ch '+' else if c = ch '_' then ch '/' else c])
      have hstep : (if c = ch '-' then [(⟨passed.length, ch '+'⟩ : Write)]
          else if c = ch '_' then [⟨passed.length, ch '/'⟩] else []).foldl Write.apply
          (passed ++ (c :: str ++ [0])) = passed ++
            [if c = ch '-' then ch '+' else if c = ch '_' then ch '/' else c] ++
              (str ++ [0]) := by
        have hne : ch '_' ≠ ch '-' := by decide
        by_cases hdash : c = ch '-'
        · simp [hdash, Write.apply, List.set_append_right]
        · by_cases hline : c = ch '_'
          · simp [hline, hne, Write.apply, List.set_append_right]
          · simp [hdash, hline]
      rw [List.length_append, List.length_singleton] at hrest
      rw [convertWrites, List.foldl_append, hstep, hrest]
      simp [base64urlToB64_eq_map]

/-- **What the writes leave** in the block of the string: the string `base64url_to_b64`
makes of it, with its NUL. -/
theorem foldl_base64urlToB64Writes (str : Bytes) :
    (base64urlToB64Writes str).foldl Write.apply (str ++ [0]) = base64urlToB64 str ++ [0] := by
  have hconvert := foldl_convertWrites [] str
  have hlen : str.length = (base64urlToB64 str).length := by
    rw [base64urlToB64_eq_map, List.length_map]
  rw [List.nil_append, List.nil_append, List.length_nil] at hconvert
  rw [base64urlToB64Writes_eq, List.foldl_append, hconvert, List.foldl_cons, List.foldl_nil,
    Write.apply, hlen, List.set_append_right _ _ le_rfl, Nat.sub_self]
  rfl

end CBank

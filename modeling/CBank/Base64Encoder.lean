import CBank.Base64
import CBank.CLib.Bits
import CBank.CLib.Memory

/-!
# The Base64 Encoder

`base64_encode` of `jwt/base64.c` with the block it allocates, and the URL text made of it. The
encoder sizes its block from the length of the data and writes full groups of four characters, the
padding over the last of them, and the NUL.

The standard encoding is stated on bit strings: the bits of the data, in groups of six, each a
character of the alphabet, and `=` up to a whole group of four.

## Main results

* `base64Encode_eq_standard`: the text of the encoder is the standard encoding.
* `foldl_base64EncodeWrites`, `index_base64EncodeWrites`: what its stores leave, and where they are.
* `base64EncodeBlock_standard`: the encoder as a whole.
* `unpaddedUrl_iff`: when URL text has no padding.
-/

namespace CBank

open CLib

/-! ### The standard encoding -/

/-- The character of six bits. -/
def standardAlphabet (v : ℕ) : UInt8 :=
  if v < 26 then ch 'A' + v.toUInt8
  else if v < 52 then ch 'a' + (v - 26).toUInt8
  else if v < 62 then ch '0' + (v - 52).toUInt8
  else if v = 62 then ch '+'
  else ch '/'

/-- The characters of a bit string. -/
def standardChars (bits : List Bool) : Bytes :=
  (groupsOf 6 (zeroExtend 6 bits)).map fun group => standardAlphabet (bitsValue group)

/-- The bits of some data. -/
def dataBits (data : Bytes) : List Bool := data.flatMap fun c => bitsOf 8 c.toNat

/-- The standard encoding. -/
def standardBase64 (data : Bytes) : Bytes :=
  let chars := standardChars (dataBits data)
  chars ++ List.replicate ((4 - chars.length % 4) % 4) (ch '=')

/-! ### The encoder and its block -/

/-- Stores of some bytes one behind the other, from an index on. -/
def writesFrom : ℕ → Bytes → List Write
  | _, [] => []
  | i, b :: bytes => ⟨i, b⟩ :: writesFrom (i + 1) bytes

/-- `*output_len`, a `size_t`. -/
def encodedLen (inputLength : ℕ) : ℕ := 4 * ((inputLength + 2) % 2 ^ 64 / 3) % 2 ^ 64

/-- What the main loop of `base64_encode` stores, from index `j` on. -/
def encodeLoopWrites (j : ℕ) : Bytes → List Write
  | [] => []
  | [a] => writesFrom j (encodeTriple a 0 0)
  | [a, b] => writesFrom j (encodeTriple a b 0)
  | a :: b :: c :: rest => writesFrom j (encodeTriple a b c) ++ encodeLoopWrites (j + 4) rest

/-- What the padding loop of `base64_encode` stores: `n` times `=`, from the end. -/
def paddingWrites (outputLen n : ℕ) : List Write :=
  (List.range n).map fun k => ⟨outputLen - 1 - k, ch '='⟩

/-- What `base64_encode` stores in its block. -/
def base64EncodeWrites (data : Bytes) : List Write :=
  let outputLen := encodedLen data.length
  let padding := data.length % 3
  encodeLoopWrites 0 data ++ (if padding = 0 then [] else paddingWrites outputLen (3 - padding)) ++
    [⟨outputLen, 0⟩]

/-- `base64_encode`: the length it sets, and the block it returns. -/
def base64EncodeBlock (A : Allocator) (data : Bytes) : ℕ × Option Bytes :=
  let outputLen := encodedLen data.length
  (outputLen, (A.alloc (outputLen + 1)).map fun block =>
    (base64EncodeWrites data).foldl Write.apply block)

/-! ### The text of the encoder -/

theorem standardAlphabet_eq : ∀ v < 64, standardAlphabet v = b64Table.getD v 0 := by
  decide +kernel

theorem standardAlphabet_bitsOf (n : ℕ) :
    standardAlphabet (bitsValue (bitsOf 6 n)) = b64Table.getD (n % 64) 0 := by
  rw [bitsValue_bitsOf]
  exact standardAlphabet_eq _ (Nat.mod_lt _ (by decide))

/-- A group of six bits in front. -/
theorem standardChars_bitsOf_append (n : ℕ) (bits : List Bool) :
    standardChars (bitsOf 6 n ++ bits) = b64Table.getD (n % 64) 0 :: standardChars bits := by
  rw [standardChars, zeroExtend_append (m := 1) (length_bitsOf 6 n),
    groupsOf_append (by decide) (length_bitsOf 6 n), List.map_cons, standardAlphabet_bitsOf]
  rfl

theorem standardChars_nil : standardChars [] = [] := by decide

/-- The bits of three bytes, in four groups. -/
theorem bits_triple (a b c : UInt8) :
    bitsOf 8 a.toNat ++ (bitsOf 8 b.toNat ++ bitsOf 8 c.toNat) =
      bitsOf 6 (a.toNat / 4) ++ (bitsOf 6 (a.toNat % 4 * 16 + b.toNat / 16) ++
        (bitsOf 6 (b.toNat % 16 * 4 + c.toNat / 64) ++ bitsOf 6 (c.toNat % 64))) := by
  have ha := a.toNat_lt
  have hb := b.toNat_lt
  have hc := c.toNat_lt
  simp only [bitsOf_append]
  exact bitsOf_congr (by omega)

theorem standardChars_triple (a b c : UInt8) (bits : List Bool) :
    standardChars (bitsOf 8 a.toNat ++ (bitsOf 8 b.toNat ++ (bitsOf 8 c.toNat ++ bits))) =
      encodeTriple a b c ++ standardChars bits := by
  have ha := a.toNat_lt
  have hb := b.toNat_lt
  have hc := c.toNat_lt
  have hbits : bitsOf 8 a.toNat ++ (bitsOf 8 b.toNat ++ (bitsOf 8 c.toNat ++ bits)) =
      bitsOf 8 a.toNat ++ (bitsOf 8 b.toNat ++ bitsOf 8 c.toNat) ++ bits := by
    simp only [List.append_assoc]
  rw [hbits, bits_triple]
  have h1 : a.toNat / 4 % 64 = a.toNat / 4 := Nat.mod_eq_of_lt (by omega)
  have h2 : (a.toNat % 4 * 16 + b.toNat / 16) % 64 = a.toNat % 4 * 16 + b.toNat / 16 :=
    Nat.mod_eq_of_lt (by omega)
  have h3 : (b.toNat % 16 * 4 + c.toNat / 64) % 64 = b.toNat % 16 * 4 + c.toNat / 64 :=
    Nat.mod_eq_of_lt (by omega)
  simp only [List.append_assoc, standardChars_bitsOf_append, encodeTriple_eq, h1, h2, h3,
    Nat.mod_mod]
  rfl

/-- Bits that are filled up to some groups. -/
theorem standardChars_of_groups {bits groups : List Bool} {m : ℕ} (hlen : groups.length = 6 * m)
    (h : zeroExtend 6 bits = groups) : standardChars bits = standardChars groups := by
  have hgroups : zeroExtend 6 groups = groups := by
    have hnil : zeroExtend 6 [] = [] := rfl
    have happend := zeroExtend_append hlen []
    rwa [List.append_nil, hnil, List.append_nil] at happend
  rw [standardChars, h, standardChars, hgroups]

/-- The bits of two bytes and two zeros, in three groups. -/
theorem standardChars_pair (a b : UInt8) :
    standardChars (bitsOf 8 a.toNat ++ bitsOf 8 b.toNat) = [b64Table.getD (a.toNat / 4) 0,
      b64Table.getD (a.toNat % 4 * 16 + b.toNat / 16) 0, b64Table.getD (b.toNat % 16 * 4) 0] := by
  have ha := a.toNat_lt
  have hb := b.toNat_lt
  have hgroups : zeroExtend 6 (bitsOf 8 a.toNat ++ bitsOf 8 b.toNat) = bitsOf 6 (a.toNat / 4) ++
      (bitsOf 6 (a.toNat % 4 * 16 + b.toNat / 16) ++ (bitsOf 6 (b.toNat % 16 * 4) ++ [])) := by
    rw [zeroExtend, List.length_append, length_bitsOf, length_bitsOf, List.append_nil]
    change _ ++ List.replicate 2 false = _
    rw [← bitsOf_zero 2]
    simp only [bitsOf_append]
    exact bitsOf_congr (by omega)
  have h1 : a.toNat / 4 % 64 = a.toNat / 4 := Nat.mod_eq_of_lt (by omega)
  have h2 : (a.toNat % 4 * 16 + b.toNat / 16) % 64 = a.toNat % 4 * 16 + b.toNat / 16 :=
    Nat.mod_eq_of_lt (by omega)
  have h3 : b.toNat % 16 * 4 % 64 = b.toNat % 16 * 4 := Nat.mod_eq_of_lt (by omega)
  rw [standardChars_of_groups (m := 3) (by simp [length_bitsOf]) hgroups,
    standardChars_bitsOf_append, standardChars_bitsOf_append, standardChars_bitsOf_append,
    standardChars_nil, h1, h2, h3]

/-- The bits of a byte and four zeros, in two groups. -/
theorem standardChars_single (a : UInt8) :
    standardChars (bitsOf 8 a.toNat) =
      [b64Table.getD (a.toNat / 4) 0, b64Table.getD (a.toNat % 4 * 16) 0] := by
  have ha := a.toNat_lt
  have hgroups : zeroExtend 6 (bitsOf 8 a.toNat) =
      bitsOf 6 (a.toNat / 4) ++ (bitsOf 6 (a.toNat % 4 * 16) ++ []) := by
    rw [zeroExtend, length_bitsOf, List.append_nil]
    change _ ++ List.replicate 4 false = _
    rw [← bitsOf_zero 4]
    simp only [bitsOf_append]
    exact bitsOf_congr (by omega)
  have h1 : a.toNat / 4 % 64 = a.toNat / 4 := Nat.mod_eq_of_lt (by omega)
  have h2 : a.toNat % 4 * 16 % 64 = a.toNat % 4 * 16 := Nat.mod_eq_of_lt (by omega)
  rw [standardChars_of_groups (m := 2) (by simp [length_bitsOf]) hgroups,
    standardChars_bitsOf_append, standardChars_bitsOf_append, standardChars_nil, h1, h2]

/-- **The encoder writes the standard encoding.** Induction along the groups of three bytes. -/
theorem base64Encode_eq_standard (data : Bytes) : base64Encode data = standardBase64 data := by
  induction data using encodeLoop.induct with
  | case1 => rfl
  | case2 a =>
      rw [base64Encode_single, standardBase64, dataBits, List.flatMap_cons, List.flatMap_nil,
        List.append_nil, standardChars_single]
      rfl
  | case3 a b =>
      rw [base64Encode_pair, standardBase64, dataBits, List.flatMap_cons, List.flatMap_cons,
        List.flatMap_nil, List.append_nil, standardChars_pair]
      rfl
  | case4 a b c rest ih =>
      rw [base64Encode_cons, ih, standardBase64, standardBase64, dataBits, dataBits,
        List.flatMap_cons, List.flatMap_cons, List.flatMap_cons, standardChars_triple]
      simp only [List.length_append, length_encodeTriple, Nat.add_mod_left, List.append_assoc]

/-! ### The stores of the encoder -/

theorem writesFrom_append (i : ℕ) (s t : Bytes) :
    writesFrom i (s ++ t) = writesFrom i s ++ writesFrom (i + s.length) t := by
  induction s generalizing i with
  | nil => rfl
  | cons b s ih =>
      rw [List.cons_append, writesFrom, ih, writesFrom, List.cons_append, List.length_cons,
        Nat.add_right_comm, Nat.add_assoc]

theorem index_writesFrom {i : ℕ} {bytes : Bytes} {w : Write} (h : w ∈ writesFrom i bytes) :
    w.index < i + bytes.length := by
  induction bytes generalizing i with
  | nil => simp [writesFrom] at h
  | cons b bytes ih =>
      rw [List.length_cons]
      rcases List.mem_cons.mp h with rfl | h
      · exact Nat.lt_add_of_pos_right (Nat.succ_pos _)
      · have := ih h
        omega

/-- **What stores one behind the other leave**: the bytes, and what lies around them. Induction
along the bytes, from the part that was passed. -/
theorem foldl_writesFrom (passed bytes old : Bytes) (hlen : old.length = bytes.length)
    (rest : Bytes) :
    (writesFrom passed.length bytes).foldl Write.apply (passed ++ (old ++ rest)) =
      passed ++ (bytes ++ rest) := by
  induction bytes generalizing passed old with
  | nil =>
      rw [List.length_eq_zero_iff.mp hlen]
      rfl
  | cons b bytes ih =>
      obtain ⟨x, old, rfl⟩ := List.exists_cons_of_length_pos (by rw [hlen]; exact Nat.succ_pos _)
      have hstore : Write.apply (passed ++ (x :: old ++ rest)) ⟨passed.length, b⟩ =
          passed ++ [b] ++ (old ++ rest) := by
        simp [Write.apply, List.set_append_right]
      have hmore := ih (passed ++ [b]) old (Nat.succ_injective hlen)
      rw [List.length_append, List.length_singleton] at hmore
      rw [writesFrom, List.foldl_cons, hstore, hmore, List.append_assoc]
      rfl

theorem encodeLoopWrites_eq (j : ℕ) (data : Bytes) :
    encodeLoopWrites j data = writesFrom j (encodeLoop data) := by
  induction data using encodeLoop.induct generalizing j with
  | case1 => rfl
  | case2 a => rfl
  | case3 a b => rfl
  | case4 a b c rest ih =>
      rw [encodeLoopWrites, ih, encodeLoop, writesFrom_append, length_encodeTriple]

theorem length_encodeLoop (data : Bytes) :
    (encodeLoop data).length = 4 * ((data.length + 2) / 3) := by
  induction data using encodeLoop.induct with
  | case1 => rfl
  | case2 a => simp [encodeLoop, length_encodeTriple]
  | case3 a b => simp [encodeLoop, length_encodeTriple]
  | case4 a b c rest ih =>
      rw [encodeLoop, List.length_append, length_encodeTriple, ih]
      simp only [List.length_cons]
      omega

/-- **What the padding loop leaves**: `=` over the last characters. Induction along the loop. -/
theorem foldl_paddingWrites (text : Bytes) {n : ℕ} (hn : n ≤ text.length) (rest : Bytes) :
    (paddingWrites text.length n).foldl Write.apply (text ++ rest) =
      text.take (text.length - n) ++ (List.replicate n (ch '=') ++ rest) := by
  induction n with
  | zero => simp [paddingWrites]
  | succ n ih =>
      obtain ⟨k, hk⟩ : ∃ k, text.length - n = k + 1 := ⟨text.length - n - 1, by omega⟩
      have hindex : text.length - 1 - n = k := by omega
      have hleft : text.length - (n + 1) = k := by omega
      have hlast : text.take (k + 1) = text.take k ++ [text.get ⟨k, by omega⟩] := by
        rw [List.take_succ_eq_append_getElem (by omega)]
        rfl
      have htake : (text.take k).length = k := List.length_take_of_le (by omega)
      have hloop : paddingWrites text.length (n + 1) =
          paddingWrites text.length n ++ [⟨k, ch '='⟩] := by
        rw [paddingWrites, List.range_succ, List.map_append, ← hindex]
        rfl
      rw [hloop, List.foldl_append, ih (by omega), hk, hleft, hlast, List.foldl_cons,
        List.foldl_nil, Write.apply, List.append_assoc, List.set_append_right _ _ htake.le, htake,
        Nat.sub_self, List.replicate_succ]
      rfl

/-- Four characters for every three bytes begun, if a `size_t` can count them and the NUL. -/
theorem encodedLen_eq {n : ℕ} (hsize : 4 * ((n + 2) / 3) + 1 < 2 ^ 64) :
    encodedLen n = 4 * ((n + 2) / 3) := by
  rw [encodedLen, Nat.mod_eq_of_lt (by omega : n + 2 < 2 ^ 64), Nat.mod_eq_of_lt (by omega)]

/-- **What the stores of the encoder leave** in a block that has room for the text and its NUL. -/
theorem foldl_base64EncodeWrites {data : Bytes}
    (hsize : 4 * ((data.length + 2) / 3) + 1 < 2 ^ 64) {block : Bytes}
    (hblock : block.length = 4 * ((data.length + 2) / 3) + 1) :
    (base64EncodeWrites data).foldl Write.apply block = base64Encode data ++ [0] := by
  have hlen := length_encodeLoop data
  obtain ⟨old, x, rfl⟩ : ∃ old x, block = old ++ [x] := by
    rcases List.eq_nil_or_concat block with rfl | ⟨old, x, rfl⟩
    · simp at hblock
    · exact ⟨old, x, List.concat_eq_append⟩
  rw [List.length_append, List.length_singleton] at hblock
  have hloop := foldl_writesFrom [] (encodeLoop data) old (by omega) [x]
  rw [List.nil_append, List.nil_append, List.length_nil] at hloop
  -- the padding goes over the last characters, the NUL behind them
  have hpadded : (if data.length % 3 = 0 then []
      else paddingWrites (encodeLoop data).length (3 - data.length % 3)).foldl Write.apply
        (encodeLoop data ++ [x]) = base64Encode data ++ [x] := by
    rw [base64Encode]
    split
    · rfl
    · rw [foldl_paddingWrites _ (by omega), List.append_assoc]
  have hend : (base64Encode data).length = (encodeLoop data).length := by
    rw [length_base64Encode, hlen]
  rw [base64EncodeWrites, encodedLen_eq hsize, ← hlen, encodeLoopWrites_eq, List.foldl_append,
    List.foldl_append, hloop, hpadded, List.foldl_cons, List.foldl_nil, Write.apply, ← hend,
    List.set_append_right _ _ le_rfl, Nat.sub_self]
  rfl

/-- **The encoder stores inside its block.** -/
theorem index_base64EncodeWrites {data : Bytes}
    (hsize : 4 * ((data.length + 2) / 3) + 1 < 2 ^ 64) {w : Write}
    (hw : w ∈ base64EncodeWrites data) : w.index ≤ 4 * ((data.length + 2) / 3) := by
  rw [base64EncodeWrites, encodedLen_eq hsize] at hw
  rcases List.mem_append.mp hw with hw | hw
  · rcases List.mem_append.mp hw with hw | hw
    · rw [encodeLoopWrites_eq] at hw
      have := index_writesFrom hw
      rw [length_encodeLoop] at this
      omega
    · split at hw
      · simp at hw
      · obtain ⟨k, -, rfl⟩ := List.mem_map.mp hw
        change _ - 1 - k ≤ _
        omega
  · rw [List.mem_singleton.mp hw]

/-- **The encoder is the standard encoding**: the length it sets is that of the text, every store
is inside the block, and the block holds the text and its NUL. -/
theorem base64EncodeBlock_standard (A : Allocator) (data : Bytes)
    (hsize : 4 * ((data.length + 2) / 3) + 1 < 2 ^ 64) :
    (∀ w ∈ base64EncodeWrites data, w.index ≤ 4 * divUp data.length 3) ∧
    (base64EncodeBlock A data).1 = 4 * divUp data.length 3 ∧
    (base64EncodeBlock A data).2 =
      (A.alloc (4 * divUp data.length 3 + 1)).map fun _ => standardBase64 data ++ [0] := by
  have hceil : divUp data.length 3 = (data.length + 2) / 3 := rfl
  rw [hceil, base64EncodeBlock, encodedLen_eq hsize]
  refine ⟨fun w hw => index_base64EncodeWrites hsize hw, rfl, ?_⟩
  cases halloc : A.alloc (4 * ((data.length + 2) / 3) + 1) with
  | none => rfl
  | some block =>
      rw [Option.map_some, Option.map_some,
        foldl_base64EncodeWrites hsize (A.length_alloc halloc), base64Encode_eq_standard]

theorem base64EncodeBlock_standard_ab :
    (∀ w ∈ base64EncodeWrites (lit "ab"), w.index ≤ 4 * divUp (lit "ab").length 3) ∧
    (base64EncodeBlock (.filled 1) (lit "ab")).1 = 4 * divUp (lit "ab").length 3 ∧
    (base64EncodeBlock (.filled 1) (lit "ab")).2 =
      ((Allocator.filled 1).alloc (4 * divUp (lit "ab").length 3 + 1)).map fun _ =>
        standardBase64 (lit "ab") ++ [0] :=
  base64EncodeBlock_standard (.filled 1) (lit "ab") (by decide)

/-! ### URL text -/

/-- The characters that need no escape in a URL. -/
def UrlSafe (c : UInt8) : Prop :=
  (ch 'A' ≤ c ∧ c ≤ ch 'Z') ∨ (ch 'a' ≤ c ∧ c ≤ ch 'z') ∨ (ch '0' ≤ c ∧ c ≤ ch '9') ∨
    c = ch '-' ∨ c = ch '_'

instance : DecidablePred UrlSafe := fun _ => inferInstanceAs (Decidable (_ ∨ _))

/-- The character of the URL alphabet for one of the standard alphabet. -/
def urlChar (c : UInt8) : UInt8 :=
  if c = ch '+' then ch '-' else if c = ch '/' then ch '_' else c

/-- The URL text of some data has no padding: four characters for every three bytes, rounded up,
all of them safe, and the standard text without its padding otherwise. -/
structure UnpaddedUrl (data : Bytes) : Prop where
  length : (base64urlEncode data).length = divUp (4 * data.length) 3
  safe : ∀ c ∈ base64urlEncode data, UrlSafe c
  text : base64urlEncode data =
    ((base64Encode data).map urlChar).rdropWhile fun c => c = ch '='

theorem base64urlEncode_eq_map (data : Bytes) :
    base64urlEncode data = (base64Encode data).map urlChar := base64ToBase64url_eq_map _

theorem urlSafe_urlChar {c : UInt8} (hc : c ∈ b64Table) : UrlSafe (urlChar c) := by
  have htable : ∀ c ∈ b64Table, UrlSafe (urlChar c) := by decide +kernel
  exact htable c hc

/-- Padded text is too long. -/
theorem mod_three_of_unpaddedUrl {data : Bytes} (h : UnpaddedUrl data) : data.length % 3 = 0 := by
  have hceil : divUp (4 * data.length) 3 = (4 * data.length + 2) / 3 := rfl
  have hlen := h.length
  rw [length_base64urlEncode, hceil] at hlen
  omega

/-- Whole groups of three bytes need no padding. -/
theorem unpaddedUrl_of_mod_three {data : Bytes} (h : data.length % 3 = 0) : UnpaddedUrl data := by
  have hceil : divUp (4 * data.length) 3 = (4 * data.length + 2) / 3 := rfl
  have hloop : base64Encode data = encodeLoop data := if_pos h
  have hsafe : ∀ c ∈ base64urlEncode data, UrlSafe c := by
    intro c hc
    rw [base64urlEncode_eq_map, hloop] at hc
    obtain ⟨x, hx, rfl⟩ := List.mem_map.mp hc
    exact urlSafe_urlChar (mem_encodeLoop hx)
  refine ⟨?_, hsafe, ?_⟩
  · rw [length_base64urlEncode, hceil]
    omega
  · rw [← base64urlEncode_eq_map, eq_comm, List.rdropWhile_eq_self_iff]
    intro hne hpad
    have hlast := hsafe _ (List.getLast_mem hne)
    rw [of_decide_eq_true hpad] at hlast
    exact absurd hlast (by decide)

/-- **When URL text has no padding**: for whole groups of three bytes. -/
theorem unpaddedUrl_iff (data : Bytes) : UnpaddedUrl data ↔ data.length % 3 = 0 :=
  ⟨mod_three_of_unpaddedUrl, unpaddedUrl_of_mod_three⟩

/-- **One byte**: its URL text is padded. -/
theorem not_unpaddedUrl_a :
    base64urlEncode (lit "a") = lit "YQ==" ∧ ¬ UnpaddedUrl (lit "a") := by
  refine ⟨by decide, fun h => ?_⟩
  exact absurd (mod_three_of_unpaddedUrl h) (by decide)

end CBank

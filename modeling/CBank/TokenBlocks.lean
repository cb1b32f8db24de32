import CBank.Base64Encoder
import CBank.Jwt

/-!
# Building a Token in Memory

`generate_jwt` of `jwt/jwt.c` with the two blocks it prints into. Each is sized by hand from the
lengths of the two strings that go into it and their dot, and filled by `sprintf`, which ends the
text with a NUL. `token` is given a byte for that NUL, as is the message that `jwt_validate` puts
together again; `message` is not.

## Main results

* `inside_printDotted_iff`: a block has room for its text when it has a byte for the NUL.
* `generateJwtBlocks_eq`: the two blocks, with the strings that go into them.
* `generateJwt_inside_iff`: when every store is inside its block.
* `token_inside`, `rebuiltMessage_inside`, `message_stores`: the other two blocks have room for
  their texts, and this one for all but its NUL.
-/

namespace CBank

open CLib

/-! ### The blocks -/

/-- `base64_to_base64url` in place: the string in the block is converted, and what lies behind it
stays. -/
def base64ToBase64urlBlock (block : Bytes) : Bytes :=
  base64ToBase64url (cstr block) ++ block.drop (cstr block).length

/-- `base64url_encode`: the block it returns, or NULL. -/
def base64urlEncodeBlock (A : Allocator) (data : Bytes) : Option Bytes :=
  (base64EncodeBlock A data).2.map base64ToBase64urlBlock

/-- A block from `malloc`, or NULL, and what is stored in it. -/
structure PrintedBlock where
  block : Option Bytes
  writes : List Write

/-- Every store is inside the block; NULL has no room. -/
def PrintedBlock.Inside (b : PrintedBlock) : Prop :=
  ∀ w ∈ b.writes, ∃ block, b.block = some block ∧ w.index < block.length

/-- `sprintf(block, "%s.%s", left, right)` into a block of `strlen(left) + 1 + strlen(right) + room`
bytes. -/
def printDotted (A : Allocator) (room : ℕ) (left right : Bytes) : PrintedBlock :=
  ⟨A.alloc ((left.length + 1 + right.length + room) % 2 ^ 64),
    writesFrom 0 (left ++ ch '.' :: right ++ [0])⟩

/-- What `malloc` answers on the way through `generate_jwt`, call by call. -/
structure JwtAllocators where
  header : Allocator
  payload : Allocator
  message : Allocator
  signature : Allocator
  token : Allocator

/-- The `message` of `generate_jwt`. -/
def messageBlock (M : JwtAllocators) (header payload : Bytes) : PrintedBlock :=
  printDotted M.message 0 header payload

/-- The `token` of `generate_jwt`. -/
def tokenBlock (M : JwtAllocators) (message signature : Bytes) : PrintedBlock :=
  printDotted M.token 1 message signature

/-- The `message` of `jwt_validate`. -/
def rebuiltMessageBlock (A : Allocator) (header payload : Bytes) : PrintedBlock :=
  printDotted A 1 header payload

/-- The blocks `generate_jwt` prints into, as far as it comes: without the text of the header or of
the payload it returns NULL, and `strlen` of a signature that is NULL has no result. -/
def generateJwtBlocks (M : JwtAllocators) (H : Hmac) (payload secret : Bytes) :
    List PrintedBlock :=
  match base64urlEncodeBlock M.header jwtHeader, base64urlEncodeBlock M.payload payload with
  | some headerB64url, some payloadB64url =>
      let message := cstr headerB64url ++ [ch '.'] ++ cstr payloadB64url
      messageBlock M (cstr headerB64url) (cstr payloadB64url) ::
        match base64urlEncodeBlock M.signature (H.run secret message) with
        | none => []
        | some signatureB64url => [tokenBlock M message (cstr signatureB64url)]
  | _, _ => []

/-! ### Printing two strings and a dot -/

variable {A : Allocator} {room : ℕ} {left right : Bytes}

/-- The text lies before the NUL. -/
theorem mem_printDotted {w : Write} : w ∈ (printDotted A room left right).writes ↔
    w ∈ writesFrom 0 (left ++ ch '.' :: right) ∨ w = ⟨left.length + 1 + right.length, 0⟩ := by
  have hlen : (left ++ ch '.' :: right).length = left.length + 1 + right.length := by
    simp only [List.length_append, List.length_cons]
    omega
  change w ∈ writesFrom 0 (left ++ ch '.' :: right ++ [0]) ↔ _
  rw [writesFrom_append, hlen, Nat.zero_add, List.mem_append]
  exact or_congr_right List.mem_singleton

theorem index_text {w : Write} (h : w ∈ writesFrom 0 (left ++ ch '.' :: right)) :
    w.index < left.length + 1 + right.length := by
  have hlt := index_writesFrom h
  simp only [List.length_append, List.length_cons] at hlt
  omega

/-- A block without a byte for the NUL is too small, whatever `malloc` returns. -/
theorem not_inside_printDotted (A : Allocator) (left right : Bytes) :
    ¬ (printDotted A 0 left right).Inside := by
  intro h
  obtain ⟨block, halloc, hlt⟩ := h _ (mem_printDotted.mpr (Or.inr rfl))
  have hsize := A.length_alloc halloc
  have hle := Nat.mod_le (left.length + 1 + right.length + 0) (2 ^ 64)
  change left.length + 1 + right.length < block.length at hlt
  omega

/-- **What fits**: the text needs a byte for its NUL. -/
theorem inside_printDotted_iff (hsize : left.length + 1 + right.length + room < 2 ^ 64)
    (halloc : (A.alloc (left.length + 1 + right.length + room)).isSome) :
    (printDotted A room left right).Inside ↔ 0 < room := by
  constructor
  · intro h
    rcases Nat.eq_zero_or_pos room with rfl | hroom
    · exact absurd h (not_inside_printDotted A left right)
    · exact hroom
  · intro hroom w hw
    obtain ⟨block, hblock⟩ := Option.isSome_iff_exists.mp halloc
    have hlen := A.length_alloc hblock
    have hle : w.index ≤ left.length + 1 + right.length := by
      rcases mem_printDotted.mp hw with hw | rfl
      · exact (index_text hw).le
      · exact le_rfl
    refine ⟨block, ?_, by omega⟩
    rw [printDotted, Nat.mod_eq_of_lt hsize]
    exact hblock

/-! ### The texts that go into them -/

theorem base64urlEncodeBlock_eq_none_iff {data : Bytes} :
    base64urlEncodeBlock A data = none ↔ A.alloc (encodedLen data.length + 1) = none := by
  rw [base64urlEncodeBlock, Option.map_eq_none_iff, base64EncodeBlock, Option.map_eq_none_iff]

/-- The string in a block that was granted. -/
theorem exists_base64urlEncodeBlock (data : Bytes)
    (hsize : 4 * ((data.length + 2) / 3) + 1 < 2 ^ 64)
    (halloc : (A.alloc (4 * ((data.length + 2) / 3) + 1)).isSome) :
    ∃ block, base64urlEncodeBlock A data = some block ∧ cstr block = base64urlEncode data := by
  obtain ⟨block, hblock⟩ := Option.isSome_iff_exists.mp halloc
  have hencoded : (base64EncodeBlock A data).2 = some (base64Encode data ++ [0]) := by
    rw [base64EncodeBlock, encodedLen_eq hsize, hblock, Option.map_some,
      foldl_base64EncodeWrites hsize (A.length_alloc hblock)]
  refine ⟨base64urlEncode data ++ [0], ?_, cstr_append_nul (nulFree_base64urlEncode data) []⟩
  rw [base64urlEncodeBlock, hencoded, Option.map_some, base64ToBase64urlBlock,
    cstr_append_nul (nulFree_base64Encode data), List.drop_left, base64urlEncode]

/-- The text of the message. -/
def messageText (payload : Bytes) : Bytes :=
  base64urlEncode jwtHeader ++ [ch '.'] ++ base64urlEncode payload

/-- The text of the signature. -/
def signatureText (H : Hmac) (payload secret : Bytes) : Bytes :=
  base64urlEncode (H.run secret (messageText payload))

theorem generateJwt_eq (H : Hmac) (payload secret : Bytes) :
    generateJwt H payload secret =
      messageText payload ++ [ch '.'] ++ signatureText H payload secret := rfl

/-- Four characters for every three bytes, for the header, the payload and the 32 bytes of the
hash. -/
theorem length_texts (H : Hmac) (payload secret : Bytes) :
    (messageText payload).length = 37 + 4 * ((payload.length + 2) / 3) ∧
      (signatureText H payload secret).length = 44 := by
  have hheader : jwtHeader.length = 27 := by decide
  constructor
  · rw [messageText, List.length_append, List.length_append, length_base64urlEncode,
      length_base64urlEncode, hheader, List.length_singleton]
  · rw [signatureText, length_base64urlEncode, H.length_run]

/-! ### The blocks of a token -/

variable {M : JwtAllocators} {H : Hmac} {payload secret : Bytes}

/-- Every `malloc` on the way is granted its request, and the token can be counted. -/
structure JwtAllocators.Provide (M : JwtAllocators) (payload : Bytes) : Prop where
  size : 4 * ((payload.length + 2) / 3) + 83 < 2 ^ 64
  header : (M.header.alloc 37).isSome
  signature : (M.signature.alloc 45).isSome
  token : (M.token.alloc (4 * ((payload.length + 2) / 3) + 83)).isSome
  payload : (M.payload.alloc (4 * ((payload.length + 2) / 3) + 1)).isSome

/-- **The two blocks**, with the strings that go into them. -/
theorem generateJwtBlocks_eq (hM : M.Provide payload) (H : Hmac) (secret : Bytes) :
    generateJwtBlocks M H payload secret =
      [messageBlock M (base64urlEncode jwtHeader) (base64urlEncode payload),
        tokenBlock M (messageText payload) (signatureText H payload secret)] := by
  have hsize := hM.size
  obtain ⟨header, hheader, hheaderText⟩ : ∃ block, base64urlEncodeBlock M.header jwtHeader =
      some block ∧ cstr block = base64urlEncode jwtHeader :=
    exists_base64urlEncodeBlock jwtHeader (by decide) hM.header
  obtain ⟨payloadBlock, hpayload, hpayloadText⟩ :=
    exists_base64urlEncodeBlock payload (by omega) hM.payload
  obtain ⟨signature, hsignature, hsignatureText⟩ :=
    exists_base64urlEncodeBlock (H.run secret (messageText payload))
      (by rw [H.length_run]; decide) (by rw [H.length_run]; exact hM.signature)
  rw [generateJwtBlocks, hheader, hpayload]
  simp only [hheaderText, hpayloadText]
  rw [← messageText, hsignature]
  simp only [hsignatureText]
  rfl

/-- **The message but for its NUL** stays inside its block. -/
theorem message_stores {header payload block : Bytes}
    (hsize : header.length + 1 + payload.length < 2 ^ 64)
    (hblock : (messageBlock M header payload).block = some block) {w : Write}
    (hw : w ∈ (messageBlock M header payload).writes) :
    w.index < block.length ∨ w = ⟨block.length, 0⟩ := by
  have hlen := M.message.length_alloc hblock
  rw [Nat.add_zero, Nat.mod_eq_of_lt hsize] at hlen
  rw [hlen]
  rcases mem_printDotted.mp hw with hw | rfl
  · exact Or.inl (index_text hw)
  · exact Or.inr rfl

/-- **The message of `jwt_validate`** stays inside its block. -/
theorem rebuiltMessage_inside {header payload : Bytes}
    (hsize : header.length + 1 + payload.length + 1 < 2 ^ 64)
    (halloc : (A.alloc (header.length + 1 + payload.length + 1)).isSome) :
    (rebuiltMessageBlock A header payload).Inside :=
  (inside_printDotted_iff hsize halloc).mpr Nat.one_pos

/-- **The token stays inside its block.** -/
theorem token_inside (hM : M.Provide payload) (H : Hmac) (secret : Bytes) :
    (tokenBlock M (messageText payload) (signatureText H payload secret)).Inside := by
  have hsize := hM.size
  obtain ⟨hmessage, hsignature⟩ := length_texts H payload secret
  have hlen : (messageText payload).length + 1 + (signatureText H payload secret).length + 1 =
      4 * ((payload.length + 2) / 3) + 83 := by omega
  exact (inside_printDotted_iff (by omega) (by rw [hlen]; exact hM.token)).mpr Nat.one_pos

/-- **What the token block holds** is the token and its NUL. -/
theorem token_text (hM : M.Provide payload) (H : Hmac) (secret : Bytes) :
    ∃ block, (tokenBlock M (messageText payload) (signatureText H payload secret)).block =
        some block ∧
      (tokenBlock M (messageText payload) (signatureText H payload secret)).writes.foldl
        Write.apply block = generateJwt H payload secret ++ [0] := by
  have hsize := hM.size
  obtain ⟨hmessage, hsignature⟩ := length_texts H payload secret
  have hlen : (messageText payload).length + 1 + (signatureText H payload secret).length + 1 =
      4 * ((payload.length + 2) / 3) + 83 := by omega
  obtain ⟨block, hblock⟩ := Option.isSome_iff_exists.mp hM.token
  refine ⟨block, ?_, ?_⟩
  · rw [tokenBlock, printDotted, hlen, Nat.mod_eq_of_lt hsize]
    exact hblock
  · have hold : block.length = (generateJwt H payload secret ++ [0]).length := by
      rw [M.token.length_alloc hblock, generateJwt_eq]
      simp only [List.length_append, List.length_singleton]
      omega
    have hstores := foldl_writesFrom [] (generateJwt H payload secret ++ [0]) block hold []
    rw [List.nil_append, List.append_nil, List.nil_append, List.append_nil] at hstores
    rw [generateJwt_eq, List.append_assoc (messageText payload)] at hstores ⊢
    exact hstores

/-- **When every store is inside its block**: when nothing is stored, because the text of the
header or of the payload has no block. -/
theorem generateJwt_inside_iff (M : JwtAllocators) (H : Hmac) (payload secret : Bytes) :
    (∀ b ∈ generateJwtBlocks M H payload secret, b.Inside) ↔
      M.header.alloc (encodedLen jwtHeader.length + 1) = none ∨
        M.payload.alloc (encodedLen payload.length + 1) = none := by
  rw [← base64urlEncodeBlock_eq_none_iff, ← base64urlEncodeBlock_eq_none_iff, generateJwtBlocks]
  cases base64urlEncodeBlock M.header jwtHeader with
  | none => simp
  | some header =>
      cases base64urlEncodeBlock M.payload payload with
      | none => simp
      | some payload64 =>
          simp only [reduceCtorEq, or_self, iff_false]
          intro h
          exact not_inside_printDotted _ _ _ (h _ List.mem_cons_self)

/-- Every request is granted. -/
def sampleAllocators : JwtAllocators := ⟨.filled 1, .filled 1, .filled 1, .filled 1, .filled 1⟩

/-- **The NUL of the message**: for the payload `{"exp":9}` it is stored behind the 49 bytes of the
block. -/
theorem generateJwt_not_inside :
    (∃ b ∈ generateJwtBlocks sampleAllocators zeroHmac (lit "\x7b\"exp\":9\x7d") (lit "k"),
      b.block = some (List.replicate 49 1) ∧ ⟨49, 0⟩ ∈ b.writes) ∧
    ¬ ∀ b ∈ generateJwtBlocks sampleAllocators zeroHmac (lit "\x7b\"exp\":9\x7d") (lit "k"),
      b.Inside := by
  have hprovide : sampleAllocators.Provide (lit "\x7b\"exp\":9\x7d") :=
    ⟨by decide, rfl, rfl, rfl, rfl⟩
  rw [generateJwtBlocks_eq hprovide]
  refine ⟨⟨_, List.mem_cons_self, by decide +kernel, by decide +kernel⟩, fun h => ?_⟩
  exact not_inside_printDotted _ _ _ (h _ List.mem_cons_self)

end CBank

import CBank.CLib.Memory
import CBank.Jwt

/-!
# The Claims Reader

`parse_jwt_payload` of `jwt/jwt.c` in the block that holds the payload. It cuts the text in place at
the first `}`, at every comma and at the first colon of every piece, and `remove_char` squeezes the
quotes out of what is left, also in place. What it returns are pointers into the block.

Every piece is cut and squeezed inside its own bytes, and every pointer is to a string that ends
there too; so what is found stays as it was, and the pointers read as `parseJwtPayload` says.

## Main results

* `removeCharAt_eq`: a squeezed string keeps its place and its bytes in the block.
* `parseMemberAt_eq`: what a piece does to the block and to the pointers.
* `readClaims_eq`: when the reader returns, the pointers read as `parseJwtPayload`.
* `readClaims_flatObject`: the members of a flat object are read back.
-/

namespace CBank

open CLib

/-! ### The reader and its block -/

/-- The loop of `remove_char`, with `left` bytes of the block from `read` on; `none` is an access
outside the block. -/
def removeCharLoop (find : UInt8) (mem : Bytes) (read write : ℕ) : ℕ → Option Bytes
  | 0 => none
  | left + 1 => do
      let c ← mem[read]?
      if c = 0 then storeAt mem write 0
      else if c ≠ find then
        removeCharLoop find (← storeAt mem write c) (read + 1) (write + 1) left
      else removeCharLoop find mem (read + 1) write left

/-- `remove_char` on the string at `str`. -/
def removeCharAt (mem : Bytes) (str : ℕ) (find : UInt8) : Option Bytes :=
  removeCharLoop find mem str str (mem.length - str)

/-- `JwtData` as it is returned: pointers into the payload. -/
structure JwtPointers where
  exp : ℤ
  sub : Option ℕ
  name : Option ℕ
  deriving DecidableEq

/-- The assignments of one piece, from its key and from where its value is. -/
def JwtPointers.assign (mem key : Bytes) (value : ℕ) (parsed : JwtPointers) : JwtPointers :=
  let parsed := if key = lit "sub" then { parsed with sub := some value } else parsed
  let parsed := if key = lit "name" then { parsed with name := some value } else parsed
  if key = lit "exp" then { parsed with exp := atol (cstrAt mem value) } else parsed

/-- What one piece does to the block and to the pointers. -/
def parseMemberAt (mem : Bytes) (token : ℕ) (parsed : JwtPointers) :
    Option (Bytes × JwtPointers) :=
  match strchrAt mem token (ch ':') with
  | none => some (mem, parsed)
  | some colon => do
      let mem ← storeAt mem colon 0
      let mem ← removeCharAt mem token (ch '"')
      let mem ← removeCharAt mem (colon + 1) (ch '"')
      some (mem, parsed.assign mem (cstrAt mem token) (colon + 1))

/-- The delimiter of `strtok_r(_, ",")`. -/
abbrev isComma (c : UInt8) : Bool := c == ch ','

/-- The loop of `parse_jwt_payload` from `payloadRest` on; every round takes at least one byte of
the block, so `left` of them are enough. -/
def parseMembers (mem : Bytes) (payloadRest : ℕ) (parsed : JwtPointers) :
    ℕ → Option (Bytes × JwtPointers)
  | 0 => none
  | left + 1 => match strtokAt isComma mem payloadRest with
    | none => some (mem, parsed)
    | some (mem, token, payloadRest) => do
        let (mem, parsed) ← parseMemberAt mem token parsed
        parseMembers mem payloadRest parsed left

/-- `parse_jwt_payload` on the block of the payload; `none` is the write through the NULL that
`strchr` returns. -/
def parseJwtPayloadAt (mem : Bytes) : Option (Bytes × JwtPointers) := do
  let closeBracePos ← strchrAt mem 0 (ch '}')
  let mem ← storeAt mem closeBracePos 0
  parseMembers mem 1 ⟨0, none, none⟩ mem.length

/-- What the pointers read. -/
def JwtPointers.read (parsed : JwtPointers) (mem : Bytes) : JwtData :=
  ⟨parsed.exp, parsed.sub.map (cstrAt mem), parsed.name.map (cstrAt mem)⟩

/-- What the result of `parse_jwt_payload` reads when it has returned. -/
def readClaims (payload : Bytes) : Option JwtData :=
  (parseJwtPayloadAt (payload ++ [0])).map fun result => result.2.read result.1

/-! ### Squeezing -/

/-- What `read` is at: the byte behind what was squeezed and behind the gap. -/
theorem getElem?_behind_gap (done gap : Bytes) (c : UInt8) (rest : Bytes) :
    (done ++ (gap ++ c :: rest))[done.length + gap.length]? = some c := by
  rw [List.getElem?_append_right (by omega), List.getElem?_append_right (by omega)]
  simp

/-- A kept byte moves to the front of the gap, which stays as long as it was. -/
theorem storeAt_gap (done gap : Bytes) (c : UInt8) (rest : Bytes) :
    ∃ gap' : Bytes, gap'.length = gap.length ∧
      storeAt (done ++ (gap ++ c :: rest)) done.length c =
        some (done ++ [c] ++ (gap' ++ rest)) := by
  cases gap with
  | nil => exact ⟨[], rfl, by rw [List.nil_append, storeAt_append_cons]; simp⟩
  | cons x gap =>
      refine ⟨gap ++ [c], by simp, ?_⟩
      rw [List.cons_append, storeAt_append_cons]
      simp

/-- At the end of the string its NUL is written to the front of the gap. -/
theorem storeAt_gap_nul (done gap post : Bytes) :
    ∃ region, storeAt (done ++ (gap ++ 0 :: post)) done.length 0 = some (region ++ 0 :: post) ∧
      region.length = done.length + gap.length ∧ done ++ [0] <+: region ++ [0] := by
  cases gap with
  | nil => exact ⟨done, storeAt_append_cons done 0 0 post, rfl, List.prefix_rfl⟩
  | cons x gap =>
      refine ⟨done ++ 0 :: gap, ?_, by simp, gap ++ [0], by simp⟩
      rw [List.cons_append, storeAt_append_cons]
      simp

/-- The loop of `remove_char`: behind `done` it has squeezed out `gap` bytes, and `src` is left.
Induction along what is left. -/
theorem removeCharLoop_eq (find : UInt8) (done gap : Bytes) {src : Bytes} {left : ℕ}
    (hsrc : NulFree src) (hleft : src.length < left) (post : Bytes) :
    ∃ region, removeCharLoop find (done ++ (gap ++ (src ++ 0 :: post)))
        (done.length + gap.length) done.length left = some (region ++ 0 :: post) ∧
      region.length = done.length + gap.length + src.length ∧
      done ++ removeChar src find ++ [0] <+: region ++ [0] := by
  induction src generalizing done gap left with
  | nil =>
      obtain ⟨left, rfl⟩ : ∃ n, left = n + 1 := ⟨left - 1, by omega⟩
      rw [List.nil_append, removeCharLoop, getElem?_behind_gap, Option.bind_eq_bind,
        Option.bind_some, if_pos rfl]
      obtain ⟨region, hstore, hlen, hstarts⟩ := storeAt_gap_nul done gap post
      exact ⟨region, hstore, by simpa using hlen, by simpa [removeChar] using hstarts⟩
  | cons c src ih =>
      have hc : c ≠ 0 := fun h => hsrc (h ▸ List.mem_cons_self)
      have hsrc' : NulFree src := fun h => hsrc (List.mem_cons_of_mem c h)
      rw [List.length_cons] at hleft
      obtain ⟨left, rfl⟩ : ∃ n, left = n + 1 := ⟨left - 1, by omega⟩
      have hleft' : src.length < left := by omega
      rw [List.cons_append, removeCharLoop, getElem?_behind_gap, Option.bind_eq_bind,
        Option.bind_some, if_neg hc]
      by_cases hfind : c = find
      · -- a squeezed byte widens the gap
        obtain ⟨region, hloop, hlen, hstarts⟩ := ih done (gap ++ [c]) hsrc' hleft'
        refine ⟨region, ?_, ?_, ?_⟩
        · rw [if_neg (by simpa using hfind), ← hloop]
          simp [Nat.add_assoc]
        · rw [hlen]
          simp only [List.length_append, List.length_cons, List.length_nil]
          omega
        · simpa [removeChar, hfind] using hstarts
      · obtain ⟨gap', hgap, hstore⟩ := storeAt_gap done gap c (src ++ 0 :: post)
        obtain ⟨region, hloop, hlen, hstarts⟩ := ih (done ++ [c]) gap' hsrc' hleft'
        refine ⟨region, ?_, ?_, ?_⟩
        · have hread' : done.length + gap.length + 1 = (done ++ [c]).length + gap'.length := by
            simp only [List.length_append, List.length_singleton]
            omega
          have hwrite : done.length + 1 = (done ++ [c]).length := by simp
          rw [if_pos hfind, hstore, hread', hwrite]
          exact hloop
        · rw [hlen]
          simp only [List.length_append, List.length_cons, List.length_nil]
          omega
        · simpa [removeChar, hfind] using hstarts

/-- **A squeezed string keeps its place**: `remove_char` changes nothing before the string, nothing
behind it and not its NUL. -/
theorem removeCharAt_eq (find : UInt8) (front : Bytes) {s : Bytes} (hs : NulFree s)
    (post : Bytes) : ∃ region, region.length = s.length ∧
      removeChar s find ++ [0] <+: region ++ [0] ∧
      removeCharAt (front ++ (s ++ 0 :: post)) front.length find =
        some (front ++ (region ++ 0 :: post)) := by
  have hleft : s.length < (front ++ (s ++ 0 :: post)).length - front.length := by
    simp only [List.length_append, List.length_cons]
    omega
  obtain ⟨all, hloop, hlen, hstarts⟩ :=
    removeCharLoop_eq find front [] hs hleft post
  rw [List.length_nil, Nat.add_zero] at hlen
  have hfront : front <+: all := by
    refine List.prefix_of_prefix_length_le ?_ (List.prefix_append all [0]) (by omega)
    exact (List.prefix_append front _).trans (by simpa using hstarts)
  obtain ⟨region, rfl⟩ := hfront
  refine ⟨region, by simpa using hlen, ?_, ?_⟩
  · simpa using hstarts
  · rw [removeCharAt]
    simpa using hloop

/-- A squeezed string lies where the string lay. -/
theorem hasStr_squeezed (front : Bytes) {s region : Bytes} (hs : NulFree s)
    (h : s ++ [0] <+: region ++ [0]) : HasStr (front ++ (region ++ [0])) front.length s := by
  obtain ⟨rest, hrest⟩ := h
  rw [← hrest, List.append_assoc]
  exact hasStr_append front hs rest

/-! ### The pointers -/

/-- The pointers are to the strings of the data. -/
structure JwtPointers.Points (ptrs : JwtPointers) (mem : Bytes) (parsed : JwtData) : Prop where
  exp : ptrs.exp = parsed.exp
  sub : Option.Rel (HasStr mem) ptrs.sub parsed.sub
  name : Option.Rel (HasStr mem) ptrs.name parsed.name

theorem optionRel_hasStr_append {mem : Bytes} {p : Option ℕ} {s : Option Bytes}
    (h : Option.Rel (HasStr mem) p s) (more : Bytes) : Option.Rel (HasStr (mem ++ more)) p s := by
  cases h with
  | none => exact .none
  | some h => exact .some (h.append more)

theorem map_cstrAt_of_rel {mem : Bytes} {p : Option ℕ} {s : Option Bytes}
    (h : Option.Rel (HasStr mem) p s) : p.map (cstrAt mem) = s := by
  cases h with
  | none => rfl
  | some h => exact congrArg some h.cstrAt_eq

namespace JwtPointers.Points

variable {ptrs : JwtPointers} {mem : Bytes} {parsed : JwtData}

theorem append (h : ptrs.Points mem parsed) (more : Bytes) : ptrs.Points (mem ++ more) parsed :=
  ⟨h.exp, optionRel_hasStr_append h.sub more, optionRel_hasStr_append h.name more⟩

theorem read_eq (h : ptrs.Points mem parsed) : ptrs.read mem = parsed := by
  rw [JwtPointers.read, h.exp, map_cstrAt_of_rel h.sub, map_cstrAt_of_rel h.name]

section Assign

variable {value : ℕ} {text : Bytes} (c : Prop) [Decidable c]

theorem setSub (h : ptrs.Points mem parsed) (hvalue : HasStr mem value text) :
    (if c then { ptrs with sub := some value } else ptrs).Points mem
      (if c then { parsed with sub := some text } else parsed) := by
  split
  · exact ⟨h.exp, .some hvalue, h.name⟩
  · exact h

theorem setName (h : ptrs.Points mem parsed) (hvalue : HasStr mem value text) :
    (if c then { ptrs with name := some value } else ptrs).Points mem
      (if c then { parsed with name := some text } else parsed) := by
  split
  · exact ⟨h.exp, h.sub, .some hvalue⟩
  · exact h

theorem setExp (h : ptrs.Points mem parsed) (exp : ℤ) :
    (if c then { ptrs with exp := exp } else ptrs).Points mem
      (if c then { parsed with exp := exp } else parsed) := by
  split
  · exact ⟨rfl, h.sub, h.name⟩
  · exact h

end Assign

/-- The assignments of a piece, whatever lies behind what was read. -/
theorem assign (h : ptrs.Points mem parsed) {token before after : Bytes} {value : ℕ}
    (hcut : cutAt (ch ':') token = some (before, after))
    (hvalue : HasStr mem value (removeChar after (ch '"'))) (more : Bytes) :
    (ptrs.assign (mem ++ more) (removeChar before (ch '"')) value).Points mem
      (parseJwtMember parsed token) := by
  rw [JwtPointers.assign, parseJwtMember, hcut, (hvalue.append more).cstrAt_eq]
  exact ((h.setSub _ hvalue).setName _ hvalue).setExp _ _

end JwtPointers.Points

/-! ### The loop -/

theorem nulFree_removeChar {s : Bytes} (hs : NulFree s) (find : UInt8) :
    NulFree (removeChar s find) :=
  fun h => hs (removeChar_subset s find h)

/-- A piece with a colon: the key is cut off at the first one, and key and value are squeezed, each
inside its own bytes. -/
theorem parseMemberAt_cut (front : Bytes) {before after : Bytes} (post : Bytes)
    (ptrs : JwtPointers) (hcolon : ch ':' ∉ before) (hbefore : NulFree before)
    (hafter : NulFree after) :
    ∃ region, region.length = (before ++ ch ':' :: after).length ∧
      HasStr (front ++ (region ++ [0])) (front.length + before.length + 1)
        (removeChar after (ch '"')) ∧
      parseMemberAt (front ++ (before ++ ch ':' :: after ++ 0 :: post)) front.length ptrs =
        some (front ++ (region ++ 0 :: post), ptrs.assign (front ++ (region ++ [0]) ++ post)
          (removeChar before (ch '"')) (front.length + before.length + 1)) := by
  have htoken : NulFree (before ++ ch ':' :: after) := by
    simp only [NulFree, List.mem_append, List.mem_cons, not_or]
    exact ⟨hbefore, by decide, hafter⟩
  have hstore : storeAt (front ++ (before ++ ch ':' :: after ++ 0 :: post))
      (front.length + before.length) 0 =
        some (front ++ (before ++ 0 :: (after ++ 0 :: post))) := by
    have h := storeAt_append_cons (front ++ before) (ch ':') 0 (after ++ 0 :: post)
    simpa using h
  -- the key, and behind its NUL the value
  obtain ⟨key, hkeyLen, hkey, hsqueezeKey⟩ :=
    removeCharAt_eq (ch '"') front hbefore (after ++ 0 :: post)
  obtain ⟨value, hvalueLen, hvalue, hsqueezeValue⟩ :=
    removeCharAt_eq (ch '"') (front ++ (key ++ [0])) hafter post
  have hoff : (front ++ (key ++ [0])).length = front.length + before.length + 1 := by
    simp only [List.length_append, List.length_singleton, hkeyLen]
    omega
  have hmem : ∀ rest : Bytes, front ++ (key ++ 0 :: rest) = front ++ (key ++ [0]) ++ rest := by
    simp
  have hend : ∀ rest : Bytes, front ++ (key ++ [0]) ++ (value ++ 0 :: rest) =
      front ++ (key ++ 0 :: value ++ [0]) ++ rest := by simp
  have hkeyStr := hasStr_squeezed front (nulFree_removeChar hbefore _) hkey
  have hvalueStr := hasStr_squeezed (front ++ (key ++ [0])) (nulFree_removeChar hafter _) hvalue
  rw [hoff] at hsqueezeValue hvalueStr
  rw [hend, List.append_nil] at hvalueStr
  have hread : cstrAt (front ++ (key ++ 0 :: value ++ [0]) ++ post) front.length =
      removeChar before (ch '"') := by
    rw [← hend]
    exact (hkeyStr.append _).cstrAt_eq
  refine ⟨key ++ 0 :: value, by simp [hkeyLen, hvalueLen], hvalueStr, ?_⟩
  rw [parseMemberAt, strchrAt_append front hcolon htoken]
  simp only [hstore, Option.bind_eq_bind, Option.bind_some, hsqueezeKey]
  rw [hmem, hsqueezeValue, Option.bind_some, hend, hread]
  simp

/-- **What one piece does**: it is cut and squeezed inside its own bytes, and the pointers it sets
are to strings that end there. -/
theorem parseMemberAt_eq {front token : Bytes} (post : Bytes) {ptrs : JwtPointers}
    {parsed : JwtData} (htoken : NulFree token) (hpoints : ptrs.Points front parsed) :
    ∃ region ptrs', region.length = token.length ∧
      parseMemberAt (front ++ (token ++ 0 :: post)) front.length ptrs =
        some (front ++ (region ++ 0 :: post), ptrs') ∧
      ptrs'.Points (front ++ (region ++ [0])) (parseJwtMember parsed token) := by
  cases hcut : cutAt (ch ':') token with
  | none =>
      refine ⟨token, ptrs, rfl, ?_, ?_⟩
      · rw [parseMemberAt, strchrAt_eq_none front (cutAt_eq_none_iff.mp hcut) htoken]
      · rw [parseJwtMember, hcut]
        exact hpoints.append _
  | some parts =>
      obtain ⟨before, after⟩ := parts
      obtain ⟨rfl, hcolon⟩ := cutAt_eq_some_iff.mp hcut
      have hbefore : NulFree before := fun h => htoken (List.mem_append_left _ h)
      have hafter : NulFree after :=
        fun h => htoken (List.mem_append_right _ (List.mem_cons_of_mem _ h))
      obtain ⟨region, hlen, hvalue, hmember⟩ :=
        parseMemberAt_cut front post ptrs hcolon hbefore hafter
      exact ⟨region, _, hlen, hmember, (hpoints.append _).assign hcut hvalue post⟩

/-- The round of a piece with a comma behind it: the comma is overwritten, and the text goes on
behind it. -/
theorem parseMembers_next {front lead token rest : Bytes} {c : UInt8} (post : Bytes)
    {ptrs : JwtPointers} {parsed : JwtData} (hfree : NulFree (lead ++ (token ++ c :: rest)))
    (hlead : (lead ++ (token ++ c :: rest)).takeWhile isComma = lead)
    (hcut : strtok isComma (lead ++ (token ++ c :: rest)) = some (token, rest))
    (hpoints : ptrs.Points front parsed) (left : ℕ) :
    ∃ front' ptrs', parseMembers (front ++ (lead ++ (token ++ c :: rest) ++ 0 :: post))
        front.length ptrs (left + 1) =
          parseMembers (front' ++ (rest ++ 0 :: post)) front'.length ptrs' left ∧
      ptrs'.Points front' (parseJwtMember parsed token) := by
  have htoken : NulFree token :=
    fun h => hfree (List.mem_append_right _ (List.mem_append_left _ h))
  obtain ⟨region, ptrs', hlen, hmember, hpoints'⟩ :=
    parseMemberAt_eq (rest ++ 0 :: post) htoken (hpoints.append lead)
  refine ⟨front ++ lead ++ (region ++ [0]), ptrs', ?_, hpoints'⟩
  have hmem : front ++ (lead ++ (token ++ 0 :: rest) ++ 0 :: post) =
      front ++ lead ++ (token ++ 0 :: (rest ++ 0 :: post)) := by simp
  have hstop : (front ++ lead).length + token.length + 1 =
      (front ++ lead ++ (region ++ [0])).length := by
    simp only [List.length_append, List.length_singleton, hlen]
    omega
  rw [parseMembers, strtokAt_append_cons front hfree hlead hcut, ← List.length_append]
  simp only [hmem, hmember, Option.bind_eq_bind, Option.bind_some]
  rw [hstop]
  simp

/-- The round of the last piece, which ends where the text ends, and the call of `strtok_r` after
it. -/
theorem parseMembers_last {front lead token : Bytes} (post : Bytes) {ptrs : JwtPointers}
    {parsed : JwtData} (hfree : NulFree (lead ++ token))
    (hlead : (lead ++ token).takeWhile isComma = lead)
    (hcut : strtok isComma (lead ++ token) = some (token, [])) (hpoints : ptrs.Points front parsed)
    (left : ℕ) :
    ∃ mem' ptrs', parseMembers (front ++ (lead ++ token ++ 0 :: post)) front.length ptrs
        (left + 2) = some (mem', ptrs') ∧
      ptrs'.Points mem' (parseJwtMember parsed token) := by
  have htoken : NulFree token := fun h => hfree (List.mem_append_right _ h)
  obtain ⟨region, ptrs', hlen, hmember, hpoints'⟩ :=
    parseMemberAt_eq post htoken (hpoints.append lead)
  have hmem : front ++ (lead ++ token ++ 0 :: post) = front ++ lead ++ (token ++ 0 :: post) := by
    simp
  have hstop : (front ++ lead).length + token.length = (front ++ lead ++ region).length := by
    rw [List.length_append, List.length_append, List.length_append, hlen]
  have hdone : strtokAt isComma (front ++ lead ++ (region ++ 0 :: post))
      (front ++ lead ++ region).length = none := by
    have h := strtokAt_eq_none (d := isComma) (front ++ lead ++ region) (s := [])
      List.not_mem_nil rfl post
    simpa using h
  refine ⟨front ++ lead ++ (region ++ 0 :: post), ptrs', ?_, ?_⟩
  · rw [parseMembers, strtokAt_append front hfree hlead hcut, ← List.length_append]
    simp only [hmem, hmember, Option.bind_eq_bind, Option.bind_some]
    rw [hstop, parseMembers, hdone]
  · have h := hpoints'.append post
    simpa using h

/-- **The loop.** Behind `front`, which the pointers read, it goes through the pieces of `body`.
Induction along the rounds. -/
theorem parseMembers_eq {front body : Bytes} (post : Bytes) {ptrs : JwtPointers}
    {parsed : JwtData} {left : ℕ} (hbody : NulFree body) (hpoints : ptrs.Points front parsed)
    (hleft : body.length < left) :
    ∃ mem' ptrs', parseMembers (front ++ (body ++ 0 :: post)) front.length ptrs left =
        some (mem', ptrs') ∧
      ptrs'.Points mem' ((tokens isComma body).foldl parseJwtMember parsed) := by
  induction left generalizing front body ptrs parsed with
  | zero => omega
  | succ left ih =>
      cases hcut : strtok isComma body with
      | none =>
          refine ⟨front ++ (body ++ 0 :: post), ptrs, ?_, ?_⟩
          · rw [parseMembers, strtokAt_eq_none front hbody hcut]
          · rw [tokens_eq_strtok, hcut]
            exact hpoints.append _
      | some cut =>
          obtain ⟨token, rest⟩ := cut
          have htokens : tokens isComma body = token :: tokens isComma rest := by
            rw [tokens_eq_strtok, hcut]
          have hne : token ≠ [] := (of_mem_tokens (htokens ▸ List.mem_cons_self)).1
          rw [htokens, List.foldl_cons]
          generalize hlead : body.takeWhile isComma = lead
          rcases strtok_eq_some hcut with ⟨hsplit, rfl⟩ | ⟨c, -, hsplit⟩
          · rw [hlead] at hsplit
            subst hsplit
            have hpos := List.length_pos_of_ne_nil hne
            rw [List.length_append] at hleft
            obtain ⟨left, rfl⟩ : ∃ n, left = n + 1 := ⟨left - 1, by omega⟩
            exact parseMembers_last post hbody hlead hcut hpoints left
          · rw [hlead] at hsplit
            subst hsplit
            have hrest : NulFree rest := fun h =>
              hbody (List.mem_append_right _ (List.mem_append_right _ (List.mem_cons_of_mem _ h)))
            simp only [List.length_append, List.length_cons] at hleft
            obtain ⟨front', ptrs', hround, hpoints'⟩ :=
              parseMembers_next post hbody hlead hcut hpoints left
            rw [hround]
            exact ih hrest hpoints' (by omega)

/-- **The pointers read as `parseJwtPayload`**, for every payload. -/
theorem readClaims_eq {payload : Bytes} (hfree : NulFree payload) :
    readClaims payload = parseJwtPayload payload := by
  have hzero : ∀ front : Bytes, JwtPointers.Points ⟨0, none, none⟩ front .zero :=
    fun front => ⟨rfl, .none, .none⟩
  have hread : ∀ (front body post : Bytes), front.length = 1 → NulFree body →
      (parseMembers (front ++ (body ++ 0 :: post)) 1 ⟨0, none, none⟩
        (front ++ (body ++ 0 :: post)).length).map (fun result => result.2.read result.1) =
          some ((tokens isComma body).foldl parseJwtMember .zero) := by
    intro front body post hfront hbody
    have hleft : body.length < (front ++ (body ++ 0 :: post)).length := by
      simp only [List.length_append, List.length_cons]
      omega
    obtain ⟨mem', ptrs', hloop, hpoints⟩ := parseMembers_eq post hbody (hzero front) hleft
    rw [← hfront, hloop, Option.map_some, hpoints.read_eq]
  have hmem : ∀ s : Bytes, ([] : Bytes) ++ (s ++ 0 :: []) = s ++ [0] := fun s => rfl
  rw [readClaims, parseJwtPayload, payloadMembers]
  cases hcut : cutAt (ch '}') payload with
  | none =>
      have hchr := strchrAt_eq_none [] (cutAt_eq_none_iff.mp hcut) hfree []
      rw [hmem, List.length_nil] at hchr
      rw [parseJwtPayloadAt, hchr]
      rfl
  | some parts =>
      obtain ⟨before, after⟩ := parts
      obtain ⟨rfl, hbrace⟩ := cutAt_eq_some_iff.mp hcut
      have hchr := strchrAt_append [] hbrace hfree []
      rw [hmem, List.length_nil, Nat.zero_add] at hchr
      have hstore : storeAt (before ++ ch '}' :: after ++ [0]) before.length 0 =
          some (before ++ 0 :: (after ++ [0])) := by
        have h := storeAt_append_cons before (ch '}') 0 (after ++ [0])
        simpa using h
      rw [parseJwtPayloadAt, hchr]
      simp only [hstore, Option.bind_eq_bind, Option.bind_some]
      cases before with
      | nil =>
          have hafter : NulFree after := fun h => hfree (List.mem_cons_of_mem _ h)
          exact hread [0] after [] rfl hafter
      | cons x before =>
          have hbefore : NulFree before :=
            fun h => hfree (List.mem_append_left _ (List.mem_cons_of_mem x h))
          exact hread [x] before (after ++ [0]) rfl hbefore

/-! ### Flat objects -/

/-- A member of a flat object: a key and a value, each written in quotes or bare. -/
structure Member where
  key : Bytes
  keyQuoted : Bool
  value : Bytes
  valueQuoted : Bool

/-- Key and value are not empty, and hold none of the characters the reader gives a meaning; the
value may hold colons. -/
structure Member.Plain (m : Member) : Prop where
  key_ne : m.key ≠ []
  value_ne : m.value ≠ []
  key_free : ∀ c ∈ [0, ch '"', ch ',', ch ':', ch '}'], c ∉ m.key
  value_free : ∀ c ∈ [0, ch '"', ch ',', ch '}'], c ∉ m.value

/-- A text in quotes or bare. -/
def quoteIf (quoted : Bool) (s : Bytes) : Bytes :=
  if quoted then [ch '"'] ++ s ++ [ch '"'] else s

/-- A member as it is written. -/
def Member.text (m : Member) : Bytes :=
  quoteIf m.keyQuoted m.key ++ ch ':' :: quoteIf m.valueQuoted m.value

/-- A flat object: its members, joined by commas between braces. -/
def flatObject (members : List Member) : Bytes :=
  ch '{' :: [ch ','].intercalate (members.map Member.text) ++ [ch '}']

/-- The value of the last member with a key. -/
def lastValue (key : Bytes) (members : List Member) : Option Bytes :=
  (members.filter fun m => m.key = key).getLast?.map Member.value

theorem lastValue_cons (key : Bytes) (m : Member) (members : List Member) :
    lastValue key (m :: members) =
      (lastValue key members).or (if m.key = key then some m.value else none) := by
  by_cases hkey : m.key = key
  · simp only [lastValue, hkey, List.filter_cons_of_pos, decide_true, if_true,
      List.getLast?_cons]
    cases (members.filter fun m => m.key = key).getLast? <;> simp
  · simp [lastValue, hkey]

theorem not_mem_quoteIf {c : UInt8} (hquote : c ≠ ch '"') {s : Bytes} (hs : c ∉ s)
    (quoted : Bool) : c ∉ quoteIf quoted s := by
  cases quoted <;> simp [quoteIf, hs, hquote]

theorem removeChar_quoteIf {s : Bytes} (hs : ch '"' ∉ s) (quoted : Bool) :
    removeChar (quoteIf quoted s) (ch '"') = s := by
  cases quoted with
  | false => exact removeChar_of_not_mem hs
  | true =>
      rw [quoteIf, if_pos rfl, removeChar_append, removeChar_append, removeChar_of_not_mem hs]
      simp [removeChar]

namespace Member.Plain

variable {m : Member}

theorem not_mem_text (h : m.Plain) {c : UInt8} (hc : c ∈ [0, ch ',', ch '}']) : c ∉ m.text := by
  have hkey : c ∉ m.key := h.key_free c (by revert hc; simp; tauto)
  have hvalue : c ∉ m.value := h.value_free c (by revert hc; simp; tauto)
  have hquote : c ≠ ch '"' := by
    rintro rfl
    exact absurd hc (by decide)
  have hcolon : c ≠ ch ':' := by
    rintro rfl
    exact absurd hc (by decide)
  simp only [Member.text, List.mem_append, List.mem_cons, not_or]
  exact ⟨not_mem_quoteIf hquote hkey _, hcolon, not_mem_quoteIf hquote hvalue _⟩

theorem text_ne_nil (m : Member) : m.text ≠ [] := by
  simp [Member.text]

/-- A member is cut at the colon behind its key, and gives that key its value. -/
theorem parseJwtMember_text (h : m.Plain) (parsed : JwtData) :
    parseJwtMember parsed m.text =
      ⟨if m.key = lit "exp" then atol m.value else parsed.exp,
        if m.key = lit "sub" then some m.value else parsed.sub,
        if m.key = lit "name" then some m.value else parsed.name⟩ := by
  have hcut : cutAt (ch ':') m.text =
      some (quoteIf m.keyQuoted m.key, quoteIf m.valueQuoted m.value) :=
    cutAt_append_cons (not_mem_quoteIf (by decide) (h.key_free _ (by simp)) _) _
  rw [parseJwtMember, hcut]
  simp only [removeChar_quoteIf (h.key_free _ (by simp)),
    removeChar_quoteIf (h.value_free _ (by simp))]
  -- each assignment sets a field of its own
  split_ifs <;> rfl

end Member.Plain

/-- What the members leave. Induction along the members. -/
theorem foldl_parseJwtMember {members : List Member} (h : ∀ m ∈ members, m.Plain)
    (parsed : JwtData) :
    (members.map Member.text).foldl parseJwtMember parsed =
      ⟨((lastValue (lit "exp") members).map atol).getD parsed.exp,
        (lastValue (lit "sub") members).or parsed.sub,
        (lastValue (lit "name") members).or parsed.name⟩ := by
  induction members generalizing parsed with
  | nil => simp [lastValue]
  | cons m members ih =>
      have hm := h m List.mem_cons_self
      rw [List.map_cons, List.foldl_cons, hm.parseJwtMember_text,
        ih fun m' hm' => h m' (List.mem_cons_of_mem _ hm')]
      simp only [lastValue_cons, JwtData.mk.injEq]
      refine ⟨?_, ?_, ?_⟩
      · cases lastValue (lit "exp") members <;> split <;> simp
      · cases lastValue (lit "sub") members <;> split <;> simp
      · cases lastValue (lit "name") members <;> split <;> simp

/-- **The reader inverts flat objects**: `sub` and `name` are the values of the last members with
these keys, and `exp` is what `atol` reads from the last `exp`. -/
theorem readClaims_flatObject {members : List Member} (h : ∀ m ∈ members, m.Plain) :
    readClaims (flatObject members) =
      some ⟨((lastValue (lit "exp") members).map atol).getD 0, lastValue (lit "sub") members,
        lastValue (lit "name") members⟩ := by
  have hfree : ∀ {c : UInt8}, c ∈ [0, ch '}'] → c ∉ ch '{' ::
      [ch ','].intercalate (members.map Member.text) := by
    intro c hc
    have hbrace : c ≠ ch '{' := by
      rintro rfl
      exact absurd hc (by decide)
    have hcomma : c ≠ ch ',' := by
      rintro rfl
      exact absurd hc (by decide)
    rw [List.mem_cons, not_or]
    refine ⟨hbrace, not_mem_intercalate hcomma fun text htext => ?_⟩
    obtain ⟨m, hm, rfl⟩ := List.mem_map.mp htext
    exact (h m hm).not_mem_text (by revert hc; simp; tauto)
  have hnul : NulFree (flatObject members) := by
    intro h0
    rcases List.mem_append.mp h0 with h0 | h0
    · exact hfree (by simp) h0
    · exact absurd h0 (by decide)
  have hmembers : payloadMembers (flatObject members) =
      some ([ch ','].intercalate (members.map Member.text)) := by
    rw [flatObject, payloadMembers, cutAt_append_cons (hfree (by simp))]
  have htokens : tokens isComma ([ch ','].intercalate (members.map Member.text)) =
      members.map Member.text := by
    refine tokens_intercalate (fun text htext => ?_) fun text htext => ?_
    · obtain ⟨m, -, rfl⟩ := List.mem_map.mp htext
      exact Member.Plain.text_ne_nil m
    · obtain ⟨m, hm, rfl⟩ := List.mem_map.mp htext
      exact (h m hm).not_mem_text (by simp)
  rw [readClaims_eq hnul, parseJwtPayload, hmembers, Option.map_some, htokens,
    foldl_parseJwtMember h]
  simp [JwtData.zero]

/-- Members in quotes and bare, a value with a colon, and a key that comes twice. -/
def sampleMembers : List Member :=
  [⟨lit "sub", true, lit "7", true⟩, ⟨lit "name", true, lit "Ana: B", true⟩,
    ⟨lit "exp", true, lit "60", false⟩, ⟨lit "sub", false, lit "8", false⟩]

theorem readClaims_flatObject_sample :
    readClaims (flatObject sampleMembers) = some ⟨60, some (lit "8"), some (lit "Ana: B")⟩ :=
  (readClaims_flatObject fun m hm => by
    simp only [sampleMembers, List.mem_cons, List.not_mem_nil, or_false] at hm
    rcases hm with rfl | rfl | rfl | rfl <;>
      exact ⟨by decide, by decide, by decide +kernel, by decide +kernel⟩).trans (by decide +kernel)

end CBank
